/-
**The types that are found are those of the rules.**

The search for the types of an expression notes what it finds, so the program changes on the way.
What stays is that every note agrees with the rules; as long as it does, the search succeeds exactly
on the expressions that have types, and finds these.  It goes down from wholes to parts, and as
parts are older than wholes it never runs out of steps.

Main definitions:

* `FrontEnd.Program.Noted` — programs that differ in correct notes.

Main results:

* `FrontEnd.Program.typesOf_meets`, `FrontEnd.Program.typeOf_meets` — the search for the types of an
  expression, or for its one type.
-/

import FrontEnd.Proofs.Run
import FrontEnd.Proofs.Typing.Rules

set_option relaxedAutoImplicit false
set_option autoImplicit false

namespace FrontEnd

open Run

namespace Program

/-! ### Notes -/

/-- The program `q` differs from `p` in the types that are noted, and what it notes is right. -/
structure Noted (p q : Program) : Prop where
  declarations : q.declarations = p.declarations
  statements : q.statements = p.statements
  scopes : q.scopes = p.scopes
  topLevel : q.topLevel = p.topLevel
  size : q.expressions.size = p.expressions.size
  form : ∀ id, q.form? id = p.form? id
  position : ∀ id, (q.expression? id).map Expression.position =
    (p.expression? id).map Expression.position
  sound : ∀ id e types, q.expression? id = some e → e.types? = some types → p.HasTypes id types

variable {p q q' : Program} {id : ExprId} {ts : List DeclId} {n : Nat}

/-- A correct note may be made. -/
theorem Noted.setTypes (h : Noted p q) (hts : p.HasTypes id ts) : Noted p (q.setTypes id ts) where
  declarations := h.declarations
  statements := h.statements
  scopes := h.scopes
  topLevel := h.topLevel
  size := by
    rw [← h.size]
    exact Array.size_modify
  form := by
    intro other
    rw [← h.form, form?, form?, Program.setTypes, expression?_modifyExpression]
    by_cases hid : id = other
    · rw [if_pos hid, Option.map_map]
      rfl
    · rw [if_neg hid]
  position := by
    intro other
    rw [← h.position, Program.setTypes, expression?_modifyExpression]
    by_cases hid : id = other
    · rw [if_pos hid, Option.map_map]
      rfl
    · rw [if_neg hid]
  sound := by
    intro other e types he htypes
    rw [Program.setTypes, expression?_modifyExpression] at he
    by_cases hid : id = other
    · subst hid
      rw [if_pos rfl] at he
      obtain ⟨e', -, rfl⟩ := Option.map_eq_some_iff.1 he
      obtain rfl := Option.some.inj htypes
      exact hts
    · rw [if_neg hid] at he
      exact h.sound other e types he htypes

theorem Noted.declaration? (h : Noted p q) (decl : DeclId) :
    q.declaration? decl = p.declaration? decl := by
  unfold Program.declaration?
  rw [h.declarations]

theorem Noted.function? (h : Noted p q) (decl : DeclId) : q.function? decl = p.function? decl := by
  unfold Program.function?
  rw [h.declaration?]

theorem Noted.statement? (h : Noted p q) (id : StmtId) : q.statement? id = p.statement? id := by
  unfold Program.statement?
  rw [h.statements]

theorem Noted.variableType (h : Noted p q) (decl : DeclId) :
    q.variableType decl = p.variableType decl := by
  unfold Program.variableType
  rw [h.declaration?]

theorem Noted.fieldTypes (h : Noted p q) (fields : List Field) :
    q.fieldTypes fields = p.fieldTypes fields := by
  induction fields with
  | nil => rfl
  | cons field fields ih => rw [Program.fieldTypes, Program.fieldTypes, h.variableType, ih]

/-! ### Single rules -/

/-- The rules for names are followed. -/
theorem valueTypes_ok_iff (h : Noted p q) (ref : Reference) (place : Position) :
    q.valueTypes ref place = .ok ts ↔ p.NameTypes ref ts := by
  cases ref with
  | pending name scope position => simp [valueTypes, Reference.target, NameTypes]
  | resolved decl =>
      have hfunction := h.function? decl
      have hvariable := h.variableType decl
      unfold valueTypes NameTypes
      simp only [Reference.target, Reference.resolved.injEq]
      rw [hvariable]
      unfold function?
      rw [h.declaration?]
      cases hd : p.declaration? decl with
      | none => simp [hd, variableType]
      | some d =>
          cases d with
          | type t => simp [hd, variableType]
          | func f =>
              have hresults : q.resultTypes f = p.resultTypes f := h.fieldTypes f.results
              simp [hd, variableType, hresults]
          | var v =>
              cases hv : p.variableType decl <;> simp [hd, hv, Except.map, eq_comm]

/-- The rules for operators are followed. -/
theorem operatorType_ok_iff {op : BinaryOperator} {left right type : DeclId} {place : Position} :
    q.operatorType op left right place = .ok type ↔ op.Types left right type := by
  constructor
  · intro h
    cases hlogical : op.isLogical with
    | true =>
        by_cases hleft : left = BasicType.bool.declaration
        · by_cases hright : right = BasicType.bool.declaration
          · obtain rfl : BasicType.bool.declaration = type := by
              simpa [operatorType, hlogical, hleft, hright] using h
            rw [hleft, hright]
            exact .logical hlogical
          · simp [operatorType, hlogical, hleft, hright] at h
        · simp [operatorType, hlogical, hleft] at h
    | false =>
        by_cases hsame : left = right
        · subst hsame
          cases hcomparison : op.isComparison with
          | true =>
              obtain rfl : BasicType.bool.declaration = type := by
                simpa [operatorType, hlogical, hcomparison] using h
              exact .comparison hcomparison
          | false =>
              obtain rfl : left = type := by
                simpa [operatorType, hlogical, hcomparison] using h
              exact .arithmetic hlogical hcomparison
        · simp [operatorType, hlogical, hsame] at h
  · intro h
    cases h with
    | logical hlogical => simp [operatorType, hlogical]
    | comparison hcomparison =>
        have hlogical : op.isLogical = false := by
          cases op <;> simp [BinaryOperator.isComparison] at hcomparison <;> rfl
        simp [operatorType, hlogical, hcomparison]
    | arithmetic hlogical hcomparison => simp [operatorType, hlogical, hcomparison]

/-- The rule for negation is followed. -/
theorem negationType_ok_iff {bool operand type : DeclId} {place : Position} :
    q.negationType bool operand place = .ok type ↔ operand = bool ∧ type = bool := by
  unfold negationType
  by_cases hoperand : operand = bool
  · simp [hoperand, eq_comm]
  · simp [hoperand]

/-- The function that an expression names is called. -/
theorem callee_ok_iff (h : Noted p q) {e : Expression} (he : q.expression? id = some e)
    {f : Function} : q.callee e = .ok f ↔ p.Calls id f := by
  have hform : p.form? id = some e.form := by
    rw [← h.form, form?_eq he]
  unfold callee Calls
  rw [hform]
  cases e.form with
  | identifier name ref =>
      cases ref with
      | pending name' scope position => simp [Reference.target]
      | resolved decl =>
          simp only [Reference.target, h.function?]
          cases hf : p.function? decl with
          | none =>
              constructor
              · intro hno
                cases hno
              · rintro ⟨name', decl', hname, hf'⟩
                cases hname
                rw [hf] at hf'
                cases hf'
          | some g =>
              constructor
              · intro hg
                obtain rfl := Except.ok.inj hg
                exact ⟨_, _, rfl, hf⟩
              · rintro ⟨name', decl', hname, hf'⟩
                cases hname
                rw [hf] at hf'
                exact congrArg Except.ok (Option.some.inj hf')
  | _ => simp

/-! ### Parts -/

section Parts

variable {types : ExprId → ProgramM (List DeclId)}

/-- The search finds the types of an expression, whatever was noted before. -/
def Finds (p : Program) (types : ExprId → ProgramM (List DeclId)) (id : ExprId) : Prop :=
  ∀ q, Noted p q → Meets (types id) q (∃ ts, p.HasTypes id ts) fun ts q' =>
    p.HasTypes id ts ∧ Noted p q'

/-- What has types is an expression, also in a program with notes. -/
theorem Noted.expression?_isSome (h : Noted p q) (hts : p.HasTypes id ts) :
    ∃ e, q.expression? id = some e := by
  obtain ⟨form, hform⟩ := hts.form?_isSome
  rw [← h.form] at hform
  obtain ⟨e, he, -⟩ := Option.map_eq_some_iff.1 hform
  exact ⟨e, he⟩

theorem getExpression_ok_iff {e : Expression} :
    q.getExpression id = .ok e ↔ q.expression? id = some e := by
  unfold getExpression
  cases q.expression? id <;> simp

/-- An expression is asked for. -/
theorem ask_getExpression_meets (q : Program) (id : ExprId) :
    Meets (ask (·.getExpression id)) q (∃ e, q.expression? id = some e) fun e q' =>
      q.expression? id = some e ∧ q' = q :=
  .ask fun _ => getExpression_ok_iff

/-- The one type of a part is found. -/
theorem single_meets (htypes : Finds p types id) (h : Noted p q) :
    Meets (single types id) q (∃ type, p.HasTypes id [type]) fun type q' =>
      p.HasTypes id [type] ∧ Noted p q' := by
  unfold single
  refine (ask_getExpression_meets q id).bind_of ?_ fun e q₁ he => ?_
  · rintro ⟨type, htype⟩
    exact h.expression?_isSome htype
  · obtain ⟨-, rfl⟩ := he
    refine (htypes q₁ h).bind_of ?_ fun ts q₂ hts => ?_
    · rintro ⟨type, htype⟩
      exact ⟨_, htype⟩
    · obtain ⟨hts, h₂⟩ := hts
      cases ts with
      | nil =>
          refine .fails (by simp [throw_ok_iff]) ?_
          rintro ⟨type, htype⟩
          cases hts.unique htype
      | cons type others =>
          cases others with
          | nil => exact .succeeds rfl ⟨type, hts⟩ ⟨hts, h₂⟩
          | cons other others =>
              refine .fails (by simp [throw_ok_iff]) ?_
              rintro ⟨type', htype⟩
              cases hts.unique htype

theorem forall_mem_zip_cons {α β : Type} {P : α → β → Prop} {a : α} {b : β} {as : List α}
    {bs : List β} : (∀ x y, (x, y) ∈ (a :: as).zip (b :: bs) → P x y) ↔
      P a b ∧ ∀ x y, (x, y) ∈ as.zip bs → P x y := by
  simp [or_imp, forall_and]

/-- Arguments are compared with parameters, one by one. -/
theorem checkArguments_meets (arguments : List ExprId) (parameters : List DeclId)
    (htypes : ∀ id ∈ arguments, Finds p types id) (h : Noted p q) :
    Meets (checkArguments types parameters arguments) q
      (∀ argument type, (argument, type) ∈ arguments.zip parameters → p.HasTypes argument [type])
      fun _ q' => Noted p q' := by
  induction parameters generalizing arguments q with
  | nil => exact .succeeds rfl (by simp) h
  | cons expected parameters ih =>
      cases arguments with
      | nil => exact .succeeds rfl (by simp) h
      | cons argument arguments =>
          rw [checkArguments, forall_mem_zip_cons]
          refine (ask_getExpression_meets q argument).bind_of
            (fun hc => h.expression?_isSome hc.1) fun e q₁ he => ?_
          obtain ⟨-, rfl⟩ := he
          refine (single_meets (htypes argument List.mem_cons_self) h).bind_of
            (fun hc => ⟨_, hc.1⟩) fun received q₂ hreceived => ?_
          obtain ⟨hreceived, h₂⟩ := hreceived
          have hothers : ∀ id ∈ arguments, Finds p types id :=
            fun id hid => htypes id (List.mem_cons_of_mem argument hid)
          exact Meets.bind_eq rfl (Meets.bind (q := fun _ q' => Noted p q')
            (.require hreceived.type_eq_iff fun _ => h₂) fun _ q₃ h₃ => ih arguments hothers h₃)

/-- The types of a call's values are found. -/
theorem callTypes_meets {callee : ExprId} {arguments : List ExprId}
    (hform : p.form? id = some (.call callee arguments))
    (htypes : ∀ id ∈ arguments, Finds p types id) (h : Noted p q) (place : Position) :
    Meets (callTypes types callee arguments place) q (∃ ts, p.HasTypes id ts) fun ts q' =>
      p.HasTypes id ts ∧ Noted p q' := by
  have hcall : (∃ ts, p.HasTypes id ts) → ∃ f parameters, p.Calls callee f ∧
      p.parameterTypes f = .ok parameters := by
    rintro ⟨ts, hts⟩
    obtain ⟨f, parameters, hf, hparameters, -⟩ := (hasTypes_call_iff hform).1 hts
    exact ⟨f, parameters, hf, hparameters⟩
  unfold callTypes
  refine (ask_getExpression_meets q callee).bind_of ?_ fun e q₁ he => ?_
  · intro hts
    obtain ⟨f, -, ⟨name, decl, hcallee, -⟩, -⟩ := hcall hts
    rw [← h.form] at hcallee
    obtain ⟨e, he, -⟩ := Option.map_eq_some_iff.1 hcallee
    exact ⟨e, he⟩
  obtain ⟨he, rfl⟩ := he
  refine (Meets.ask fun f => callee_ok_iff h he).bind_of ?_ fun f q₂ hf => ?_
  · intro hts
    obtain ⟨f, -, hf, -⟩ := hcall hts
    exact ⟨f, hf⟩
  obtain ⟨hf, rfl⟩ := hf
  -- from here on the function is known
  have hfields : ∀ parameters, q₂.parameterTypes f = .ok parameters ↔
      p.parameterTypes f = .ok parameters := by
    intro parameters
    rw [parameterTypes, parameterTypes, h.fieldTypes]
  refine (Meets.ask hfields).bind_of ?_ fun parameters q₃ hq₃ => ?_
  · intro hts
    obtain ⟨f', parameters, hf', hparameters⟩ := hcall hts
    rw [hf.unique hf']
    exact ⟨parameters, hparameters⟩
  obtain ⟨hparameters, rfl⟩ := hq₃
  simp only [hf.hasTypes_iff hform hparameters, exists_and_left]
  refine Meets.bind (q := fun _ q' => parameters.length = arguments.length ∧ q' = q₃)
    (.require Iff.rfl fun hcount => ⟨hcount, rfl⟩) fun _ q₄ hq₄ => ?_
  obtain ⟨hcount, rfl⟩ := hq₄
  -- the arguments matter for the outcome too
  have hloop := checkArguments_meets arguments parameters htypes h
  refine Meets.bind (q := fun _ q' => (∀ argument type,
    (argument, type) ∈ arguments.zip parameters → p.HasTypes argument [type]) ∧ Noted p q')
      ⟨fun hok => ?_, hloop.exists_ok⟩ fun _ q₅ hq₅ => ?_
  · exact ⟨(hloop.of_ok hok).1, hloop.of_ok hok⟩
  obtain ⟨harguments, h₅⟩ := hq₅
  have hresults : ∀ ts, q₅.resultTypes f = .ok ts ↔ p.resultTypes f = .ok ts := by
    intro ts
    rw [resultTypes, resultTypes, h₅.fieldTypes]
  refine (Meets.ask hresults).imp Iff.rfl ?_
  rintro ts q₆ ⟨hts, rfl⟩
  exact ⟨⟨hcount, harguments, hts⟩, h₅⟩

/-- The type of a literal is found. -/
theorem literalTypes_meets {form : ExprForm} {b : BasicType} (hform : p.form? id = some form)
    (hb : form.literalType? = some b) (h : Noted p q) :
    Meets (literalTypes b) q (∃ ts, p.HasTypes id ts) fun ts q' =>
      p.HasTypes id ts ∧ Noted p q' := by
  have hts : p.HasTypes id [b.declaration] := .literal hform hb
  rw [literalTypes_eq]
  exact .succeeds rfl ⟨_, hts⟩ ⟨hts, h⟩

/-- The types of a form are found, when those of the parts are. -/
theorem formTypes_meets {form : ExprForm} (hform : p.form? id = some form)
    (htypes : ∀ part ∈ form.parts, Finds p types part) (h : Noted p q) (place : Position) :
    Meets (formTypes types form place) q (∃ ts, p.HasTypes id ts) fun ts q' =>
      p.HasTypes id ts ∧ Noted p q' := by
  cases form with
  | integer value => exact literalTypes_meets hform rfl h
  | character byte => exact literalTypes_meets hform rfl h
  | string text => exact literalTypes_meets hform rfl h
  | bool value => exact literalTypes_meets hform rfl h
  | identifier name ref =>
      simp only [hasTypes_identifier_iff hform]
      refine (Meets.ask fun ts => valueTypes_ok_iff h ref place).imp Iff.rfl ?_
      rintro ts q' ⟨hts, rfl⟩
      exact ⟨hts, h⟩
  | not operand =>
      simp only [hasTypes_not_iff hform]
      refine .bind_eq (congrFun (ask_builtInType .bool) q) ?_
      refine (single_meets (htypes operand List.mem_cons_self) h).bind_of ?_ fun type q₁ htype => ?_
      · rintro ⟨ts, hbool, -⟩
        exact ⟨_, hbool⟩
      obtain ⟨htype, h₁⟩ := htype
      refine (Meets.ask fun t => negationType_ok_iff).bind_of ?_ fun t q₂ hq₂ => ?_
      · rintro ⟨ts, hts, -⟩
        exact ⟨_, htype.type_unique hts, rfl⟩
      obtain ⟨⟨rfl, rfl⟩, rfl⟩ := hq₂
      exact .succeeds rfl ⟨_, htype, rfl⟩ ⟨⟨htype, rfl⟩, h₁⟩
  | binary op left right =>
      simp only [hasTypes_binary_iff hform]
      refine (single_meets (htypes left List.mem_cons_self) h).bind_of ?_ fun leftType q₁ hq₁ => ?_
      · rintro ⟨ts, leftType, -, -, hleft, -⟩
        exact ⟨leftType, hleft⟩
      obtain ⟨hleft, h₁⟩ := hq₁
      have hright : Finds p types right :=
        htypes right (List.mem_cons_of_mem left List.mem_cons_self)
      refine (single_meets hright h₁).bind_of ?_ fun rightType q₂ hq₂ => ?_
      · rintro ⟨ts, -, rightType, -, -, hright, -⟩
        exact ⟨rightType, hright⟩
      obtain ⟨hright, h₂⟩ := hq₂
      refine (Meets.ask fun type => operatorType_ok_iff).bind_of ?_ fun type q₃ hq₃ => ?_
      · rintro ⟨ts, leftType', rightType', type, hleft', hright', hop, -⟩
        obtain rfl := hleft.type_unique hleft'
        obtain rfl := hright.type_unique hright'
        exact ⟨type, hop⟩
      obtain ⟨hop, rfl⟩ := hq₃
      exact .succeeds rfl ⟨_, _, _, _, hleft, hright, hop, rfl⟩
        ⟨⟨_, _, _, hleft, hright, hop, rfl⟩, h₂⟩
  | call callee arguments =>
      exact callTypes_meets hform (fun id hid => htypes id (List.mem_cons_of_mem callee hid)) h
        place

end Parts

/-! ### Whole expressions -/

/-- Going down far enough, the types of an expression are found.  The number of an expression is
enough, because parts have smaller numbers. -/
theorem finds_typesUpTo (older : p.PartsOlder) (hn : id.index < n) :
    Finds p (typesUpTo n) id := by
  induction n generalizing id with
  | zero => omega
  | succ n ih =>
      intro q h
      rw [typesUpTo]
      refine (ask_getExpression_meets q id).bind_of ?_ fun e q₁ he => ?_
      · rintro ⟨ts, hts⟩
        exact h.expression?_isSome hts
      obtain ⟨he, rfl⟩ := he
      have hform : p.form? id = some e.form := by
        rw [← h.form, form?_eq he]
      cases hnote : e.types? with
      | some types =>
          -- what was noted before is correct
          have hts := h.sound id e types he hnote
          exact .succeeds rfl ⟨types, hts⟩ ⟨hts, h⟩
      | none =>
          have hparts : ∀ part ∈ e.form.parts, Finds p (typesUpTo n) part := by
            intro part hpart
            have hlt := older.expressions id e.form hform part hpart
            exact ih (by omega)
          refine (formTypes_meets hform hparts h e.position).bind_of (fun hts => hts)
            fun types q₂ hq₂ => ?_
          obtain ⟨hts, h₂⟩ := hq₂
          exact .succeeds rfl ⟨types, hts⟩ ⟨hts, h₂.setTypes hts⟩

/-- **The types of an expression are found** exactly if there are any. -/
theorem typesOf_meets (older : p.PartsOlder) (h : Noted p q) (id : ExprId) :
    Meets (typesOf id) q (∃ ts, p.HasTypes id ts) fun ts q' => p.HasTypes id ts ∧ Noted p q' := by
  have hrun : typesOf id q = typesUpTo q.expressions.size id q := rfl
  by_cases hid : id.index < q.expressions.size
  · exact (finds_typesUpTo older hid q h).of_run hrun
  · -- there is no such expression
    have hnone : p.form? id = none := by
      rw [← h.form, form?, expression?, Array.getElem?_eq_none (by omega)]
      rfl
    have hno : ¬ ∃ ts, p.HasTypes id ts := by
      rintro ⟨ts, hts⟩
      obtain ⟨form, hform⟩ := hts.form?_isSome
      rw [hnone] at hform
      cases hform
    refine .fails (fun ts q' hok => ?_) hno
    rw [hrun] at hok
    cases hsize : q.expressions.size with
    | zero =>
        rw [hsize] at hok
        cases hok
    | succ n =>
        rw [hsize, typesUpTo] at hok
        obtain ⟨e, q₁, he, -⟩ := bind_ok_iff.1 hok
        have he' := getExpression_ok_iff.1 (ask_ok_iff.1 he).1
        rw [expression?, Array.getElem?_eq_none (by omega)] at he'
        cases he'

/-- **The one type of an expression is found** exactly if there is one. -/
theorem typeOf_meets (older : p.PartsOlder) (h : Noted p q) (id : ExprId) :
    Meets (typeOf id) q (∃ type, p.HasTypes id [type]) fun type q' =>
      p.HasTypes id [type] ∧ Noted p q' :=
  single_meets (fun _ h => typesOf_meets older h id) h

end Program

end FrontEnd
