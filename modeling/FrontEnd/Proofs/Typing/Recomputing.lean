/-
**Types without notes.**

Typing writes the types it finds into the program and reads them again later.  Here the same rules
are followed without notes: a question about a program is answered from its nodes alone, the program
stays as it is, and every part is gone through again whenever it is asked for.

The program is checked with right notes and without notes in the same way: the answers are the same,
errors included, and what is noted on the way is right.

Main definitions:

* `FrontEnd.Program.freshTypes`, `FrontEnd.Program.freshType` — the types of an expression, found
  without notes;
* `FrontEnd.Program.freshFunction`, `FrontEnd.Program.freshCheck` — the checks of functions and of
  whole programs without notes;
* `FrontEnd.Program.Gives` — a computation that gives an answer whatever right notes there are, and
  leaves right notes.

Main results:

* `FrontEnd.Program.freshTypes_eq` — types without notes are found from the parts outwards;
* `FrontEnd.Program.gives_typesOf`, `FrontEnd.Program.gives_checkFunction`,
  `FrontEnd.Program.gives_check` — typing gives the answers that are found without notes.
-/

import FrontEnd.Proofs.Typing.Checking

set_option relaxedAutoImplicit false
set_option autoImplicit false

namespace FrontEnd

open Run

/-! ### Answers -/

/-- Refuses with the error unless the condition holds. -/
def demand (condition : Prop) [Decidable condition] (e : Error) : Except Error Unit :=
  if condition then .ok () else .error e

namespace Program

variable (p : Program)

/-! ### Expressions -/

section Parts

variable (types : ExprId → Except Error (List DeclId))

def freshSingle (id : ExprId) : Except Error DeclId := do
  let e ← p.getExpression id
  match ← types id with
  | [type] => pure type
  | several => throw ((Cause.singleValueExpected several.length).at e.position)

def freshArguments : List DeclId → List ExprId → Except Error Unit
  | expected :: parameters, id :: arguments => do
      let argument ← p.getExpression id
      let received ← p.freshSingle types id
      demand (received = expected)
        ((Cause.argumentMismatch (p.typeName expected) (p.typeName received)).at
          argument.position)
      freshArguments parameters arguments
  | _, _ => pure ()

def freshCall (called : ExprId) (arguments : List ExprId) (place : Position) :
    Except Error (List DeclId) := do
  let called ← p.getExpression called
  let f ← p.callee called
  let parameters ← p.parameterTypes f
  demand (parameters.length = arguments.length)
    ((Cause.argumentCount parameters.length arguments.length).at place)
  p.freshArguments types parameters arguments
  p.resultTypes f

def freshLiteral (b : BasicType) : Except Error (List DeclId) := do
  let type ← p.builtInType b
  pure [type]

/-- The types of an expression's values, given the types of its parts. -/
def freshForm (form : ExprForm) (place : Position) : Except Error (List DeclId) :=
  match form with
  | .integer _ => p.freshLiteral .int
  | .character _ => p.freshLiteral .byte
  | .string _ => p.freshLiteral .string
  | .bool _ => p.freshLiteral .bool
  | .identifier _ ref => p.valueTypes ref place
  | .binary op left right => do
      let leftType ← p.freshSingle types left
      let rightType ← p.freshSingle types right
      let type ← p.operatorType op leftType rightType place
      pure [type]
  | .not operand => do
      let bool ← p.builtInType .bool
      let operandType ← p.freshSingle types operand
      let type ← p.negationType bool operandType place
      pure [type]
  | .call called arguments => p.freshCall types called arguments place

end Parts

def freshTypesUpTo : Nat → ExprId → Except Error (List DeclId)
  | 0, _ => throw (Cause.internal "expression inside itself").nowhere
  | n + 1, id => do
      let e ← p.getExpression id
      p.freshForm (freshTypesUpTo n) e.form e.position

/-- **The types of an expression's values, found without notes.** -/
def freshTypes (id : ExprId) : Except Error (List DeclId) :=
  p.freshTypesUpTo p.expressions.size id

def freshType (id : ExprId) : Except Error DeclId := p.freshSingle p.freshTypes id

/-! ### Depth -/

section Depth

variable {p} {types types' : ExprId → Except Error (List DeclId)} {id : ExprId} {n m : Nat}

theorem freshSingle_congr (h : types id = types' id) :
    p.freshSingle types id = p.freshSingle types' id := by
  unfold freshSingle
  rw [h]

/-- Comparing arguments depends on their own types only. -/
theorem freshArguments_congr {parameters : List DeclId} {arguments : List ExprId}
    (h : ∀ id ∈ arguments, types id = types' id) :
    p.freshArguments types parameters arguments = p.freshArguments types' parameters arguments := by
  induction parameters generalizing arguments with
  | nil => rfl
  | cons expected parameters ih =>
      cases arguments with
      | nil => rfl
      | cons argument arguments =>
          obtain ⟨hargument, hothers⟩ := List.forall_mem_cons.1 h
          rw [freshArguments, freshArguments, freshSingle_congr hargument, ih hothers]

/-- The types of an expression depend on those of its parts only. -/
theorem freshForm_congr {form : ExprForm} (h : ∀ part ∈ form.parts, types part = types' part)
    (place : Position) : p.freshForm types form place = p.freshForm types' form place := by
  cases form with
  | not operand =>
      rw [freshForm, freshForm, freshSingle_congr (h operand List.mem_cons_self)]
  | binary op left right =>
      have hright := h right (List.mem_cons_of_mem left List.mem_cons_self)
      rw [freshForm, freshForm, freshSingle_congr (h left List.mem_cons_self),
        freshSingle_congr hright]
  | call called arguments =>
      have harguments := fun id hid => h id (List.mem_cons_of_mem called hid)
      simp only [freshForm, freshCall, freshArguments_congr harguments]
  | _ => rfl

/-- Any depth that is above the number of the expression is enough. -/
theorem freshTypesUpTo_eq (older : p.PartsOlder) (hn : id.index < n) (hm : id.index < m) :
    p.freshTypesUpTo n id = p.freshTypesUpTo m id := by
  induction n generalizing id m with
  | zero => omega
  | succ n ih =>
      cases m with
      | zero => omega
      | succ m =>
          rw [freshTypesUpTo, freshTypesUpTo, getExpression]
          cases he : p.expression? id with
          | none => rfl
          | some e =>
              refine freshForm_congr (fun part hpart => ih ?_ ?_) e.position
              all_goals
                have hlt := older.expressions id e.form (form?_eq he) part hpart
                omega

/-- **Types are found by going down.**  Where parts are older than wholes the depth does not
matter. -/
theorem freshTypes_eq (older : p.PartsOlder) {e : Expression} (he : p.expression? id = some e) :
    p.freshTypes id = p.freshForm p.freshTypes e.form e.position := by
  have hsize : id.index < p.expressions.size := (Array.getElem?_eq_some_iff.1 he).1
  have hstep : p.freshTypes id = p.freshTypesUpTo (id.index + 1) id :=
    freshTypesUpTo_eq older hsize (Nat.lt_succ_self _)
  rw [hstep, freshTypesUpTo, getExpression, he]
  refine freshForm_congr (fun part hpart => ?_) e.position
  have hlt := older.expressions id e.form (form?_eq he) part hpart
  exact freshTypesUpTo_eq older hlt (by omega)

end Depth

/-! ### Statements

The checks of statements, with the types of expressions found anew for each of them. -/

section Checks

variable (c : Checker)

def freshCondition (condition : ExprId) : Except Error Unit := do
  let e ← p.getExpression condition
  let type ← p.freshType condition
  demand (type = c.bool) (Cause.conditionNotBool.at e.position)

def freshIntegerTarget (target : Reference) (operation : String) (place : Position) :
    Except Error Unit := do
  let type ← p.targetType target
  demand (type = c.int) ((Cause.integerOnly operation (p.typeName type)).at place)

def freshIntegerValue (value : ExprId) : Except Error Unit := do
  let e ← p.getExpression value
  let type ← p.freshType value
  demand (type = c.int) (p.mismatch c.int type e.position)

def freshChange (target : Reference) (change : Change) (place : Position) : Except Error Unit :=
  match change with
  | .assign value => do
      let expected ← p.targetType target
      let received ← p.freshType value
      demand (expected = received) (p.mismatch expected received place)
  | .add value => do
      p.freshIntegerTarget c target "add to" place
      p.freshIntegerValue c value
  | .subtract value => do
      p.freshIntegerTarget c target "subtract from" place
      p.freshIntegerValue c value
  | .increment => p.freshIntegerTarget c target "increment" place
  | .decrement => p.freshIntegerTarget c target "decrement" place

def freshResults : List DeclId → List ExprId → Except Error Unit
  | expected :: results, id :: values => do
      let value ← p.getExpression id
      let received ← p.freshType id
      demand (received = expected)
        ((Cause.returnMismatch (p.typeName expected) (p.typeName received)).at value.position)
      freshResults results values
  | _, _ => pure ()

def freshReturn (results : List DeclId) (values : List ExprId) (place : Position) :
    Except Error Unit := do
  demand (values.length = results.length)
    ((Cause.returnCount results.length values.length).at place)
  p.freshResults results values

def freshStatementForm (results : List DeclId) (part : StmtId → Except Error Unit)
    (s : Statement) : Except Error Unit :=
  match s.form with
  | .declare decl => discard (p.variableType decl)
  | .change target change => p.freshChange c target change s.position
  | .call call => discard (p.freshTypes call)
  | .branch condition thenBlock elseBlock? => do
      p.freshCondition c condition
      thenBlock.statements.forM part
      match elseBlock? with
      | some elseBlock => elseBlock.statements.forM part
      | none => pure ()
  | .whileLoop condition body => do
      p.freshCondition c condition
      body.statements.forM part
  | .forLoop init? condition action? body => do
      init?.forM part
      p.freshCondition c condition
      action?.forM part
      body.statements.forM part
  | .result values => p.freshReturn results values s.position

def freshStatementUpTo (results : List DeclId) : Nat → StmtId → Except Error Unit
  | 0, _ => throw (Cause.internal "statement inside itself").nowhere
  | n + 1, id => do
      let s ← p.getStatement id
      p.freshStatementForm c results (freshStatementUpTo results n) s

def freshStatement (results : List DeclId) (id : StmtId) : Except Error Unit :=
  p.freshStatementUpTo c results p.statements.size id

/-! ### Functions -/

def freshBody (f : Function) : Except Error Unit := do
  let results ← p.resultTypes f
  f.body.forM (p.freshStatement c results)
  demand (results = [] ∨ p.endsInReturn f.body) (Cause.missingReturn.at f.position)

def freshDeclaration (id : DeclId) : Except Error Unit :=
  match p.function? id with
  | some f => p.freshBody c f
  | none => pure ()

end Checks

/-- **Checks a function without notes.** -/
def freshFunction (f : Function) : Except Error Unit := do
  let c ← p.checker
  p.freshBody c f

/-- **Checks the functions of the file without notes.** -/
def freshCheck : Except Error Unit := do
  let c ← p.checker
  p.topLevel.forM (p.freshDeclaration c)

/-! ### Computations and answers -/

variable {α β : Type}

/-- The answer, with the program that is left. -/
def answered (x : Except Error α) (q : Program) : EStateM.Result Error Program α :=
  match x with
  | .ok a => .ok a q
  | .error e => .error e q

/-- The computation gives the answer `x` for the program `p` with any right notes, and leaves it
with right notes. -/
def Gives (m : ProgramM α) (x : Except Error α) : Prop :=
  ∀ q, Noted p q → ∃ q', Noted p q' ∧ m q = answered x q'

variable {p}

namespace Gives

variable {m : ProgramM α} {x : Except Error α}

theorem pure (a : α) : Gives p (Pure.pure a) (Pure.pure a) := fun q h => ⟨q, h, rfl⟩

theorem throw (e : Error) : Gives p (MonadExcept.throw e : ProgramM α) (.error e) :=
  fun q h => ⟨q, h, rfl⟩

/-- A question that does not look at notes. -/
theorem ask {question : Program → Except Error α} (hquestion : ∀ q, Noted p q → question q = x) :
    Gives p (Program.ask question) x := by
  intro q h
  refine ⟨q, h, ?_⟩
  unfold Program.ask
  rw [hquestion q h]
  cases x <;> rfl

/-- **A sequence gives the answer of the last step**, or that of the first one that fails. -/
theorem bind_of {f : α → ProgramM β} {g : α → Except Error β} (hm : Gives p m x)
    (hf : ∀ a, x = .ok a → Gives p (f a) (g a)) : Gives p (m >>= f) (x >>= g) := by
  intro q h
  obtain ⟨q₁, h₁, hrun⟩ := hm q h
  cases x with
  | error e => exact ⟨q₁, h₁, bind_of_error hrun⟩
  | ok a =>
      obtain ⟨q₂, h₂, hrun₂⟩ := hf a rfl q₁ h₁
      exact ⟨q₂, h₂, (bind_of_ok hrun).trans hrun₂⟩

theorem bind {f : α → ProgramM β} {g : α → Except Error β} (hm : Gives p m x)
    (hf : ∀ a, Gives p (f a) (g a)) : Gives p (m >>= f) (x >>= g) := hm.bind_of fun a _ => hf a

/-- A look at the program that does not look at notes. -/
theorem get {f : Program → ProgramM α} (hf : ∀ q, Noted p q → Gives p (f q) x) :
    Gives p (MonadState.get >>= f) x := fun q h => hf q h q h

theorem require {c k : Prop} [Decidable c] [Decidable k] {e e' : Error} (hc : c ↔ k)
    (he : e = e') : Gives p (FrontEnd.require c e) (demand k e') := by
  subst he
  intro q h
  refine ⟨q, h, ?_⟩
  unfold FrontEnd.require demand
  by_cases hk : k
  · rw [if_pos (hc.2 hk), if_pos hk]
    rfl
  · rw [if_neg (hk ∘ hc.1), if_neg hk]
    rfl

theorem discard (hm : Gives p m x) : Gives p (Functor.discard m) (Functor.discard x) := by
  intro q h
  obtain ⟨q', h', hrun⟩ := hm q h
  refine ⟨q', h', ?_⟩
  cases x with
  | error e => exact discard_error_iff.2 hrun
  | ok a => exact discard_ok_iff.2 ⟨a, hrun⟩

/-- A loop gives the answers of its steps. -/
theorem forM {ι : Type} {step : ι → ProgramM PUnit} {fresh : ι → Except Error PUnit}
    {items : List ι} (hstep : ∀ i ∈ items, Gives p (step i) (fresh i)) :
    Gives p (items.forM step) (items.forM fresh) := by
  induction items with
  | nil => exact pure PUnit.unit
  | cons i items ih =>
      exact (hstep i List.mem_cons_self).bind fun _ =>
        ih fun j hj => hstep j (List.mem_cons_of_mem i hj)

theorem forM? {ι : Type} {step : ι → ProgramM PUnit} {fresh : ι → Except Error PUnit}
    {item? : Option ι} (hstep : ∀ i ∈ item?.toList, Gives p (step i) (fresh i)) :
    Gives p (item?.forM step) (item?.forM fresh) := by
  cases item? with
  | none => exact pure PUnit.unit
  | some i => exact hstep i List.mem_cons_self

end Gives

/-! ### Rules -/

section Rules

variable {q : Program}

theorem Noted.typeName (h : Noted p q) (type : DeclId) : q.typeName type = p.typeName type := by
  unfold Program.typeName
  rw [h.declaration?]

theorem Noted.valueTypes (h : Noted p q) (ref : Reference) (place : Position) :
    q.valueTypes ref place = p.valueTypes ref place := by
  unfold Program.valueTypes
  simp only [h.declaration?, h.variableType, resultTypes, h.fieldTypes]

theorem Noted.builtInType (_ : Noted p q) (b : BasicType) : q.builtInType b = p.builtInType b := by
  rw [builtInType_eq, builtInType_eq]

theorem Noted.checker (_ : Noted p q) : q.checker = p.checker := by
  rw [checker_eq, checker_eq]

theorem Noted.operatorType (h : Noted p q) (op : BinaryOperator) (left right : DeclId)
    (place : Position) : q.operatorType op left right place = p.operatorType op left right place := by
  unfold Program.operatorType
  simp only [h.typeName, h.builtInType]

theorem Noted.negationType (h : Noted p q) (bool operand : DeclId) (place : Position) :
    q.negationType bool operand place = p.negationType bool operand place := by
  unfold Program.negationType
  rw [h.typeName]

theorem Noted.mismatch (h : Noted p q) (expected received : DeclId) (place : Position) :
    q.mismatch expected received place = p.mismatch expected received place := by
  unfold Program.mismatch
  rw [h.typeName, h.typeName]

theorem Noted.targetType (h : Noted p q) (target : Reference) :
    q.targetType target = p.targetType target := by
  unfold Program.targetType
  simp only [h.variableType]

theorem Noted.endsInReturn (h : Noted p q) (statements : List StmtId) :
    q.endsInReturn statements = p.endsInReturn statements := by
  unfold Program.endsInReturn
  simp only [h.statement?]

/-- The function that is called does not depend on notes. -/
theorem Noted.callee (h : Noted p q) {e e' : Expression} (hform : e'.form = e.form)
    (hposition : e'.position = e.position) : q.callee e' = p.callee e := by
  unfold Program.callee
  simp only [hform, hposition, h.function?]

/-- An expression is the same but for its note. -/
theorem Noted.expression? (h : Noted p q) (id : ExprId) :
    (p.expression? id = none ∧ q.expression? id = none) ∨
      ∃ e e', p.expression? id = some e ∧ q.expression? id = some e' ∧ e'.form = e.form ∧
        e'.position = e.position := by
  have hform := h.form id
  have hposition := h.position id
  unfold form? at hform
  cases hp : p.expression? id with
  | none =>
      rw [hp] at hform
      exact .inl ⟨rfl, Option.map_eq_none_iff.1 hform⟩
  | some e =>
      rw [hp] at hform hposition
      obtain ⟨e', he', hform⟩ := Option.map_eq_some_iff.1 hform
      rw [he'] at hposition
      exact .inr ⟨e, e', rfl, he', hform, Option.some.inj hposition⟩

end Rules

theorem getExpression_of_none {id : ExprId} (h : p.expression? id = none) :
    p.getExpression id = .error (Cause.internal "missing expression").nowhere := by
  unfold getExpression
  rw [h]

/-- An expression is asked for; its note is right. -/
theorem Gives.expression {α : Type} {id : ExprId} {f : Expression → ProgramM α}
    {g : Expression → Except Error α}
    (hf : ∀ e e', p.expression? id = some e → e'.form = e.form → e'.position = e.position →
      (∀ types, e'.types? = some types → p.HasTypes id types) → Gives p (f e') (g e)) :
    Gives p (Program.ask (·.getExpression id) >>= f) (p.getExpression id >>= g) := by
  intro q h
  rcases h.expression? id with ⟨hp, hq⟩ | ⟨e, e', hp, hq, hform, hposition⟩
  · have hasked : Program.ask (·.getExpression id) q = .error _ q :=
      ask_error_iff.2 ⟨getExpression_of_none hq, rfl⟩
    refine ⟨q, h, (bind_of_error hasked).trans ?_⟩
    rw [getExpression_of_none hp]
    rfl
  · obtain ⟨q', h', hrun⟩ := hf e e' hp hform hposition (fun types => h.sound id e' types hq) q h
    have hasked : Program.ask (·.getExpression id) q = .ok e' q :=
      ask_ok_iff.2 ⟨getExpression_ok_iff.2 hq, rfl⟩
    refine ⟨q', h', (bind_of_ok hasked).trans ?_⟩
    rw [getExpression_ok_iff.2 hp]
    exact hrun

/-! ### Typing with notes -/

variable {types : ExprId → ProgramM (List DeclId)}
  {fresh : ExprId → Except Error (List DeclId)} {id : ExprId}

theorem gives_single (htypes : Gives p (types id) (fresh id)) :
    Gives p (single types id) (p.freshSingle fresh id) := by
  refine .expression fun e e' _ _ hposition _ => htypes.bind fun several => ?_
  rw [hposition]
  cases several with
  | nil => exact .throw _
  | cons type others =>
      cases others with
      | nil => exact .pure type
      | cons other others => exact .throw _

/-- Comparing arguments gives what it gives without notes. -/
theorem gives_checkArguments {parameters : List DeclId} {arguments : List ExprId}
    (htypes : ∀ id ∈ arguments, Gives p (types id) (fresh id)) :
    Gives p (checkArguments types parameters arguments)
      (p.freshArguments fresh parameters arguments) := by
  induction parameters generalizing arguments with
  | nil => exact .pure ()
  | cons expected parameters ih =>
      cases arguments with
      | nil => exact .pure ()
      | cons argument arguments =>
          obtain ⟨hargument, hothers⟩ := List.forall_mem_cons.1 htypes
          rw [checkArguments, freshArguments]
          refine .expression fun e e' _ _ hposition _ =>
            (gives_single hargument).bind fun received => .get fun q h => ?_
          refine (Gives.require Iff.rfl ?_).bind fun _ => ih hothers
          rw [h.typeName, h.typeName, hposition]

theorem gives_callTypes {called : ExprId} {arguments : List ExprId}
    (htypes : ∀ id ∈ arguments, Gives p (types id) (fresh id)) (place : Position) :
    Gives p (callTypes types called arguments place) (p.freshCall fresh called arguments place) := by
  refine .expression fun e e' _ hform hposition _ => ?_
  refine (Gives.ask fun q h => h.callee hform hposition).bind fun f => ?_
  refine (Gives.ask fun q h => h.fieldTypes f.parameters).bind fun parameters => ?_
  refine (Gives.require Iff.rfl rfl).bind fun _ => ?_
  exact (gives_checkArguments htypes).bind fun _ => .ask fun q h => h.fieldTypes f.results

theorem gives_literalTypes (b : BasicType) : Gives p (literalTypes b) (p.freshLiteral b) :=
  (Gives.ask fun _ h => h.builtInType b).bind fun type => .pure [type]

/-- Typing an expression gives what it gives without notes, if typing its parts does. -/
theorem gives_formTypes {form : ExprForm}
    (htypes : ∀ part ∈ form.parts, Gives p (types part) (fresh part)) (place : Position) :
    Gives p (formTypes types form place) (p.freshForm fresh form place) := by
  cases form with
  | integer value | character byte | string text | bool value => exact gives_literalTypes _
  | identifier name ref => exact .ask fun q h => h.valueTypes ref place
  | not operand =>
      refine (Gives.ask fun _ h => h.builtInType .bool).bind fun bool => ?_
      refine (gives_single (htypes operand List.mem_cons_self)).bind fun operandType => ?_
      exact (Gives.ask fun q h => h.negationType bool operandType place).bind fun type => .pure _
  | binary op left right =>
      have hright : Gives p (types right) (fresh right) :=
        htypes right (List.mem_cons_of_mem left List.mem_cons_self)
      refine (gives_single (htypes left List.mem_cons_self)).bind fun leftType => ?_
      refine (gives_single hright).bind fun rightType => ?_
      exact (Gives.ask fun q h => h.operatorType op leftType rightType place).bind
        fun type => .pure _
  | call called arguments =>
      exact gives_callTypes (fun id hid => htypes id (List.mem_cons_of_mem called hid)) place

section Typing

variable (older : p.PartsOlder)

include older

/-- Going down far enough, the types of an expression are those that are found without notes. -/
theorem gives_typesUpTo {n : Nat} (hn : id.index < n) :
    Gives p (typesUpTo n id) (p.freshTypesUpTo n id) := by
  induction n generalizing id with
  | zero => omega
  | succ n ih =>
      rw [typesUpTo, freshTypesUpTo]
      refine .expression fun e e' he hform hposition hnotes => ?_
      rw [hform, hposition]
      have hform : p.form? id = some e.form := form?_eq he
      have hparts : ∀ part ∈ e.form.parts, part.index < n := by
        intro part hpart
        have hlt := older.expressions id e.form hform part hpart
        omega
      have hgives : Gives p (formTypes (typesUpTo n) e.form e.position)
          (p.freshForm (p.freshTypesUpTo n) e.form e.position) :=
        gives_formTypes (fun part hpart => ih (hparts part hpart)) e.position
      intro q h
      have hmeets := formTypes_meets hform (fun part hpart => finds_typesUpTo older
        (hparts part hpart)) h e.position
      obtain ⟨q₁, h₁, hrun⟩ := hgives q h
      cases hnote : e'.types? with
      | some types =>
          -- what was noted before is what is found
          have hts := hnotes types hnote
          obtain ⟨found, q₂, hfound⟩ := hmeets.exists_ok ⟨types, hts⟩
          obtain rfl := (hmeets.of_ok hfound).2.1.unique hts
          rw [hrun] at hfound
          cases hfresh : p.freshForm (p.freshTypesUpTo n) e.form e.position with
          | error error => simp [hfresh, answered] at hfound
          | ok types =>
              simp only [hfresh, answered, EStateM.Result.ok.injEq] at hfound
              exact ⟨q, h, by rw [hfound.1]; rfl⟩
      | none =>
          cases hfresh : p.freshForm (p.freshTypesUpTo n) e.form e.position with
          | error error =>
              rw [hfresh] at hrun
              exact ⟨q₁, h₁, bind_of_error hrun⟩
          | ok types =>
              rw [hfresh] at hrun
              have hts := (hmeets.of_ok hrun).2.1
              exact ⟨_, h₁.setTypes hts, bind_of_ok hrun⟩

/-- **Typing gives the types that are found without notes**, or the error. -/
theorem gives_typesOf (id : ExprId) : Gives p (typesOf id) (p.freshTypes id) := by
  intro q h
  have hrun : typesOf id q = typesUpTo p.expressions.size id q := by
    rw [← h.size]
    rfl
  rw [hrun, freshTypes]
  by_cases hid : id.index < p.expressions.size
  · exact gives_typesUpTo older hid q h
  · -- there is no such expression
    have hnone : p.expression? id = none := Array.getElem?_eq_none (by omega)
    cases hsize : p.expressions.size with
    | zero => exact ⟨q, h, rfl⟩
    | succ n =>
        rw [typesUpTo, freshTypesUpTo]
        refine Gives.expression (fun e e' he _ _ _ => ?_) q h
        rw [hnone] at he
        cases he

theorem gives_typeOf (id : ExprId) : Gives p (typeOf id) (p.freshType id) :=
  gives_single (gives_typesOf older id)

/-! ### Checks with notes -/

variable (c : Checker)

theorem gives_checkCondition (condition : ExprId) :
    Gives p (checkCondition c condition) (p.freshCondition c condition) := by
  refine .expression fun e e' _ _ hposition _ => (gives_typeOf older condition).bind fun type => ?_
  exact .require Iff.rfl (by rw [hposition])

omit older in
theorem gives_checkIntegerTarget (target : Reference) (operation : String) (place : Position) :
    Gives p (checkIntegerTarget c target operation place)
      (p.freshIntegerTarget c target operation place) := by
  refine (Gives.ask fun q h => h.targetType target).bind fun type => .get fun q h => ?_
  exact .require Iff.rfl (by rw [h.typeName])

theorem gives_checkIntegerValue (value : ExprId) :
    Gives p (checkIntegerValue c value) (p.freshIntegerValue c value) := by
  refine .expression fun e e' _ _ hposition _ => (gives_typeOf older value).bind fun type => ?_
  exact .get fun q h => .require Iff.rfl (by rw [h.mismatch, hposition])

/-- Checking a change gives what it gives without notes. -/
theorem gives_checkChange (target : Reference) (change : Change) (place : Position) :
    Gives p (checkChange c target change place) (p.freshChange c target change place) := by
  cases change with
  | assign value =>
      refine (Gives.ask fun q h => h.targetType target).bind fun expected => ?_
      refine (gives_typeOf older value).bind fun received => .get fun q h => ?_
      exact .require Iff.rfl (h.mismatch expected received place)
  | add value =>
      exact (gives_checkIntegerTarget c target _ place).bind fun _ =>
        gives_checkIntegerValue older c value
  | subtract value =>
      exact (gives_checkIntegerTarget c target _ place).bind fun _ =>
        gives_checkIntegerValue older c value
  | increment => exact gives_checkIntegerTarget c target _ place
  | decrement => exact gives_checkIntegerTarget c target _ place

omit c in
theorem gives_checkResults (results : List DeclId) (values : List ExprId) :
    Gives p (checkResults results values) (p.freshResults results values) := by
  induction results generalizing values with
  | nil => exact .pure ()
  | cons expected results ih =>
      cases values with
      | nil => exact .pure ()
      | cons value values =>
          rw [checkResults, freshResults]
          refine .expression fun e e' _ _ hposition _ =>
            (gives_typeOf older value).bind fun received => .get fun q h => ?_
          refine (Gives.require Iff.rfl ?_).bind fun _ => ih values
          rw [h.typeName, h.typeName, hposition]

omit c in
theorem gives_checkReturn (results : List DeclId) (values : List ExprId) (place : Position) :
    Gives p (checkReturn results values place) (p.freshReturn results values place) :=
  (Gives.require Iff.rfl rfl).bind fun _ => gives_checkResults older results values

/-- Checking a statement gives what it gives without notes, if checking its parts does. -/
theorem gives_checkForm {results : List DeclId} {part : StmtId → ProgramM Unit}
    {freshPart : StmtId → Except Error Unit} (s : Statement)
    (hparts : ∀ id ∈ s.form.parts, Gives p (part id) (freshPart id)) :
    Gives p (checkForm c results part s) (p.freshStatementForm c results freshPart s) := by
  obtain ⟨form, place⟩ := s
  cases form with
  | declare decl => exact (Gives.ask fun q h => h.variableType decl).discard
  | change target change => exact gives_checkChange older c target change place
  | call call => exact (gives_typesOf older call).discard
  | branch condition thenBlock elseBlock? =>
      refine (gives_checkCondition older c condition).bind fun _ => ?_
      refine (Gives.forM fun id hid => hparts id (List.mem_append_left _ hid)).bind fun _ => ?_
      cases elseBlock? with
      | none => exact .pure ()
      | some elseBlock => exact .forM fun id hid => hparts id (List.mem_append_right _ hid)
  | whileLoop condition body =>
      exact (gives_checkCondition older c condition).bind fun _ => .forM hparts
  | forLoop init? condition action? body =>
      rw [StmtForm.parts, List.forall_mem_append, List.forall_mem_append] at hparts
      obtain ⟨hinit, haction, hbody⟩ := hparts
      refine (Gives.forM? hinit).bind fun _ => ?_
      refine (gives_checkCondition older c condition).bind fun _ => ?_
      exact (Gives.forM? haction).bind fun _ => .forM hbody
  | result values => exact gives_checkReturn older results values place

omit older c in
theorem getStatement_eq_ok_iff {id : StmtId} {s : Statement} :
    p.getStatement id = .ok s ↔ p.statement? id = some s := by
  unfold getStatement
  cases p.statement? id <;> simp

omit older c in
theorem Noted.getStatement {q : Program} (h : Noted p q) (id : StmtId) :
    q.getStatement id = p.getStatement id := by
  unfold Program.getStatement
  rw [h.statement?]

/-- Going down far enough, a statement is checked as without notes. -/
theorem gives_checkUpTo {results : List DeclId} {n : Nat} {id : StmtId} (hn : id.index < n) :
    Gives p (checkUpTo c results n id) (p.freshStatementUpTo c results n id) := by
  induction n generalizing id with
  | zero => omega
  | succ n ih =>
      rw [checkUpTo, freshStatementUpTo]
      refine (Gives.ask fun q h => h.getStatement id).bind_of fun s hs => ?_
      refine gives_checkForm older c s fun part hpart => ih ?_
      have hlt := older.statements id s (getStatement_eq_ok_iff.1 hs) part hpart
      omega

/-- Checking a statement of a program gives what it gives without notes. -/
theorem gives_checkStatement (results : List DeclId) (id : StmtId) :
    Gives p (checkStatement c results id) (p.freshStatement c results id) := by
  intro q h
  have hrun : checkStatement c results id q = checkUpTo c results p.statements.size id q := by
    rw [← h.statements]
    rfl
  rw [hrun, freshStatement]
  by_cases hid : id.index < p.statements.size
  · exact gives_checkUpTo older c hid q h
  · -- there is no such statement
    have hnone : p.statement? id = none := Array.getElem?_eq_none (by omega)
    cases hsize : p.statements.size with
    | zero => exact ⟨q, h, rfl⟩
    | succ n =>
        rw [checkUpTo, freshStatementUpTo]
        refine (Gives.ask fun q h => h.getStatement id).bind_of (fun s hs => ?_) q h
        rw [getStatement_eq_ok_iff.1 hs] at hnone
        cases hnone

theorem gives_checkBody (f : Function) : Gives p (checkBody c f) (p.freshBody c f) := by
  refine (Gives.ask fun q h => h.fieldTypes f.results).bind fun results => ?_
  refine (Gives.forM fun id _ => gives_checkStatement older c results id).bind fun _ => ?_
  exact .get fun q h => .require (by rw [h.endsInReturn]) rfl

theorem gives_checkDeclaration (id : DeclId) :
    Gives p (checkDeclaration c id) (p.freshDeclaration c id) := by
  refine .get fun q h => ?_
  rw [h.function?, freshDeclaration]
  cases p.function? id with
  | none => exact .pure ()
  | some f => exact gives_checkBody older c f

omit c in
/-- **A function is checked as without notes.** -/
theorem gives_checkFunction (f : Function) : Gives p (checkFunction f) (p.freshFunction f) :=
  (Gives.ask fun _ h => h.checker).bind fun c => gives_checkBody older c f

omit c in
/-- **A program is checked as without notes.** -/
theorem gives_check : Gives p check p.freshCheck := by
  refine (Gives.ask fun _ h => h.checker).bind fun c => .get fun q h => ?_
  rw [h.topLevel]
  exact .forM fun id _ => gives_checkDeclaration older c id

end Typing

end Program

end FrontEnd
