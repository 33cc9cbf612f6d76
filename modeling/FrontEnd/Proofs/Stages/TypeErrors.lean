/-
**Why programs are ill typed.**

Typing asks for the declarations behind references, for the parts of expressions and for the
statements of blocks, and reports an internal error where there is none or one of the wrong kind.
In a program without pending references, in which all references are of the right kind and parts are
older than wholes, everything that is asked for is there, and the built-in types are there in every
program.  What remains are the errors of the typing rules.

Main definitions:

* `FrontEnd.Program.Linked` — programs in which every reference leads to a declaration of the right
  kind;
* `FrontEnd.TypeErrors` — answers that fail for reasons of typing only.

Main results:

* `FrontEnd.Program.Complete.typeErrors_types`, `FrontEnd.Program.Complete.typeErrors_statement`,
  `FrontEnd.Program.Complete.typeErrors_check` — expressions, statements and whole programs;
* `FrontEnd.Program.Complete.analyze_error` — why an analysis fails.
-/

import FrontEnd.Proofs.Stages.Kinds
import FrontEnd.Proofs.Typing.Remembering

set_option relaxedAutoImplicit false
set_option autoImplicit false

namespace FrontEnd

/-! ### Reasons of typing -/

/-- Whether the cause is a program that no source text gives rise to. -/
def Cause.isInternal : Cause → Bool
  | .internal _ => true
  | _ => false

/-- The program breaks a rule of typing, or has nothing to start with. -/
def Cause.IsTypeError (c : Cause) : Prop := c.stage = .typing ∧ c.isInternal = false

variable {α β : Type}

/-- If there is no answer, the error is as described. -/
def FailsWith (failure : Error → Prop) (x : Except Error α) : Prop :=
  ∀ e, x = .error e → failure e

namespace FailsWith

variable {failure : Error → Prop}

theorem pure (a : α) : FailsWith failure (Pure.pure a : Except Error α) := by
  rintro e ⟨⟩

theorem of_ok {x : Except Error α} {a : α} (h : x = .ok a) : FailsWith failure x := by
  subst h
  rintro e ⟨⟩

theorem error {e : Error} (h : failure e) : FailsWith failure (.error e : Except Error α) := by
  rintro e' ⟨⟩
  exact h

/-- A sequence of answers, where later ones may rely on earlier ones. -/
theorem bind {x : Except Error α} {f : α → Except Error β} (hx : FailsWith failure x)
    (hf : ∀ a, x = .ok a → FailsWith failure (f a)) : FailsWith failure (x >>= f) := by
  cases x with
  | error e => exact error (hx e rfl)
  | ok a => exact hf a rfl

theorem map {x : Except Error α} {f : α → β} (hx : FailsWith failure x) :
    FailsWith failure (x.map f) := by
  cases x with
  | error e => exact error (hx e rfl)
  | ok a => exact of_ok rfl

theorem discard {x : Except Error α} (hx : FailsWith failure x) :
    FailsWith failure (Functor.discard x) := by
  cases x with
  | error e => exact error (hx e rfl)
  | ok a => exact pure _

theorem demand {c : Prop} [Decidable c] {e : Error} (h : failure e) :
    FailsWith failure (FrontEnd.demand c e) := by
  unfold FrontEnd.demand
  split
  · exact pure ()
  · exact error h

theorem forM {ι : Type} {step : ι → Except Error PUnit} {items : List ι}
    (h : ∀ i ∈ items, FailsWith failure (step i)) : FailsWith failure (items.forM step) := by
  induction items with
  | nil => exact pure PUnit.unit
  | cons i items ih =>
      exact (h i List.mem_cons_self).bind fun _ _ =>
        ih fun j hj => h j (List.mem_cons_of_mem i hj)

theorem forM? {ι : Type} {step : ι → Except Error PUnit} {item? : Option ι}
    (h : ∀ i ∈ item?.toList, FailsWith failure (step i)) : FailsWith failure (item?.forM step) := by
  cases item? with
  | none => exact pure PUnit.unit
  | some i => exact h i List.mem_cons_self

/-- Looking up a built-in type never fails, so the internal error of the lookup is never seen. -/
theorem builtInType (p : Program) (b : BasicType) : FailsWith failure (p.builtInType b) :=
  of_ok (p.builtInType_eq b)

theorem checker (p : Program) : FailsWith failure p.checker := of_ok p.checker_eq

end FailsWith

/-- If there is no answer, it is for reasons of typing. -/
def TypeErrors (x : Except Error α) : Prop := FailsWith (fun e => e.cause.IsTypeError) x

/-- A reference that is not pending leads to a declaration of one of the kinds. -/
theorem Reference.LeadsTo.exists_target {p : Program} {kinds : List DeclKind} {ref : Reference}
    (h : ref.LeadsTo p kinds) (hpending : ref.isPending = false) :
    ∃ id, ref = .resolved id ∧ ∃ kind ∈ kinds, p.kind? id = some kind := by
  cases ref with
  | resolved id => exact ⟨id, rfl, h id rfl⟩
  | pending name scope place => cases hpending

namespace Program

/-! ### Linked programs -/

/-- Every reference of the program is known: the types of variables are types, what statements
change are variables, names in expressions are those of variables and functions, and what functions
take and return are variables. -/
structure Linked (p : Program) : Prop where
  types : ∀ decl v, p.declaration? decl = some (.var v) →
    ∃ type, v.type = .resolved type ∧ p.kind? type = some .type
  targets : ∀ id s ref, p.statement? id = some s → s.target? = some ref →
    ∃ decl, ref = .resolved decl ∧ p.kind? decl = some .var
  values : ∀ id e ref, p.expression? id = some e → e.reference? = some ref →
    ∃ decl, ref = .resolved decl ∧ (p.kind? decl = some .var ∨ p.kind? decl = some .func)
  fields : ∀ decl f, p.declaration? decl = some (.func f) →
    ∀ field ∈ f.parameters ++ f.results, p.kind? field.decl = some .var

variable {p q : Program}

/-- Where no reference is pending, references of the right kind are known. -/
theorem WellKinded.linked (h : p.WellKinded) (hresolved : p.IsResolved) : p.Linked where
  types := by
    intro decl v hv
    obtain ⟨type, htype, kind, hmem, hkind⟩ :=
      Reference.LeadsTo.exists_target (h.declarations decl _ hv) (hresolved.types decl v hv)
    obtain rfl := List.mem_singleton.1 hmem
    exact ⟨type, htype, hkind⟩
  targets := by
    intro id s ref hs href
    obtain ⟨decl, hdecl, kind, hmem, hkind⟩ := ((h.statements id s hs).target ref href).exists_target
      (hresolved.targets id ref (Option.bind_eq_some_iff.2 ⟨s, hs, href⟩))
    obtain rfl := List.mem_singleton.1 hmem
    exact ⟨decl, hdecl, hkind⟩
  values := by
    intro id e ref he href
    obtain ⟨decl, hdecl, kind, hmem, hkind⟩ := (h.expressions id e he ref href).exists_target
      (hresolved.values id ref (Option.bind_eq_some_iff.2 ⟨e, he, href⟩))
    simp only [List.mem_cons, List.not_mem_nil, or_false] at hmem
    rcases hmem with rfl | rfl
    · exact ⟨decl, hdecl, .inl hkind⟩
    · exact ⟨decl, hdecl, .inr hkind⟩
  fields decl f hf := (h.declarations decl _ hf).1

/-- All that typing asks for is there: references are known and of the right kind, parts are older
than wholes, and what is noted is right. -/
structure Complete (p : Program) : Prop where
  kinded : p.WellKinded
  linked : p.Linked
  notes : p.RightlyNoted

variable {id : ExprId} {types : ExprId → Except Error (List DeclId)}

/-! ### Declarations -/

theorem isVariable_of_kind? {decl : DeclId} (h : p.kind? decl = some .var) :
    ∃ v, p.declaration? decl = some (.var v) := by
  obtain ⟨d, hd, hkind⟩ := Option.map_eq_some_iff.1 h
  cases d with
  | var v => exact ⟨v, hd⟩
  | type t => cases hkind
  | func f => cases hkind

theorem isFunction_of_kind? {decl : DeclId} (h : p.kind? decl = some .func) :
    ∃ f, p.declaration? decl = some (.func f) := by
  obtain ⟨d, hd, hkind⟩ := Option.map_eq_some_iff.1 h
  cases d with
  | var v => cases hkind
  | type t => cases hkind
  | func f => exact ⟨f, hd⟩

theorem Linked.variableType (h : p.Linked) {decl : DeclId} (hdecl : p.kind? decl = some .var) :
    ∃ type, p.variableType decl = .ok type := by
  obtain ⟨v, hv⟩ := isVariable_of_kind? hdecl
  obtain ⟨type, htype, -⟩ := h.types decl v hv
  exact ⟨type, variableType_ok_iff.2 ⟨v, hv, htype⟩⟩

theorem Linked.fieldTypes (h : p.Linked) {fields : List Field}
    (hfields : ∀ field ∈ fields, p.kind? field.decl = some .var) :
    ∃ types, p.fieldTypes fields = .ok types := by
  induction fields with
  | nil => exact ⟨[], rfl⟩
  | cons field fields ih =>
      obtain ⟨hfield, hothers⟩ := List.forall_mem_cons.1 hfields
      obtain ⟨type, htype⟩ := h.variableType hfield
      obtain ⟨types, htypes⟩ := ih hothers
      exact ⟨type :: types, fieldTypes_cons_ok_iff.2 ⟨type, types, htype, htypes, rfl⟩⟩

theorem Linked.parameterTypes (h : p.Linked) {decl : DeclId} {f : Function}
    (hf : p.declaration? decl = some (.func f)) : ∃ types, p.parameterTypes f = .ok types :=
  h.fieldTypes fun field hmem => h.fields decl f hf field (List.mem_append_left _ hmem)

theorem Linked.resultTypes (h : p.Linked) {decl : DeclId} {f : Function}
    (hf : p.declaration? decl = some (.func f)) : ∃ types, p.resultTypes f = .ok types :=
  h.fieldTypes fun field hmem => h.fields decl f hf field (List.mem_append_right _ hmem)

/-! ### Expressions -/

theorem HasExpression.exists_expression (h : p.HasExpression id) :
    ∃ e, p.expression? id = some e := ⟨_, Array.getElem?_eq_getElem h⟩

theorem typeErrors_getExpression (h : p.HasExpression id) : TypeErrors (p.getExpression id) := by
  obtain ⟨e, he⟩ := h.exists_expression
  refine .of_ok (a := e) ?_
  rw [getExpression, he]

theorem typeErrors_single (h : p.HasExpression id) (htypes : TypeErrors (types id)) :
    TypeErrors (p.freshSingle types id) := by
  refine (typeErrors_getExpression h).bind fun e _ => htypes.bind fun several _ => ?_
  split
  · exact .pure _
  · exact .error ⟨rfl, rfl⟩

/-- Arguments are refused for reasons of typing only, if their types are. -/
theorem typeErrors_arguments {parameters : List DeclId} {arguments : List ExprId}
    (h : ∀ id ∈ arguments, p.HasExpression id) (htypes : ∀ id ∈ arguments, TypeErrors (types id)) :
    TypeErrors (p.freshArguments types parameters arguments) := by
  induction parameters generalizing arguments with
  | nil => exact .pure ()
  | cons expected parameters ih =>
      cases arguments with
      | nil => exact .pure ()
      | cons argument arguments =>
          obtain ⟨hargument, harguments⟩ := List.forall_mem_cons.1 h
          obtain ⟨htype, hothers⟩ := List.forall_mem_cons.1 htypes
          refine (typeErrors_getExpression hargument).bind fun e _ => ?_
          refine (typeErrors_single hargument htype).bind fun received _ => ?_
          exact (FailsWith.demand ⟨rfl, rfl⟩).bind fun _ _ => ih harguments hothers

/-- What a known name stands for has types. -/
theorem Linked.valueTypes (h : p.Linked) {e : Expression} {name : String} {ref : Reference}
    (he : p.expression? id = some e) (hform : e.form = .identifier name ref) (place : Position) :
    TypeErrors (p.valueTypes ref place) := by
  obtain ⟨decl, rfl, hvar | hfunc⟩ := h.values id e ref he (by simp [Expression.reference?, hform])
  · obtain ⟨v, hv⟩ := isVariable_of_kind? hvar
    obtain ⟨type, htype⟩ := h.variableType hvar
    refine .of_ok (a := [type]) ?_
    simp [Program.valueTypes, Reference.target, hv, htype, Except.map]
  · obtain ⟨f, hf⟩ := isFunction_of_kind? hfunc
    obtain ⟨types, htypes⟩ := h.resultTypes hf
    refine .of_ok (a := types) ?_
    simp [Program.valueTypes, Reference.target, hf, htypes]

theorem typeErrors_operatorType (op : BinaryOperator) (left right : DeclId) (place : Position) :
    TypeErrors (p.operatorType op left right place) := by
  unfold operatorType
  rw [builtInType_eq]
  simp only
  repeat' split
  all_goals first
    | exact .of_ok rfl
    | exact .error ⟨rfl, rfl⟩

theorem typeErrors_negationType (bool operand : DeclId) (place : Position) :
    TypeErrors (p.negationType bool operand place) := by
  unfold negationType
  split
  · exact .of_ok rfl
  · exact .error ⟨rfl, rfl⟩

/-- What is called is a function, or cannot be called. -/
theorem Linked.callee (h : p.Linked) {called : Expression}
    (hcalled : p.expression? id = some called) :
    TypeErrors (p.callee called) ∧
      ∀ f, p.callee called = .ok f → ∃ decl, p.declaration? decl = some (.func f) := by
  unfold Program.callee
  split
  · next name ref hform =>
      obtain ⟨decl, rfl, -⟩ := h.values id called ref hcalled (by
        simp [Expression.reference?, hform])
      simp only [Reference.target]
      split
      · next f hf =>
          refine ⟨.of_ok rfl, ?_⟩
          rintro f' ⟨⟩
          exact ⟨decl, function?_eq_some_iff.1 hf⟩
      · exact ⟨.error ⟨rfl, rfl⟩, fun f hf => by cases hf⟩
  · exact ⟨.error ⟨rfl, rfl⟩, fun f hf => by cases hf⟩

/-- A call is refused for reasons of typing only, if its arguments are. -/
theorem Linked.call (h : p.Linked) {called : ExprId} {arguments : List ExprId} {place : Position}
    (hcalled : p.HasExpression called) (harguments : ∀ id ∈ arguments, p.HasExpression id)
    (htypes : ∀ id ∈ arguments, TypeErrors (types id)) :
    TypeErrors (p.freshCall types called arguments place) := by
  refine (typeErrors_getExpression hcalled).bind fun e he => ?_
  have hexpression : p.expression? called = some e := by
    obtain ⟨e', he'⟩ := hcalled.exists_expression
    rw [getExpression, he'] at he
    cases he
    exact he'
  obtain ⟨hcallee, hfunction⟩ := h.callee hexpression
  refine hcallee.bind fun f hf => ?_
  obtain ⟨decl, hdecl⟩ := hfunction f hf
  obtain ⟨parameters, hparameters⟩ := h.parameterTypes hdecl
  obtain ⟨results, hresults⟩ := h.resultTypes hdecl
  refine (FailsWith.of_ok hparameters).bind fun _ _ => ?_
  refine (FailsWith.demand ⟨rfl, rfl⟩).bind fun _ _ => ?_
  exact (typeErrors_arguments harguments htypes).bind fun _ _ => .of_ok hresults

/-- The types of an expression whose parts have types or errors of typing. -/
theorem Linked.form (h : p.Linked) {e : Expression} (he : p.expression? id = some e)
    (hparts : ∀ part ∈ e.form.parts, p.HasExpression part)
    (htypes : ∀ part ∈ e.form.parts, TypeErrors (types part)) (place : Position) :
    TypeErrors (p.freshForm types e.form place) := by
  cases hform : e.form with
  | integer _ | character _ | string _ | bool _ =>
      exact (FailsWith.builtInType p _).bind fun _ _ => .pure _
  | identifier name ref => exact h.valueTypes he hform place
  | not operand =>
      rw [hform] at hparts htypes
      have hoperand := typeErrors_single (hparts operand List.mem_cons_self)
        (htypes operand List.mem_cons_self)
      refine (FailsWith.builtInType p .bool).bind fun bool _ => hoperand.bind fun type _ => ?_
      exact (typeErrors_negationType bool type place).bind fun _ _ => .pure _
  | binary op left right =>
      rw [hform] at hparts htypes
      have hright : right ∈ (ExprForm.binary op left right).parts :=
        List.mem_cons_of_mem left List.mem_cons_self
      refine (typeErrors_single (hparts left List.mem_cons_self)
        (htypes left List.mem_cons_self)).bind fun leftType _ => ?_
      refine (typeErrors_single (hparts right hright) (htypes right hright)).bind
        fun rightType _ => ?_
      exact (typeErrors_operatorType op leftType rightType place).bind fun _ _ => .pure _
  | call called arguments =>
      rw [hform] at hparts htypes
      exact h.call (hparts called List.mem_cons_self)
        (fun id hid => hparts id (List.mem_cons_of_mem called hid))
        fun id hid => htypes id (List.mem_cons_of_mem called hid)

namespace Complete

/-- **An expression that has no types breaks a rule of typing.** -/
theorem typeErrors_types (h : p.Complete) (hid : p.HasExpression id) :
    TypeErrors (p.freshTypes id) := by
  -- parts have smaller numbers
  induction hn : id.index using Nat.strongRecOn generalizing id with
  | ind n ih =>
      obtain ⟨e, he⟩ := hid.exists_expression
      have holder := h.notes.older.expressions id e.form (form?_eq he)
      have hparts : ∀ part ∈ e.form.parts, p.HasExpression part := fun part hpart =>
        Nat.lt_trans (holder part hpart) hid
      rw [freshTypes_eq h.notes.older he]
      exact h.linked.form he hparts (fun part hpart =>
        ih part.index (hn ▸ holder part hpart) (hparts part hpart) rfl) e.position

theorem typeErrors_type (h : p.Complete) (hid : p.HasExpression id) :
    TypeErrors (p.freshType id) := typeErrors_single hid (h.typeErrors_types hid)

/-! ### Statements -/

variable (c : Checker)

theorem typeErrors_condition (h : p.Complete) (hid : p.HasExpression id) :
    TypeErrors (p.freshCondition c id) :=
  (typeErrors_getExpression hid).bind fun _ _ => (h.typeErrors_type hid).bind fun _ _ =>
    .demand ⟨rfl, rfl⟩

theorem typeErrors_integerValue (h : p.Complete) (hid : p.HasExpression id) :
    TypeErrors (p.freshIntegerValue c id) :=
  (typeErrors_getExpression hid).bind fun _ _ => (h.typeErrors_type hid).bind fun _ _ =>
    .demand ⟨rfl, rfl⟩

theorem targetType (h : p.Complete) {outer : StmtId} {s : Statement} {target : Reference}
    (hs : p.statement? outer = some s) (htarget : s.target? = some target) :
    ∃ type, p.targetType target = .ok type := by
  obtain ⟨decl, rfl, hdecl⟩ := h.linked.targets outer s target hs htarget
  exact h.linked.variableType hdecl

theorem typeErrors_integerTarget {target : Reference} {type : DeclId}
    (h : p.targetType target = .ok type) (operation : String) (place : Position) :
    TypeErrors (p.freshIntegerTarget c target operation place) :=
  (FailsWith.of_ok h).bind fun _ _ => .demand ⟨rfl, rfl⟩

/-- A change is refused for reasons of typing only. -/
theorem typeErrors_change (h : p.Complete) {target : Reference} {type : DeclId}
    (htarget : p.targetType target = .ok type) {change : Change}
    (hids : ∀ id ∈ change.expressions, p.HasExpression id) (place : Position) :
    TypeErrors (p.freshChange c target change place) := by
  cases change with
  | assign value =>
      have hvalue := hids value List.mem_cons_self
      exact (FailsWith.of_ok htarget).bind fun _ _ => (h.typeErrors_type hvalue).bind fun _ _ =>
        .demand ⟨rfl, rfl⟩
  | add value | subtract value =>
      have hvalue := hids value List.mem_cons_self
      exact (typeErrors_integerTarget c htarget _ _).bind fun _ _ =>
        h.typeErrors_integerValue c hvalue
  | increment | decrement => exact typeErrors_integerTarget c htarget _ _

/-- Returned values are refused for reasons of typing only. -/
theorem typeErrors_results (h : p.Complete) {results : List DeclId} {values : List ExprId}
    (hvalues : ∀ id ∈ values, p.HasExpression id) : TypeErrors (p.freshResults results values) := by
  induction results generalizing values with
  | nil => exact .pure ()
  | cons expected results ih =>
      cases values with
      | nil => exact .pure ()
      | cons value values =>
          obtain ⟨hvalue, hothers⟩ := List.forall_mem_cons.1 hvalues
          refine (typeErrors_getExpression hvalue).bind fun e _ => ?_
          refine (h.typeErrors_type hvalue).bind fun received _ => ?_
          exact (FailsWith.demand ⟨rfl, rfl⟩).bind fun _ _ => ih hothers

/-- A statement whose parts are well typed or break rules of typing. -/
theorem typeErrors_form (h : p.Complete) {outer : StmtId} {s : Statement}
    (hs : p.statement? outer = some s) {results : List DeclId} {part : StmtId → Except Error Unit}
    (hparts : ∀ id ∈ s.form.parts, TypeErrors (part id)) :
    TypeErrors (p.freshStatementForm c results part s) := by
  have hkinded := h.kinded.statements outer s hs
  have hids := hkinded.expressions
  unfold freshStatementForm
  cases hform : s.form with
  | declare decl =>
      obtain ⟨type, htype⟩ := h.linked.variableType (hkinded.declared decl hform)
      exact (FailsWith.of_ok htype).discard
  | change target change =>
      have htarget : s.target? = some target := by simp [Statement.target?, hform]
      obtain ⟨type, htype⟩ := h.targetType hs htarget
      rw [hform] at hids
      exact h.typeErrors_change c htype hids s.position
  | call called =>
      rw [hform] at hids
      exact (h.typeErrors_types (hids called List.mem_cons_self)).discard
  | branch condition thenBlock elseBlock? =>
      rw [hform] at hids hparts
      refine (h.typeErrors_condition c (hids condition List.mem_cons_self)).bind fun _ _ => ?_
      have hthen : ∀ id ∈ thenBlock.statements, TypeErrors (part id) := fun id hid =>
        hparts id (List.mem_append_left _ hid)
      refine (FailsWith.forM hthen).bind fun _ _ => ?_
      cases elseBlock? with
      | none => exact .pure ()
      | some elseBlock => exact .forM fun id hid => hparts id (List.mem_append_right _ hid)
  | whileLoop condition body =>
      rw [hform] at hids hparts
      exact (h.typeErrors_condition c (hids condition List.mem_cons_self)).bind fun _ _ =>
        .forM hparts
  | forLoop init? condition action? body =>
      rw [hform] at hids hparts
      simp only [StmtForm.parts, List.forall_mem_append] at hparts
      obtain ⟨hinit, haction, hbody⟩ := hparts
      refine (FailsWith.forM? hinit).bind fun _ _ => ?_
      refine (h.typeErrors_condition c (hids condition List.mem_cons_self)).bind fun _ _ => ?_
      exact (FailsWith.forM? haction).bind fun _ _ => .forM hbody
  | result values =>
      rw [hform] at hids
      exact (FailsWith.demand ⟨rfl, rfl⟩).bind fun _ _ =>
        h.typeErrors_results hids

/-- Statements are refused for reasons of typing only, since their parts are older than they are. -/
theorem typeErrors_statementUpTo (h : p.Complete) (results : List DeclId) {n : Nat} {id : StmtId}
    (hn : id.index < n) (hid : p.HasStatement id) :
    TypeErrors (p.freshStatementUpTo c results n id) := by
  induction n generalizing id with
  | zero => omega
  | succ n ih =>
      have hs : p.statement? id = some p.statements[id.index] := Array.getElem?_eq_getElem hid
      rw [freshStatementUpTo, getStatement, hs]
      refine h.typeErrors_form c hs fun part hpart => ?_
      have hlt := h.notes.older.statements id _ hs part hpart
      exact ih (by omega) (Nat.lt_trans hlt hid)

/-- **A statement that is refused breaks a rule of typing.** -/
theorem typeErrors_statement (h : p.Complete) (results : List DeclId) {id : StmtId}
    (hid : p.HasStatement id) : TypeErrors (p.freshStatement c results id) :=
  h.typeErrors_statementUpTo c results hid hid

/-! ### Programs -/

theorem typeErrors_body (h : p.Complete) {decl : DeclId} {f : Function}
    (hf : p.declaration? decl = some (.func f)) : TypeErrors (p.freshBody c f) := by
  obtain ⟨results, hresults⟩ := h.linked.resultTypes hf
  have hbody := (h.kinded.declarations decl _ hf).2
  exact (FailsWith.of_ok hresults).bind fun types _ =>
    (FailsWith.forM fun id hid => h.typeErrors_statement c types (hbody id hid)).bind fun _ _ =>
      .demand ⟨rfl, rfl⟩

omit c in
/-- **A program that is refused breaks a rule of typing.** -/
theorem typeErrors_check (h : p.Complete) : TypeErrors p.freshCheck := by
  refine (FailsWith.checker p).bind fun c _ => .forM fun decl _ => ?_
  unfold freshDeclaration
  split
  · next f hf => exact h.typeErrors_body c (function?_eq_some_iff.1 hf)
  · exact .pure ()

/-- An analysis fails like the check without notes, or because there is nothing to start with. -/
theorem analyze_error_cases (h : p.Complete) {e : Error} (herror : analyze p = .error e q) :
    p.freshCheck = .error e ∨ e = Cause.missingMain.nowhere := by
  obtain ⟨p', -, hrun⟩ := gives_check h.notes.older p h.notes.noted
  rcases Run.bind_error_iff.1 herror with hcheck | ⟨u, p₁, -, hmain⟩
  · rw [hrun] at hcheck
    cases hanswer : p.freshCheck with
    | ok u =>
        rw [hanswer] at hcheck
        cases hcheck
    | error e' =>
        rw [hanswer] at hcheck
        cases hcheck
        exact .inl rfl
  · obtain ⟨hmissing, rfl⟩ := Run.ask_error_iff.1 hmain
    unfold findMain at hmissing
    split at hmissing
    · cases hmissing
    · cases hmissing
      exact .inr rfl

/-- **An analysis fails for reasons of typing**, with whatever right notes. -/
theorem analyze_error (h : p.Complete) {e : Error} (herror : analyze p = .error e q) :
    e.cause.IsTypeError := by
  rcases h.analyze_error_cases herror with hcheck | rfl
  · exact h.typeErrors_check e hcheck
  · exact ⟨rfl, rfl⟩

end Complete

end Program

end FrontEnd
