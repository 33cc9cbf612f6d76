/-
**Checks that point to nodes.**

A rule of typing that is broken is reported at a node of the program: at the expression that has the
wrong type or is called, at the statement around it, or at the function that does not return.  Here
this is shown of the checks without notes, which go wrong in the same way.  Internal errors are left
aside: in a program that was read and resolved there are none.

Main definition:

* `FrontEnd.Program.Blames` — errors that are internal or reported at a node.

Main results:

* `FrontEnd.Program.blames_types`, `FrontEnd.Program.blames_statement`,
  `FrontEnd.Program.blames_check` — expressions, statements and whole programs;
* `FrontEnd.Program.Complete.position_of_analyze_error` — where an analysis fails.
-/

import FrontEnd.Proofs.Pointing.HeldPlaces
import FrontEnd.Proofs.Stages.TypeErrors

set_option relaxedAutoImplicit false
set_option autoImplicit false

namespace FrontEnd.Program

variable {α : Type} {p q : Program} {e : Error} {place : Position}

/-- The error is internal, or reported at a place that a node of the program holds. -/
def Blames (p : Program) (e : Error) : Prop :=
  e.cause.isInternal = true ∨ ∃ place, e.position? = some place ∧ p.HasPlace place

theorem blames_at (h : p.HasPlace place) (cause : Cause) : p.Blames (cause.at place) :=
  .inr ⟨place, rfl, h⟩

theorem hasPlace_of_getExpression {id : ExprId} {e : Expression} (h : p.getExpression id = .ok e) :
    p.HasPlace e.position := .expression (getExpression_ok_iff.1 h) List.mem_cons_self

/-! ### Declarations -/

theorem blames_getExpression (id : ExprId) : FailsWith p.Blames (p.getExpression id) := by
  unfold getExpression
  split
  · exact .of_ok rfl
  · exact .error (.inl rfl)

theorem blames_target (ref : Reference) : FailsWith p.Blames ref.target := by
  cases ref with
  | resolved id => exact .of_ok rfl
  | pending name scope place => exact .error (.inl rfl)

theorem blames_variableType (decl : DeclId) : FailsWith p.Blames (p.variableType decl) := by
  unfold variableType
  split
  · exact blames_target _
  · exact .error (.inl rfl)
  · exact .error (.inl rfl)

theorem blames_fieldTypes (fields : List Field) : FailsWith p.Blames (p.fieldTypes fields) := by
  induction fields with
  | nil => exact .of_ok rfl
  | cons field fields ih =>
      rw [fieldTypes]
      split
      · next htype => exact .error (blames_variableType _ _ htype)
      · split
        · next htypes => exact .error (ih _ htypes)
        · exact .of_ok rfl

theorem blames_valueTypes (ref : Reference) (place : Position) :
    FailsWith p.Blames (p.valueTypes ref place) := by
  unfold valueTypes
  split
  · next htarget => exact .error (blames_target ref _ htarget)
  · split
    · exact (blames_variableType _).map
    · exact blames_fieldTypes _
    · exact .error (.inl rfl)
    · exact .error (.inl rfl)

theorem blames_targetType (target : Reference) : FailsWith p.Blames (p.targetType target) := by
  unfold targetType
  split
  · next htarget => exact .error (blames_target target _ htarget)
  · exact blames_variableType _

/-! ### Expressions -/

/-- An operator is refused at its own place. -/
theorem blames_operatorType (h : p.HasPlace place) (op : BinaryOperator) (left right : DeclId) :
    FailsWith p.Blames (p.operatorType op left right place) := by
  unfold operatorType
  rw [builtInType_eq]
  simp only
  repeat' split
  all_goals first
    | exact .of_ok rfl
    | exact .error (blames_at h _)

theorem blames_negationType (h : p.HasPlace place) (bool operand : DeclId) :
    FailsWith p.Blames (p.negationType bool operand place) := by
  unfold negationType
  split
  · exact .of_ok rfl
  · exact .error (blames_at h _)

/-- What is called in vain is reported where it is. -/
theorem blames_callee {called : Expression} (h : p.HasPlace called.position) :
    FailsWith p.Blames (p.callee called) := by
  unfold callee
  split
  · next ref _ =>
      split
      · next htarget => exact .error (blames_target ref _ htarget)
      · split
        · exact .of_ok rfl
        · exact .error (blames_at h _)
  · exact .error (blames_at h _)

section Parts

variable {types : ExprId → Except Error (List DeclId)}
  (htypes : ∀ id, FailsWith p.Blames (types id))

include htypes

theorem blames_single (id : ExprId) : FailsWith p.Blames (p.freshSingle types id) := by
  refine (blames_getExpression id).bind fun e he => (htypes id).bind fun several _ => ?_
  split
  · exact .pure _
  · exact .error (blames_at (hasPlace_of_getExpression he) _)

/-- An argument is refused at its own place, which a node holds. -/
theorem blames_arguments (parameters : List DeclId) (arguments : List ExprId) :
    FailsWith p.Blames (p.freshArguments types parameters arguments) := by
  induction parameters generalizing arguments with
  | nil => exact .pure ()
  | cons expected parameters ih =>
      cases arguments with
      | nil => exact .pure ()
      | cons id arguments =>
          refine (blames_getExpression id).bind fun argument hargument => ?_
          refine (blames_single htypes id).bind fun received _ => ?_
          have hplace := hasPlace_of_getExpression hargument
          exact (FailsWith.demand (blames_at hplace _)).bind fun _ _ => ih arguments

theorem blames_call (h : p.HasPlace place) (called : ExprId) (arguments : List ExprId) :
    FailsWith p.Blames (p.freshCall types called arguments place) := by
  refine (blames_getExpression called).bind fun e hcalled => ?_
  refine (blames_callee (hasPlace_of_getExpression hcalled)).bind fun f _ => ?_
  refine (blames_fieldTypes _).bind fun parameters _ => ?_
  refine (FailsWith.demand (blames_at h _)).bind fun _ _ => ?_
  exact (blames_arguments htypes parameters arguments).bind fun _ _ => blames_fieldTypes _

/-- The types of an expression whose parts are reported at nodes. -/
theorem blames_form (h : p.HasPlace place) (form : ExprForm) :
    FailsWith p.Blames (p.freshForm types form place) := by
  cases form with
  | integer _ | character _ | string _ | bool _ =>
      exact (FailsWith.builtInType p _).bind fun _ _ => .pure _
  | identifier name ref => exact blames_valueTypes ref place
  | not operand =>
      refine (FailsWith.builtInType p .bool).bind fun bool _ => ?_
      refine (blames_single htypes operand).bind fun type _ => ?_
      exact (blames_negationType h bool type).bind fun _ _ => .pure _
  | binary op left right =>
      refine (blames_single htypes left).bind fun leftType _ => ?_
      refine (blames_single htypes right).bind fun rightType _ => ?_
      exact (blames_operatorType h op leftType rightType).bind fun _ _ => .pure _
  | call called arguments => exact blames_call htypes h called arguments

end Parts

theorem blames_typesUpTo (n : Nat) (id : ExprId) :
    FailsWith p.Blames (p.freshTypesUpTo n id) := by
  induction n generalizing id with
  | zero => exact .error (.inl rfl)
  | succ n ih =>
      exact (blames_getExpression id).bind fun e he =>
        blames_form ih (hasPlace_of_getExpression he) e.form

/-- **An expression that has no types is reported at one of the nodes.** -/
theorem blames_types (id : ExprId) : FailsWith p.Blames (p.freshTypes id) := blames_typesUpTo _ id

theorem blames_type (id : ExprId) : FailsWith p.Blames (p.freshType id) :=
  blames_single blames_types id

/-! ### Statements -/

section Checks

variable (c : Checker)

theorem blames_condition (id : ExprId) : FailsWith p.Blames (p.freshCondition c id) :=
  (blames_getExpression id).bind fun _ he => (blames_type id).bind fun _ _ =>
    .demand (blames_at (hasPlace_of_getExpression he) _)

theorem blames_integerValue (id : ExprId) : FailsWith p.Blames (p.freshIntegerValue c id) :=
  (blames_getExpression id).bind fun _ he => (blames_type id).bind fun _ _ =>
    .demand (blames_at (hasPlace_of_getExpression he) _)

theorem blames_integerTarget (h : p.HasPlace place) (target : Reference) (operation : String) :
    FailsWith p.Blames (p.freshIntegerTarget c target operation place) :=
  (blames_targetType target).bind fun _ _ => .demand (blames_at h _)

/-- A change is refused at the place of the statement or at that of the value. -/
theorem blames_change (h : p.HasPlace place) (target : Reference) (change : Change) :
    FailsWith p.Blames (p.freshChange c target change place) := by
  cases change with
  | assign value =>
      exact (blames_targetType target).bind fun _ _ => (blames_type value).bind fun _ _ =>
        .demand (blames_at h _)
  | add value | subtract value =>
      exact (blames_integerTarget c h target _).bind fun _ _ => blames_integerValue c value
  | increment | decrement => exact blames_integerTarget c h target _

/-- A returned value is refused at its own place, which a node holds. -/
theorem blames_results (results : List DeclId) (values : List ExprId) :
    FailsWith p.Blames (p.freshResults results values) := by
  induction results generalizing values with
  | nil => exact .pure ()
  | cons expected results ih =>
      cases values with
      | nil => exact .pure ()
      | cons id values =>
          refine (blames_getExpression id).bind fun value hvalue => ?_
          refine (blames_type id).bind fun received _ => ?_
          have hplace := hasPlace_of_getExpression hvalue
          exact (FailsWith.demand (blames_at hplace _)).bind fun _ _ => ih values

/-- A statement whose parts are reported at nodes. -/
theorem blames_statementForm {s : Statement} (h : p.HasPlace s.position) (results : List DeclId)
    {part : StmtId → Except Error Unit} (hpart : ∀ id, FailsWith p.Blames (part id)) :
    FailsWith p.Blames (p.freshStatementForm c results part s) := by
  unfold freshStatementForm
  have hparts : ∀ ids : List StmtId, FailsWith p.Blames (ids.forM part) := fun _ =>
    .forM fun id _ => hpart id
  split
  · exact (blames_variableType _).discard
  · exact blames_change c h _ _
  · exact (blames_types _).discard
  · refine (blames_condition c _).bind fun _ _ => (hparts _).bind fun _ _ => ?_
    split
    · exact hparts _
    · exact .pure ()
  · exact (blames_condition c _).bind fun _ _ => hparts _
  · refine (FailsWith.forM? fun id _ => hpart id).bind fun _ _ => ?_
    refine (blames_condition c _).bind fun _ _ => ?_
    exact (FailsWith.forM? fun id _ => hpart id).bind fun _ _ => hparts _
  · exact (FailsWith.demand (blames_at h _)).bind fun _ _ => blames_results results _

/-- A statement is refused at a place that a node holds, by induction on its depth. -/
theorem blames_statementUpTo (results : List DeclId) (n : Nat) (id : StmtId) :
    FailsWith p.Blames (p.freshStatementUpTo c results n id) := by
  induction n generalizing id with
  | zero => exact .error (.inl rfl)
  | succ n ih =>
      rw [freshStatementUpTo, getStatement]
      split
      · next s hs => exact blames_statementForm c (.statement hs List.mem_cons_self) results ih
      · exact .error (.inl rfl)

/-- **A statement that is refused is reported at one of the nodes.** -/
theorem blames_statement (results : List DeclId) (id : StmtId) :
    FailsWith p.Blames (p.freshStatement c results id) := blames_statementUpTo c results _ id

/-! ### Programs -/

theorem blames_body {decl : DeclId} {f : Function}
    (hf : p.declaration? decl = some (.func f)) : FailsWith p.Blames (p.freshBody c f) := by
  have hplace : p.HasPlace f.position := .declaration hf List.mem_cons_self
  exact (blames_fieldTypes _).bind fun results _ =>
    (FailsWith.forM fun id _ => blames_statement c results id).bind fun _ _ =>
      .demand (blames_at hplace _)

end Checks

/-- **A program that is refused is refused at one of its nodes.** -/
theorem blames_check : FailsWith p.Blames p.freshCheck := by
  refine (FailsWith.checker p).bind fun c _ => .forM fun decl _ => ?_
  unfold freshDeclaration
  split
  · next f hf => exact blames_body c (function?_eq_some_iff.1 hf)
  · exact .pure ()

/-- **An analysis fails at a node**, unless there is nothing to start with. -/
theorem Complete.position_of_analyze_error (h : p.Complete) (herror : analyze p = .error e q) :
    e = Cause.missingMain.nowhere ∨ ∃ place, e.position? = some place ∧ p.HasPlace place := by
  have hexternal := (h.analyze_error herror).2
  rcases h.analyze_error_cases herror with hcheck | hmain
  · rcases blames_check e hcheck with hinternal | hplace
    · rw [hexternal] at hinternal
      cases hinternal
    · exact .inr hplace
  · exact .inl hmain

end FrontEnd.Program
