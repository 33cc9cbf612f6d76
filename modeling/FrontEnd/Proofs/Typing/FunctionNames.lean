/-
**Names of functions.**

The name of a function has the types of the function's results, as a call has.  So where one value
is asked for, the name of a function with exactly one result passes for that result although nothing
is called; where values of no or of several types are at stake, a function can only be called.  No
name stands alone.

Main definitions:

* `FrontEnd.ExprForm.operands`, `FrontEnd.StmtForm.values` — the expressions in an expression or a
  statement of which one value is asked;
* `FrontEnd.Program.TakenAsValue` — expressions at such places.

Main results:

* `FrontEnd.Program.WellTyped.takenAsValue` — in a well-typed program these have one type;
* `FrontEnd.Program.HasTypes.functionName` — the name of a function has the types of its results;
* `FrontEnd.compile_functionName` — **the places of function names** in a compiled program.
-/

import FrontEnd.Proofs.Layout.CallStatements
import FrontEnd.Proofs.Typing.Accepted

set_option relaxedAutoImplicit false
set_option autoImplicit false

namespace FrontEnd

open Run Syntax

/-! ### Places of values -/

/-- The operands of an expression and the arguments of a call: all parts but what is called. -/
def ExprForm.operands : ExprForm → List ExprId
  | .binary _ left right => [left, right]
  | .not operand => [operand]
  | .call _ arguments => arguments
  | .integer _ | .character _ | .string _ | .bool _ | .identifier _ _ => []

/-- The expressions of a statement that stand for one value each: what is assigned, added or
subtracted, conditions and results. -/
def StmtForm.values : StmtForm → List ExprId
  | .change _ c => c.expressions
  | .branch condition _ _ | .whileLoop condition _ | .forLoop _ condition _ _ => [condition]
  | .result values => values
  | .declare _ | .call _ => []

namespace Program

variable {p q : Program} {fs : List Func} {id whole : ExprId} {types : List DeclId}

/-- The expression stands where one value is asked for: as an operand or an argument, as a value
that is assigned or returned, or as a condition. -/
inductive TakenAsValue (p : Program) (id : ExprId) : Prop where
  | operand (whole : ExprId) (form : ExprForm) (hwhole : p.form? whole = some form)
      (hid : id ∈ form.operands)
  | value (outer : StmtId) (s : Statement) (houter : p.statement? outer = some s)
      (hid : id ∈ s.form.values)

theorem Noted.takenAsValue_iff (h : Noted p q) : q.TakenAsValue id ↔ p.TakenAsValue id := by
  constructor
  · rintro (⟨whole, form, hwhole, hid⟩ | ⟨outer, s, houter, hid⟩)
    · exact .operand whole form (by rw [← h.form, hwhole]) hid
    · exact .value outer s (by rw [← h.statement?, houter]) hid
  · rintro (⟨whole, form, hwhole, hid⟩ | ⟨outer, s, houter, hid⟩)
    · exact .operand whole form (by rw [h.form, hwhole]) hid
    · exact .value outer s (by rw [h.statement?, houter]) hid

/-- **The places of expressions**: an expression is called, stands alone, or is taken as a value. -/
theorem Realizes.place (h : p.Realizes fs) {form : ExprForm} (hform : p.form? id = some form) :
    p.IsCallee id ∨ p.StandsAlone id ∨ p.TakenAsValue id := by
  rcases h.isForest.expression_place hform with
    ⟨whole, wform, hwhole, hpart⟩ | ⟨outer, s, hs, hpart⟩
  · cases wform with
    | integer _ | character _ | string _ | bool _ | identifier _ _ => cases hpart
    | not operand => exact .inr (.inr (.operand whole _ hwhole hpart))
    | binary op left right => exact .inr (.inr (.operand whole _ hwhole hpart))
    | call callee arguments =>
        rcases List.mem_cons.1 hpart with rfl | hpart
        · exact .inl ⟨whole, arguments, hwhole⟩
        · exact .inr (.inr (.operand whole _ hwhole hpart))
  · obtain ⟨sform, place⟩ := s
    cases sform with
    | declare decl => cases hpart
    | call called =>
        obtain rfl := List.mem_singleton.1 hpart
        exact .inr (.inl ⟨outer, _, hs, rfl⟩)
    | change _ _ | branch _ _ _ | whileLoop _ _ | forLoop _ _ _ _ | result _ =>
        exact .inr (.inr (.value outer _ hs hpart))

/-! ### One type -/

/-- An operand and an argument have one type. -/
theorem HasTypes.operand (h : p.HasTypes whole types) {form : ExprForm}
    (hform : p.form? whole = some form) (hid : id ∈ form.operands) :
    ∃ type, p.HasTypes id [type] := by
  cases form with
  | integer _ | character _ | string _ | bool _ | identifier _ _ => cases hid
  | not operand =>
      obtain rfl := List.mem_singleton.1 hid
      exact ⟨_, ((hasTypes_not_iff hform).1 h).1⟩
  | binary op left right =>
      obtain ⟨leftType, rightType, _, hleft, hright, -⟩ := (hasTypes_binary_iff hform).1 h
      rcases List.mem_cons.1 hid with rfl | hid
      · exact ⟨leftType, hleft⟩
      · obtain rfl := List.mem_singleton.1 hid
        exact ⟨rightType, hright⟩
  | call callee arguments =>
      obtain ⟨f, parameters, -, -, hcount, harguments, -⟩ := (hasTypes_call_iff hform).1 h
      obtain ⟨type, hzip⟩ := mem_zip_of_length_eq hcount hid
      exact ⟨type, harguments id type hzip⟩

/-- The values in a statement have one type. -/
theorem FormTyped.value {results : List DeclId} {form : StmtForm} (h : p.FormTyped results form)
    (hid : id ∈ form.values) : ∃ type, p.HasTypes id [type] := by
  cases form with
  | declare _ | call _ => cases hid
  | change target change =>
      cases change with
      | assign value =>
          obtain rfl := List.mem_singleton.1 hid
          obtain ⟨type, -, hvalue⟩ := h
          exact ⟨type, hvalue⟩
      | add value | subtract value =>
          obtain rfl := List.mem_singleton.1 hid
          exact ⟨_, h.2⟩
      | increment | decrement => cases hid
  | branch condition _ _ | whileLoop condition _ | forLoop _ condition _ _ =>
      obtain rfl := List.mem_singleton.1 hid
      exact ⟨_, h⟩
  | result values =>
      obtain ⟨type, hzip⟩ := mem_zip_of_length_eq h.1.symm hid
      exact ⟨type, h.2 id type hzip⟩

/-- The name of a function has the types of the results. -/
theorem HasTypes.functionName (h : p.HasTypes id types) {name : String} {decl : DeclId}
    {f : Function} (hform : p.form? id = some (.identifier name (.resolved decl)))
    (hf : p.function? decl = some f) : p.resultTypes f = .ok types := by
  obtain ⟨decl', hdecl, ⟨_, hvariable, -⟩ | ⟨f', hf', hresults⟩⟩ :=
    (hasTypes_identifier_iff hform).1 h
  · cases hdecl
    rw [function?_of_variableType hvariable] at hf
    cases hf
  · cases hdecl
    rw [hf] at hf'
    cases hf'
    exact hresults

/-- **What is taken as a value has one type.** -/
theorem WellTyped.takenAsValue (h : p.Realizes fs) (htyped : p.WellTyped)
    (hvalue : p.TakenAsValue id) : ∃ type, p.HasTypes id [type] := by
  rcases hvalue with ⟨whole, form, hwhole, hid⟩ | ⟨outer, s, houter, hid⟩
  · obtain ⟨types, htypes, -⟩ := htyped.typed h hwhole
    exact htypes.operand hwhole hid
  · obtain ⟨results, hform⟩ := htyped.formTyped h houter
    exact hform.value hid

end Program

/-! ### Compiled programs -/

variable {source : String} {c : CheckedProgram}

/-- **Where the name of a function stands.**  In a compiled program an identifier that refers to a
function is called, or is taken as a value; it never stands alone.  Taken as a value it stands for
the result, of which there is exactly one: its type is the type of that result. -/
theorem compile_functionName (h : compile source = .ok c) {id : ExprId} {name : String}
    {decl : DeclId} {f : Function}
    (hform : c.program.form? id = some (.identifier name (.resolved decl)))
    (hf : c.program.function? decl = some f) :
    (c.program.IsCallee id ∨ c.program.TakenAsValue id) ∧ ¬ c.program.StandsAlone id ∧
      (c.program.TakenAsValue id → ∃ type, c.program.resultTypes f = .ok [type] ∧
        ∃ q, Program.typesOf id c.program = .ok [type] q) := by
  obtain ⟨tokens, p, -, hparse, hanalyze⟩ := compile_ok h
  obtain ⟨fs, hspelled, -, -, hrealizes⟩ := realizes_of_parse hparse
  obtain ⟨⟨htyped, -⟩, hnoted, -⟩ := hrealizes.analyze_meets.of_ok hanalyze
  rw [hnoted.form] at hform
  rw [hnoted.function?] at hf
  rw [hnoted.isCallee_iff, hnoted.takenAsValue_iff, hnoted.standsAlone_iff]
  have hstands : ¬ p.StandsAlone id := by
    rintro ⟨outer, ⟨sform, place⟩, hs, rfl⟩
    obtain ⟨callee, arguments, hcall⟩ := hrealizes.isCall_of_statement hspelled.formed hs
    rw [hform] at hcall
    cases hcall
  refine ⟨?_, hstands, fun hvalue => ?_⟩
  · rcases hrealizes.place hform with hcallee | halone | hvalue
    · exact .inl hcallee
    · exact absurd halone hstands
    · exact .inr hvalue
  · obtain ⟨type, htype⟩ := htyped.takenAsValue hrealizes hvalue
    have hmeets := Program.typesOf_meets hrealizes.partsOlder hnoted id
    obtain ⟨types, q, hrun⟩ := hmeets.exists_ok ⟨[type], htype⟩
    obtain rfl := htype.unique (hmeets.of_ok hrun).2.1
    refine ⟨type, ?_, q, hrun⟩
    rw [Program.resultTypes, hnoted.fieldTypes]
    exact htype.functionName hform hf

/-- A program that assigns a function to a variable. -/
def functionAssigned : String :=
  "func f() Int \x7b return 1; \x7d func main() \x7b var a Int; a = f; \x7d"

/-- The nodes of the program that assigns a function. -/
theorem compile_functionAssigned : ∃ c f, compile functionAssigned = .ok c ∧
    c.program.expressions.toList.map Expression.form =
      [.integer 1, .identifier "f" (.resolved ⟨5⟩)] ∧
    c.program.function? ⟨5⟩ = some f ∧
    c.program.statement? ⟨2⟩ = some ⟨.change (.resolved ⟨7⟩) (.assign ⟨1⟩), ⟨0, 52⟩⟩ := by
  have hread : ((compile functionAssigned).toOption.any fun c =>
      decide (c.program.expressions.toList.map Expression.form =
        [.integer 1, .identifier "f" (.resolved ⟨5⟩)]) && (c.program.function? ⟨5⟩).isSome &&
      decide (c.program.statement? ⟨2⟩ =
        some ⟨.change (.resolved ⟨7⟩) (.assign ⟨1⟩), ⟨0, 52⟩⟩)) = true := by
    decide +kernel
  obtain ⟨c, hc, hread⟩ := exists_of_any hread
  simp only [Bool.and_eq_true, decide_eq_true_eq] at hread
  obtain ⟨⟨hforms, hfunction⟩, hstatement⟩ := hread
  obtain ⟨f, hf⟩ := Option.isSome_iff_exists.1 hfunction
  exact ⟨c, f, hc, hforms, hf, hstatement⟩

theorem Program.form?_eq_getElem? (p : Program) (id : ExprId) :
    p.form? id = (p.expressions.toList.map Expression.form)[id.index]? := by
  rw [List.getElem?_map, Array.getElem?_toList]
  rfl

/-- The function that is assigned passes for its result. -/
theorem compile_functionName_assigned : ∃ c f, compile functionAssigned = .ok c ∧
    c.program.form? ⟨1⟩ = some (.identifier "f" (.resolved ⟨5⟩)) ∧
    c.program.function? ⟨5⟩ = some f ∧
    (c.program.IsCallee ⟨1⟩ ∨ c.program.TakenAsValue ⟨1⟩) ∧ ¬ c.program.StandsAlone ⟨1⟩ ∧
      (c.program.TakenAsValue ⟨1⟩ → ∃ type, c.program.resultTypes f = .ok [type] ∧
        ∃ q, Program.typesOf ⟨1⟩ c.program = .ok [type] q) := by
  obtain ⟨c, f, hc, hforms, hf, -⟩ := compile_functionAssigned
  have hform : c.program.form? ⟨1⟩ = some (.identifier "f" (.resolved ⟨5⟩)) := by
    rw [Program.form?_eq_getElem?, hforms]
    rfl
  exact ⟨c, f, hc, hform, hf, compile_functionName hc hform hf⟩

/-- So functions are not only called: here one is assigned, and nothing calls it. -/
theorem compile_functionName_notCalled : ∃ c f, compile functionAssigned = .ok c ∧
    c.program.form? ⟨1⟩ = some (.identifier "f" (.resolved ⟨5⟩)) ∧
    c.program.function? ⟨5⟩ = some f ∧ ¬ c.program.IsCallee ⟨1⟩ ∧
    c.program.statement? ⟨2⟩ = some ⟨.change (.resolved ⟨7⟩) (.assign ⟨1⟩), ⟨0, 52⟩⟩ ∧
    c.program.TakenAsValue ⟨1⟩ := by
  obtain ⟨c, f, hc, hforms, hf, hstatement⟩ := compile_functionAssigned
  refine ⟨c, f, hc, ?_, hf, ?_, hstatement, .value _ _ hstatement List.mem_cons_self⟩
  · rw [Program.form?_eq_getElem?, hforms]
    rfl
  · -- there is no call at all
    rintro ⟨whole, arguments, hwhole⟩
    rw [Program.form?_eq_getElem?, hforms] at hwhole
    have hmem := List.mem_of_getElem? hwhole
    simp at hmem

end FrontEnd
