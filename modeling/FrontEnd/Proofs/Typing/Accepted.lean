/-
**Accepted programs.**

For the program of a file the check and the rules agree: it is accepted exactly if it is well typed.
And as every expression stands somewhere in a statement of some function, every expression of an
accepted program has types: one built-in type, unless it is called, or a call that stands alone.

Main definitions:

* `FrontEnd.Program.IsCallee`, `FrontEnd.Program.StandsAlone` — expressions that need not have one
  value.

Main results:

* `FrontEnd.Program.check_ok_iff_wellTyped` — the check is sound and complete;
* `FrontEnd.compile_typesOf` — the types of the expressions of a compiled program.
-/

import FrontEnd.Compile
import FrontEnd.Proofs.Layout.Forest
import FrontEnd.Proofs.Typing.Checking

set_option relaxedAutoImplicit false
set_option autoImplicit false

namespace FrontEnd

open Run Syntax

namespace Program

variable {p q : Program} {fs : List Func} {tokens : List Token}

/-- The program of a file notes nothing but the types of literals. -/
theorem Realizes.noted (h : p.Realizes fs) : Noted p p where
  declarations := rfl
  statements := rfl
  scopes := rfl
  topLevel := rfl
  size := rfl
  form _ := rfl
  position _ := rfl
  sound := by
    intro id e types he htypes
    obtain ⟨b, hform, rfl⟩ := h.note he htypes
    exact .literal (form?_eq he) hform

/-- **The check is sound and complete for the typing rules.**  A program that was read is accepted
exactly if every function of the file is well typed: all statements in it, at any depth, and its
ending. -/
theorem check_ok_iff_wellTyped (h : parse tokens = .ok p) :
    (∃ q, check p = .ok () q) ↔ p.WellTyped := by
  obtain ⟨fs, -, -, -, hrealizes⟩ := realizes_of_parse h
  have hmeets := check_meets hrealizes.partsOlder hrealizes.noted
  rw [← hmeets.ok_iff]
  constructor
  · rintro ⟨q, hq⟩
    exact ⟨(), q, hq⟩
  · rintro ⟨_, q, hq⟩
    exact ⟨q, hq⟩

/-- A file with nested blocks, calls and results. -/
def nestedCalls : List Token := tokensOf ("func f(n Int) Int \x7b for n = 0; n < 3; n++ " ++
  "\x7b if n == 1 \x7b n += f(n); \x7d \x7d return n; \x7d")

theorem check_ok_iff_wellTyped_nestedCalls :
    ∃ p, parse nestedCalls = .ok p ∧ ((∃ q, check p = .ok () q) ↔ p.WellTyped) := by
  have hread : (parse nestedCalls).toOption.isSome = true := by decide +kernel
  obtain ⟨p, hp⟩ := exists_of_isSome hread
  exact ⟨p, hp, check_ok_iff_wellTyped hp⟩

/-- In a well-typed program every statement is well typed. -/
theorem WellTyped.formTyped (h : p.Realizes fs) (htyped : p.WellTyped) {id : StmtId}
    {s : Statement} (hs : p.statement? id = some s) : ∃ results, p.FormTyped results s.form := by
  obtain ⟨decl, hdecl, f, hf, hwithin⟩ := h.isForest.statement_place hs
  obtain ⟨results, -, hall⟩ := (htyped decl hdecl f hf).statements
  obtain ⟨s', hs', hform⟩ := hall id hwithin
  rw [hs] at hs'
  cases hs'
  exact ⟨results, hform⟩

/-! ### Types of all expressions -/

/-- The expression is called. -/
def IsCallee (p : Program) (id : ExprId) : Prop :=
  ∃ whole arguments, p.form? whole = some (.call id arguments)

/-- The expression is the call of a call statement. -/
def StandsAlone (p : Program) (id : ExprId) : Prop :=
  ∃ outer s, p.statement? outer = some s ∧ s.form = .call id

/-- The expression has types, and one if its place asks for it. -/
def Typed (p : Program) (id : ExprId) : Prop :=
  ∃ types, p.HasTypes id types ∧ (types.length = 1 ∨ p.StandsAlone id ∨ p.IsCallee id)

theorem typed_of_type {id : ExprId} {type : DeclId} (h : p.HasTypes id [type]) : p.Typed id :=
  ⟨[type], h, .inl rfl⟩

theorem mem_zip_of_length_eq {α β : Type} {xs : List α} {ys : List β} (h : ys.length = xs.length)
    {x : α} (hx : x ∈ xs) : ∃ y, (x, y) ∈ xs.zip ys := by
  induction xs generalizing ys with
  | nil => cases hx
  | cons x' xs ih =>
      cases ys with
      | nil => simp at h
      | cons y ys =>
          rcases List.mem_cons.1 hx with rfl | hx
          · exact ⟨y, List.mem_cons_self⟩
          · obtain ⟨y', hy'⟩ := ih (by simpa using h) hx
            exact ⟨y', List.mem_cons_of_mem _ hy'⟩

/-- The parts of an expression that has types have types. -/
theorem HasTypes.part {whole id : ExprId} {form : ExprForm} {types : List DeclId}
    (h : p.HasTypes whole types) (hform : p.form? whole = some form) (hid : id ∈ form.parts) :
    p.Typed id := by
  cases form with
  | integer _ | character _ | string _ | bool _ | identifier _ _ => cases hid
  | not operand =>
      obtain rfl := List.mem_singleton.1 hid
      exact typed_of_type ((hasTypes_not_iff hform).1 h).1
  | binary op left right =>
      obtain ⟨leftType, rightType, _, hleft, hright, -⟩ := (hasTypes_binary_iff hform).1 h
      rcases List.mem_cons.1 hid with rfl | hid
      · exact typed_of_type hleft
      · obtain rfl := List.mem_singleton.1 hid
        exact typed_of_type hright
  | call callee arguments =>
      obtain ⟨f, parameters, ⟨name, decl, hcallee, hf⟩, -, hcount, harguments, htypes⟩ :=
        (hasTypes_call_iff hform).1 h
      rcases List.mem_cons.1 hid with rfl | hid
      · exact ⟨types, .func hcallee hf htypes, .inr (.inr ⟨whole, arguments, hform⟩)⟩
      · obtain ⟨type, hzip⟩ := mem_zip_of_length_eq hcount hid
        exact typed_of_type (harguments id type hzip)

/-- The expressions in a well-typed statement have types. -/
theorem FormTyped.expression {results : List DeclId} {outer : StmtId} {s : Statement} {id : ExprId}
    (h : p.FormTyped results s.form) (hs : p.statement? outer = some s)
    (hid : id ∈ s.form.expressions) : p.Typed id := by
  obtain ⟨form, place⟩ := s
  cases form with
  | declare decl => cases hid
  | change target change =>
      cases change with
      | assign value =>
          obtain rfl := List.mem_singleton.1 hid
          obtain ⟨type, -, hvalue⟩ := h
          exact typed_of_type hvalue
      | add value | subtract value =>
          obtain rfl := List.mem_singleton.1 hid
          exact typed_of_type h.2
      | increment | decrement => cases hid
  | call called =>
      obtain rfl := List.mem_singleton.1 hid
      obtain ⟨types, htypes⟩ := h
      exact ⟨types, htypes, .inr (.inl ⟨outer, _, hs, rfl⟩)⟩
  | branch condition _ _ | whileLoop condition _ | forLoop _ condition _ _ =>
      obtain rfl := List.mem_singleton.1 hid
      exact typed_of_type h
  | result values =>
      obtain ⟨type, hzip⟩ := mem_zip_of_length_eq h.1.symm hid
      exact typed_of_type (h.2 id type hzip)

/-- **In a well-typed program every expression has types.** -/
theorem WellTyped.typed (h : p.Realizes fs) (htyped : p.WellTyped) {id : ExprId} {form : ExprForm}
    (hform : p.form? id = some form) : p.Typed id := by
  have hsize : ∀ {id form}, p.form? id = some form → id.index < p.expressions.size := by
    intro id form hform
    obtain ⟨e, he, -⟩ := Option.map_eq_some_iff.1 hform
    exact (Array.getElem?_eq_some_iff.1 he).1
  -- from statements down to the parts of their expressions, which have smaller numbers
  induction hn : p.expressions.size - id.index using Nat.strongRecOn generalizing id form with
  | ind n ih =>
      rcases h.isForest.expression_place hform with
        ⟨whole, wform, hwhole, hpart⟩ | ⟨outer, s, hs, hmem⟩
      · have hlt := h.partsOlder.expressions whole wform hwhole id hpart
        have hin := hsize hwhole
        obtain ⟨types, htypes, -⟩ := ih _ (by omega) hwhole rfl
        exact htypes.part hwhole hpart
      · obtain ⟨results, htypedForm⟩ := htyped.formTyped h hs
        exact htypedForm.expression hs hmem

theorem Realizes.fieldTypes (h : p.Realizes fs) {fields : List Field} {types : List DeclId}
    (htypes : p.fieldTypes fields = .ok types) :
    ∀ type ∈ types, ∃ b : BasicType, type = b.declaration := by
  induction fields generalizing types with
  | nil =>
      cases htypes
      simp
  | cons field fields ih =>
      obtain ⟨type, others, htype, hothers, rfl⟩ := fieldTypes_cons_ok_iff.1 htypes
      rw [List.forall_mem_cons]
      exact ⟨h.variableType htype, ih hothers⟩

/-- All types that expressions have are built in. -/
theorem Realizes.hasTypes (h : p.Realizes fs) {id : ExprId} {types : List DeclId}
    (htypes : p.HasTypes id types) : ∀ type ∈ types, ∃ b : BasicType, type = b.declaration := by
  induction htypes with
  | literal _ _ => exact fun type hmem => ⟨_, List.mem_singleton.1 hmem⟩
  | var _ htype =>
      intro type hmem
      obtain rfl := List.mem_singleton.1 hmem
      exact h.variableType htype
  | func _ _ htypes | call _ _ _ _ _ _ htypes _ => exact h.fieldTypes htypes
  | not _ _ _ => exact fun type hmem => ⟨_, List.mem_singleton.1 hmem⟩
  | binary _ _ _ hop ihLeft _ =>
      intro type hmem
      obtain rfl := List.mem_singleton.1 hmem
      cases hop with
      | logical _ | comparison _ => exact ⟨_, rfl⟩
      | arithmetic _ _ => exact ihLeft _ List.mem_cons_self

/-! ### The start -/

/-- **When a program of a file is accepted**: if it is well typed and has a function to start in. -/
theorem Realizes.analyze_meets (h : p.Realizes fs) :
    Meets analyze p (p.WellTyped ∧ ∃ entry, (fileFunctions fs).lookup mainName = some entry)
      fun entry q => Noted p q ∧ (fileFunctions fs).lookup mainName = some entry := by
  obtain ⟨noted, hlexical⟩ := h.scopes
  refine (check_meets h.partsOlder h.noted).bind fun _ q hq => ?_
  have hmain : ∀ entry, q.findMain = .ok entry ↔
      (fileFunctions fs).lookup mainName = some entry := by
    intro entry
    rw [findMain, hq.scopes, ← hlexical.search_file_func]
    cases p.scopes.search .file .func mainName <;> simp
  refine (Meets.ask hmain).imp Iff.rfl ?_
  rintro entry _ ⟨hentry, rfl⟩
  exact ⟨hq, hentry⟩

end Program

/-! ### Compiled programs -/

variable {source : String} {c : CheckedProgram}

/-- What a success of the front end is made of. -/
theorem compile_ok (h : compile source = .ok c) :
    ∃ tokens p, tokenize source = .ok tokens ∧ parse tokens = .ok p ∧
      Program.analyze p = .ok c.entryPoint c.program := by
  unfold compile at h
  cases htokens : tokenize source with
  | error e => simp [htokens] at h
  | ok tokens =>
      cases hparse : parse tokens with
      | error e => simp [htokens, hparse] at h
      | ok p =>
          cases hanalyze : Program.analyze p with
          | error e q => simp [htokens, hparse, hanalyze] at h
          | ok entry q =>
              simp only [htokens, hparse, hanalyze, Except.ok.injEq] at h
              subst h
              exact ⟨tokens, p, rfl, hparse, hanalyze⟩

/-- A compiled program is that of a file, and well typed; types were noted in it. -/
theorem wellTyped_of_compile (h : compile source = .ok c) :
    ∃ p fs, p.Realizes fs ∧ p.WellTyped ∧ Program.Noted p c.program := by
  obtain ⟨tokens, p, -, hparse, hanalyze⟩ := compile_ok h
  obtain ⟨fs, -, -, -, hrealizes⟩ := realizes_of_parse hparse
  obtain ⟨⟨htyped, -⟩, hnoted, -⟩ := hrealizes.analyze_meets.of_ok hanalyze
  exact ⟨p, fs, hrealizes, htyped, hnoted⟩

theorem Program.Noted.isCallee_iff {p q : Program} (h : Program.Noted p q) {id : ExprId} :
    q.IsCallee id ↔ p.IsCallee id := by
  unfold Program.IsCallee
  simp only [h.form]

theorem Program.Noted.standsAlone_iff {p q : Program} (h : Program.Noted p q) {id : ExprId} :
    q.StandsAlone id ↔ p.StandsAlone id := by
  unfold Program.StandsAlone
  simp only [h.statement?]

/-- **Every expression of a compiled program has types**: built-in ones, and exactly one unless the
expression is the call of a call statement or is called itself. -/
theorem compile_typesOf (h : compile source = .ok c) {id : ExprId}
    (hid : id.index < c.program.expressions.size) :
    ∃ types q, Program.typesOf id c.program = .ok types q ∧
      (∀ type ∈ types, ∃ b : BasicType, type = b.declaration) ∧
        (types.length = 1 ∨ c.program.StandsAlone id ∨ c.program.IsCallee id) := by
  obtain ⟨p, fs, hrealizes, htyped, hnoted⟩ := wellTyped_of_compile h
  obtain ⟨form, hform⟩ : ∃ form, p.form? id = some form := by
    rw [← hnoted.form]
    exact ⟨_, Program.form?_eq (Array.getElem?_eq_getElem hid)⟩
  obtain ⟨types, htypes, hplace⟩ := htyped.typed hrealizes hform
  have hmeets := Program.typesOf_meets hrealizes.partsOlder hnoted id
  obtain ⟨types', q, hrun⟩ := hmeets.exists_ok ⟨types, htypes⟩
  obtain rfl := htypes.unique (hmeets.of_ok hrun).2.1
  refine ⟨types, q, hrun, hrealizes.hasTypes htypes, ?_⟩
  rw [hnoted.standsAlone_iff, hnoted.isCallee_iff]
  exact hplace

/-- In a program of one call statement the call has no type and neither has what is called. -/
theorem compile_typesOf_callee : ∃ c, compile "func main() \x7b main(); \x7d" = .ok c ∧
    0 < c.program.expressions.size ∧ ∃ types q, Program.typesOf ⟨0⟩ c.program = .ok types q ∧
      (∀ type ∈ types, ∃ b : BasicType, type = b.declaration) ∧
        (types.length = 1 ∨ c.program.StandsAlone ⟨0⟩ ∨ c.program.IsCallee ⟨0⟩) := by
  have hread : ((compile "func main() \x7b main(); \x7d").toOption.any
      fun c => 0 < c.program.expressions.size) = true := by
    decide +kernel
  cases hc : compile "func main() \x7b main(); \x7d" with
  | error e =>
      rw [hc] at hread
      cases hread
  | ok c =>
      rw [hc] at hread
      have hsize : 0 < c.program.expressions.size := of_decide_eq_true hread
      exact ⟨c, rfl, hsize, compile_typesOf hc hsize⟩

end FrontEnd
