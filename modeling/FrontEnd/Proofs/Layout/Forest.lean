/-
**The program of a file is a forest.**

Nodes refer to each other by number, so nothing in the data keeps them from sharing parts or from
being their own parts.  In the program of a file they do neither: every expression, every statement
and every variable has one owner, wholes are younger than their parts, and lists are in the order in
which their items were made.  Going down from wholes to parts comes to an end.

Main definitions:

* `FrontEnd.Program.expressionUses` and the like — the places where nodes are used;
* `FrontEnd.Program.IsForest` — programs in which nodes have one owner;
* `FrontEnd.Program.ConsistsOf` — programs of the built-in declarations and given nodes.

Main results:

* `FrontEnd.Program.PartsOlder.wellFounded_expressions`,
  `FrontEnd.Program.PartsOlder.wellFounded_statements` — recursion from wholes to parts;
* `FrontEnd.Program.IsForest.expression_place`, `FrontEnd.Program.IsForest.statement_place` — where
  nodes stand;
* `FrontEnd.parseFile_isForest` — **the program of a file is a forest**.
-/

import FrontEnd.Proofs.Layout.Ownership
import FrontEnd.Proofs.Layout.Ordered

set_option relaxedAutoImplicit false
set_option autoImplicit false

namespace FrontEnd

/-! ### Forests -/

namespace Program

variable {p : Program}

/-- The places where expressions are used: the parts of expressions, and the statements. -/
def expressionUses (p : Program) : List ExprId :=
  p.expressions.toList.flatMap (·.form.parts) ++ p.statements.toList.flatMap (·.form.expressions)

/-- The places where statements are used: the bodies of functions, and the blocks and heads of
statements. -/
def statementUses (p : Program) : List StmtId :=
  p.declarations.toList.flatMap Declaration.body ++ p.statements.toList.flatMap (·.form.parts)

/-- The places where variables are declared: the parameters and results of functions, and the
statements. -/
def variableUses (p : Program) : List DeclId :=
  p.declarations.toList.flatMap Declaration.slots ++ p.statements.toList.flatMap (·.form.declared)

/-- Every node of the program has one owner, which is younger if it is a node of the same sort, and
what stands in a list together is in the order in which it was made. -/
structure IsForest (p : Program) : Prop where
  /-- An expression is one part of one expression, or stands in one statement once. -/
  expressions : ∀ id, p.expressionUses.count id = if (p.expression? id).isSome then 1 else 0
  /-- A statement stands in the body of one function, or in one statement, and that once. -/
  statements : ∀ id, p.statementUses.count id = if (p.statement? id).isSome then 1 else 0
  /-- A variable is one parameter or result, or declared by one statement. -/
  vars : ∀ id, p.variableUses.count id = if p.kind? id = some .var then 1 else 0
  /-- A function of the file stands in its list once. -/
  functions : ∀ id, p.topLevel.count id = if p.kind? id = some .func then 1 else 0
  /-- Parts are older than wholes. -/
  older : p.PartsOlder
  /-- The statements of blocks, and those in the heads of counted repetitions, are in order. -/
  parts : ∀ id s, p.statement? id = some s → s.form.parts.Pairwise (·.index < ·.index)
  /-- The statements of bodies are in order. -/
  bodies : ∀ id f, p.declaration? id = some (.func f) → f.body.Pairwise (·.index < ·.index)
  /-- The functions of the file are in order. -/
  topLevel : p.topLevel.Pairwise (·.index < ·.index)

/-- Going down from expressions to their parts comes to an end. -/
theorem PartsOlder.wellFounded_expressions (h : p.PartsOlder) :
    WellFounded fun part whole => ∃ form, p.form? whole = some form ∧ part ∈ form.parts := by
  refine Subrelation.wf ?_ (measure ExprId.index).wf
  rintro part whole ⟨form, hform, hpart⟩
  exact h.expressions whole form hform part hpart

/-- Going down from statements to their parts comes to an end. -/
theorem PartsOlder.wellFounded_statements (h : p.PartsOlder) :
    WellFounded fun part whole => ∃ s, p.statement? whole = some s ∧ part ∈ s.form.parts := by
  refine Subrelation.wf ?_ (measure StmtId.index).wf
  rintro part whole ⟨s, hs, hpart⟩
  exact h.statements whole s hs part hpart

/-! ### Places of nodes -/

theorem exists_expression?_of_mem {e : Expression} (h : e ∈ p.expressions.toList) :
    ∃ id, p.expression? id = some e := by
  obtain ⟨i, hi⟩ := List.mem_iff_getElem?.1 h
  exact ⟨⟨i⟩, Array.getElem?_toList.symm.trans hi⟩

theorem exists_statement?_of_mem {s : Statement} (h : s ∈ p.statements.toList) :
    ∃ id, p.statement? id = some s := by
  obtain ⟨i, hi⟩ := List.mem_iff_getElem?.1 h
  exact ⟨⟨i⟩, Array.getElem?_toList.symm.trans hi⟩

theorem exists_declaration?_of_mem {d : Declaration} (h : d ∈ p.declarations.toList) :
    ∃ id, p.declaration? id = some d := by
  obtain ⟨i, hi⟩ := List.mem_iff_getElem?.1 h
  exact ⟨⟨i⟩, Array.getElem?_toList.symm.trans hi⟩

/-- Every expression is a part of another one or stands in a statement. -/
theorem IsForest.expression_place (h : p.IsForest) {id : ExprId} {form : ExprForm}
    (hform : p.form? id = some form) :
    (∃ whole form, p.form? whole = some form ∧ id ∈ form.parts) ∨
      ∃ outer s, p.statement? outer = some s ∧ id ∈ s.form.expressions := by
  obtain ⟨e, he, -⟩ := Option.map_eq_some_iff.1 hform
  have hcount := h.expressions id
  rw [he, Option.isSome_some, if_pos rfl] at hcount
  have hmem : id ∈ p.expressionUses := List.count_pos_iff.1 (by omega)
  rcases List.mem_append.1 hmem with hmem | hmem
  · obtain ⟨w, hw, hpart⟩ := List.mem_flatMap.1 hmem
    obtain ⟨whole, hwhole⟩ := exists_expression?_of_mem hw
    exact .inl ⟨whole, w.form, form?_eq hwhole, hpart⟩
  · obtain ⟨s, hs, hpart⟩ := List.mem_flatMap.1 hmem
    obtain ⟨outer, houter⟩ := exists_statement?_of_mem hs
    exact .inr ⟨outer, s, houter, hpart⟩

/-- Every statement stands in the body of a function of the file, or in another statement. -/
theorem IsForest.statement_owner (h : p.IsForest) {id : StmtId} {s : Statement}
    (hs : p.statement? id = some s) :
    (∃ decl ∈ p.topLevel, ∃ f, p.function? decl = some f ∧ id ∈ f.body) ∨
      ∃ outer s', p.statement? outer = some s' ∧ id ∈ s'.form.parts := by
  have hcount := h.statements id
  rw [hs, Option.isSome_some, if_pos rfl] at hcount
  have hmem : id ∈ p.statementUses := List.count_pos_iff.1 (by omega)
  rcases List.mem_append.1 hmem with hmem | hmem
  · obtain ⟨d, hd, hbody⟩ := List.mem_flatMap.1 hmem
    obtain ⟨decl, hdecl⟩ := exists_declaration?_of_mem hd
    cases d with
    | var v => cases hbody
    | type t => cases hbody
    | func f =>
        have hkind : p.kind? decl = some .func := by rw [kind?, hdecl]; rfl
        have htop := h.functions decl
        rw [if_pos hkind] at htop
        refine .inl ⟨decl, List.count_pos_iff.1 (by omega), f, ?_, hbody⟩
        rw [function?, hdecl]
  · obtain ⟨s', hs', hpart⟩ := List.mem_flatMap.1 hmem
    obtain ⟨outer, houter⟩ := exists_statement?_of_mem hs'
    exact .inr ⟨outer, s', houter, hpart⟩

/-- Every statement stands at some depth in the body of a function of the file. -/
theorem IsForest.statement_place (h : p.IsForest) {id : StmtId} {s : Statement}
    (hs : p.statement? id = some s) :
    ∃ decl ∈ p.topLevel, ∃ f, p.function? decl = some f ∧ p.Within f.body id := by
  have hsize : ∀ {id s}, p.statement? id = some s → id.index < p.statements.size := by
    intro id s hs
    exact (Array.getElem?_eq_some_iff.1 hs).1
  -- wholes have greater numbers, but none beyond the size of the program
  induction hn : p.statements.size - id.index using Nat.strongRecOn generalizing id s with
  | ind n ih =>
      rcases h.statement_owner hs with ⟨decl, hdecl, f, hf, hbody⟩ | ⟨outer, s', houter, hpart⟩
      · exact ⟨decl, hdecl, f, hf, .own hbody⟩
      · have hlt := h.older.statements outer s' houter id hpart
        have hin := hsize houter
        obtain ⟨decl, hdecl, f, hf, hwithin⟩ := ih _ (by omega) houter rfl
        exact ⟨decl, hdecl, f, hf, .part hwithin houter hpart⟩

/-! ### Programs of given nodes -/

open Syntax

/-- The program consists of the built-in declarations and the given nodes. -/
structure ConsistsOf (p : Program) (y : Nodes) : Prop where
  declarations : p.declarations = Program.initial.declarations ++ y.declarations.toArray
  expressions : p.expressions = y.expressions.toArray
  statements : p.statements = y.statements.toArray

namespace ConsistsOf

variable {y : Nodes} {funcs : List DeclId}

theorem expressionUses (h : p.ConsistsOf y) : p.expressionUses = y.expressionUses := by
  rw [Program.expressionUses, h.expressions, h.statements, Nodes.expressionUses]

theorem statementUses (h : p.ConsistsOf y) : p.statementUses = y.statementUses := by
  rw [Program.statementUses, h.declarations, h.statements, Array.toList_append,
    List.flatMap_append]
  rfl

theorem variableUses (h : p.ConsistsOf y) : p.variableUses = y.variableUses := by
  rw [Program.variableUses, h.declarations, h.statements, Array.toList_append,
    List.flatMap_append]
  rfl

theorem expression?_eq (h : p.ConsistsOf y) (id : ExprId) :
    p.expression? id = y.expression? start id := by
  rw [Program.expression?, h.expressions, List.getElem?_toArray]
  simp [Nodes.expression?, itemAt?, start, Program.extent, Program.initial]

theorem statement?_eq (h : p.ConsistsOf y) (id : StmtId) :
    p.statement? id = y.statement? start id := by
  rw [Program.statement?, h.statements, List.getElem?_toArray]
  simp [Nodes.statement?, itemAt?, start, Program.extent, Program.initial]

theorem declaration?_iff (h : p.ConsistsOf y) {decl : DeclId} {d : Declaration} :
    p.declaration? decl = some d ↔
      Program.initial.declaration? decl = some d ∨ y.declaration? start decl = some d := by
  rw [Program.declaration?, h.declarations]
  exact getElem?_append_itemAt? Program.initial.declarations y.declarations decl.index

/-- Variables and functions are found among the nodes: the built-in declarations are types. -/
theorem once_declaration? (h : p.ConsistsOf y) {kind : DeclKind} (hkind : kind ≠ .type)
    (id : DeclId) :
    once (·.kind == kind) (y.declaration? start id) =
      if p.kind? id = some kind then 1 else 0 := by
  cases hnode : y.declaration? start id with
  | some x =>
      have hx := h.declaration?_iff.2 (.inr hnode)
      simp [Program.kind?, hx]
  | none =>
      have hnot : p.kind? id ≠ some kind := by
        intro hsome
        obtain ⟨x, hx, rfl⟩ := Option.map_eq_some_iff.1 hsome
        rcases h.declaration?_iff.1 hx with hinitial | hx
        · obtain ⟨t, rfl⟩ := Program.Realizes.initial_declaration? hinitial
          exact hkind rfl
        · rw [hnode] at hx
          cases hx
      rw [if_neg hnot, once_none]

/-- A program of nodes of which only its functions have no owner is a forest. -/
theorem isForest (h : p.ConsistsOf y) (howned : y.Owned start [] [] [] p.topLevel)
    (hordered : y.Ordered start) : p.IsForest where
  expressions id := by
    have hcount := howned.expressions id
    rwa [List.count_nil, Nat.zero_add, ← h.expressionUses, ← h.expression?_eq, once,
      Option.any_true] at hcount
  statements id := by
    have hcount := howned.statements id
    rwa [List.count_nil, Nat.zero_add, ← h.statementUses, ← h.statement?_eq, once,
      Option.any_true] at hcount
  vars id := by
    have hcount := howned.vars id
    rwa [List.count_nil, Nat.zero_add, ← h.variableUses, h.once_declaration? (by decide)]
      at hcount
  functions id := by rw [howned.functions, h.once_declaration? (by decide)]
  older := by
    constructor
    · intro id form hform
      obtain ⟨e, he, rfl⟩ := Option.map_eq_some_iff.1 hform
      exact hordered.expressions id e (h.expression?_eq id ▸ he)
    · intro id s hs
      exact hordered.statements id s (h.statement?_eq id ▸ hs)
  parts id s hs := howned.parts s (mem_of_itemAt? (h.statement?_eq id ▸ hs))
  bodies id f hf := by
    rcases h.declaration?_iff.1 hf with hf | hf
    · obtain ⟨t, ht⟩ := Program.Realizes.initial_declaration? hf
      cases ht
    · exact howned.bodies (.func f) (mem_of_itemAt? hf)
  topLevel := howned.funcs

end ConsistsOf

/-- A program whose names are settled is a forest. -/
theorem Realizes.isForest {fs : List Func} (h : p.Realizes fs) : p.IsForest := by
  have hconsists : p.ConsistsOf (fileLayout fs) := ⟨h.declarations, h.expressions, h.statements⟩
  exact hconsists.isForest (h.topLevel ▸ owned_fileNodes fs start) h.ordered

end Program

/-! ### Files -/

open Syntax

/-- A file that was read is a forest. -/
theorem Draft.IsReading.isForest {d : Draft} {fs : List Func} (h : d.IsReading fs) :
    d.program.IsForest := by
  obtain ⟨scopes, noted, -, -, rfl⟩ := h
  have hconsists : Program.ConsistsOf (((initial.add (earlyNodes start [] fs)).withScopes
      scopes).addTopLevel (roots start fs)).program (earlyNodes start [] fs) :=
    ⟨rfl, Array.empty_append, Array.empty_append⟩
  exact hconsists.isForest (owned_earlyNodes fs start []) (nodewise_ordered.earlyNodes fs start [])

/-- **The program of a file is a forest** in the order in which its nodes were made: every node has
one owner, and going down from wholes to parts comes to an end. -/
theorem parseFile_isForest {tokens : List Token} {p : Program} {d : Deferred}
    (h : parseFile tokens = .ok (p, d)) : p.IsForest ∧
      (WellFounded fun part whole => ∃ form, p.form? whole = some form ∧ part ∈ form.parts) ∧
        WellFounded fun part whole => ∃ s, p.statement? whole = some s ∧ part ∈ s.form.parts := by
  obtain ⟨fs, -, -, hreading⟩ := isReading_of_parseFile h
  have hforest : p.IsForest := hreading.isForest
  exact ⟨hforest, hforest.older.wellFounded_expressions, hforest.older.wellFounded_statements⟩

/-- A file with a loop whose head has statements, nested operators and a call. -/
def countedCall : List Token :=
  tokensOf "func f(n Int) Int \x7b for n = 0; n + 1 < 3; n++ \x7b f(n); \x7d return n; \x7d"

theorem parseFile_isForest_countedCall : ∃ p d, parseFile countedCall = .ok (p, d) ∧
    p.expressions.size = 10 ∧ p.statements.size = 5 ∧ p.IsForest := by
  have hread : (parseFile countedCall).toOption.any
      (fun (p, _) => p.expressions.size == 10 && p.statements.size == 5) = true := by decide +kernel
  obtain ⟨⟨p, d⟩, hparse, hsizes⟩ := Run.exists_of_any hread
  simp only [Bool.and_eq_true, beq_iff_eq] at hsizes
  exact ⟨p, d, hparse, hsizes.1, hsizes.2, (parseFile_isForest hparse).1⟩

end FrontEnd
