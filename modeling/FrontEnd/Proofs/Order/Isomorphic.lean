/-
**The same program under other numbers.**

Two files with the same functions in different orders come to programs that are the same up to the
numbers of their nodes.  A renaming relates them node by node: what is declared, what is referred to,
what an expression or a statement is made of.

Main definitions:

* `FrontEnd.Program.SameUpTo` — programs that a renaming takes to each other.

Main results:

* `FrontEnd.Program.sameUpTo_of_moves` — the programs of a file in two orders.
-/

import FrontEnd.Proofs.Layout.Ordered
import FrontEnd.Proofs.Order.Moving

set_option relaxedAutoImplicit false
set_option autoImplicit false

namespace FrontEnd

open Syntax

/-! ### Renamed items -/

namespace Syntax

/-- Renamed items are found under their new numbers. -/
theorem itemAt?_rename {α : Type} {ρ : Equiv.Perm Nat} {start start' : Nat} {xs : List α}
    (change : α → α) (h : ∀ k < xs.length, ρ (start + k) = start' + k) (i : Nat) :
    itemAt? start' (xs.map change) (ρ i) = (itemAt? start xs i).map change := by
  by_cases hi : start ≤ i ∧ i < start + xs.length
  · obtain ⟨k, rfl⟩ := Nat.exists_eq_add_of_le hi.1
    rw [h k (by omega)]
    simp [itemAt?]
  · -- no number outside of the items is renamed to one of theirs
    have hnone : itemAt? start xs i = none := by
      refine Option.eq_none_iff_forall_ne_some.2 fun x hx => hi (bounds_of_itemAt? hx)
    rw [hnone, Option.map_none]
    refine Option.eq_none_iff_forall_ne_some.2 fun x hx => hi ?_
    have hbounds := bounds_of_itemAt? hx
    rw [List.length_map] at hbounds
    obtain ⟨k, hk⟩ := Nat.exists_eq_add_of_le hbounds.1
    have hlt : k < xs.length := by omega
    have heq : i = start + k := ρ.injective (hk.trans (h k hlt).symm)
    omega

namespace Nodes

variable {ρ : Renaming} {o o' x : Extent} {y : Nodes}

theorem declaration?_rename (h : ρ.Shifts o o' x) (hcount : y.count = x.flat) (id : DeclId) :
    (y.rename ρ).declaration? o' (ρ.decl id) = (y.declaration? o id).map (Declaration.rename ρ) :=
  itemAt?_rename _ (fun k hk => h.decls k ((Extent.ext_iff.1 hcount).1 ▸ hk)) id.index

theorem expression?_rename (h : ρ.Shifts o o' x) (hcount : y.count = x.flat) (id : ExprId) :
    (y.rename ρ).expression? o' (ρ.expr id) = (y.expression? o id).map (Expression.rename ρ) :=
  itemAt?_rename _ (fun k hk => h.exprs k ((Extent.ext_iff.1 hcount).2.1 ▸ hk)) id.index

theorem statement?_rename (h : ρ.Shifts o o' x) (hcount : y.count = x.flat) (id : StmtId) :
    (y.rename ρ).statement? o' (ρ.stmt id) = (y.statement? o id).map (Statement.rename ρ) :=
  itemAt?_rename _ (fun k hk => h.stmts k ((Extent.ext_iff.1 hcount).2.2.1 ▸ hk)) id.index

end Nodes

/-! ### Nodes of a file by function -/

section Files

variable {functions : List (String × DeclId)} {fs : List Func} {o : Extent}

theorem sameNodes_extent (f : Func) (o : Extent) :
    (o + (f.nodes functions o).count).SameNodes (o + f.extent) := by
  simp [Extent.SameNodes, Func.count_nodes]

/-- The declarations of a file are those of its functions. -/
theorem declaration?_fileNodes {id : DeclId} {d : Declaration} :
    (fileNodes functions o fs).declaration? o id = some d ↔
      ∃ x f, (x, f) ∈ places o fs ∧ (f.nodes functions x).declaration? x id = some d := by
  induction fs generalizing o with
  | nil => simp [fileNodes, places]
  | cons f fs ih =>
      rw [fileNodes, Nodes.declaration?_append (sameNodes_extent f o), ih]
      simp only [places, List.mem_cons, Prod.mk.injEq, or_and_right, exists_or]
      simp

/-- The expressions of a file are those of its functions. -/
theorem expression?_fileNodes {id : ExprId} {e : Expression} :
    (fileNodes functions o fs).expression? o id = some e ↔
      ∃ x f, (x, f) ∈ places o fs ∧ (f.nodes functions x).expression? x id = some e := by
  induction fs generalizing o with
  | nil => simp [fileNodes, places]
  | cons f fs ih =>
      rw [fileNodes, Nodes.expression?_append (sameNodes_extent f o), ih]
      simp only [places, List.mem_cons, Prod.mk.injEq, or_and_right, exists_or]
      simp

/-- The statements of a file are those of its functions. -/
theorem statement?_fileNodes {id : StmtId} {s : Statement} :
    (fileNodes functions o fs).statement? o id = some s ↔
      ∃ x f, (x, f) ∈ places o fs ∧ (f.nodes functions x).statement? x id = some s := by
  induction fs generalizing o with
  | nil => simp [fileNodes, places]
  | cons f fs ih =>
      rw [fileNodes, Nodes.statement?_append (sameNodes_extent f o), ih]
      simp only [places, List.mem_cons, Prod.mk.injEq, or_and_right, exists_or]
      simp

end Files

end Syntax

/-! ### Programs -/

namespace Program

/-- The programs are the same up to the numbers of their nodes.  Types that were noted are left out:
they tell what was asked for, not what the program is. -/
structure SameUpTo (ρ : Renaming) (p p' : Program) : Prop where
  types : ρ.KeepsTypes
  declarations : ∀ id, p'.declaration? (ρ.decl id) = (p.declaration? id).map (Declaration.rename ρ)
  forms : ∀ id, p'.form? (ρ.expr id) = (p.form? id).map (ExprForm.rename ρ)
  positions : ∀ id, (p'.expression? (ρ.expr id)).map Expression.position =
    (p.expression? id).map Expression.position
  statements : ∀ id, p'.statement? (ρ.stmt id) = (p.statement? id).map (Statement.rename ρ)
  topLevel : p'.topLevel.Perm (p.topLevel.map ρ.decl)

variable {ρ : Renaming} {p p' : Program} {fs fs' : List Func}

/-- The built-in declarations keep their numbers. -/
theorem keepsTypes_of_below (h : ρ.Shifts {} {} start) : ρ.KeepsTypes := by
  intro b
  refine congrArg DeclId.mk ?_
  have hlt : b.declaration.index < start.decls := by
    cases b <;> decide
  have hkept := h.decls _ hlt
  rwa [Nat.zero_add] at hkept

/-- A renaming that moves only what a file adds keeps the built-in declarations. -/
theorem initial_declaration?_rename (h : ρ.Shifts {} {} start) {id : DeclId} {d : Declaration} :
    Program.initial.declaration? (ρ.decl id) = some d ↔
      ∃ d₀, Program.initial.declaration? id = some d₀ ∧ d₀.rename ρ = d := by
  have hlt : ∀ {id d}, Program.initial.declaration? id = some d → id.index < start.decls :=
    fun hd => (Array.getElem?_eq_some_iff.1 hd).1
  have hkept : ∀ i < start.decls, ρ.decls i = i := by
    intro i hi
    simpa using h.decls i hi
  constructor
  · intro hd
    -- what is renamed to a number of a built-in type has that number itself
    have hid : ρ.decl id = id :=
      congrArg DeclId.mk (ρ.decls.injective (hkept _ (hlt hd)))
    rw [hid] at hd
    obtain ⟨t, rfl⟩ := Realizes.initial_declaration? hd
    exact ⟨_, hd, rfl⟩
  · rintro ⟨d₀, hd, rfl⟩
    have hid : ρ.decl id = id := congrArg DeclId.mk (hkept _ (hlt hd))
    obtain ⟨t, rfl⟩ := Realizes.initial_declaration? hd
    rw [hid]
    exact hd

section Moved

variable (h : p.Realizes fs) (h' : p'.Realizes fs') (hmoves : ρ.Moves start fs fs')
  (hfinds : ρ.Finds (fileFunctions fs) (fileFunctions fs'))

include h h' hmoves hfinds

/-- A moved file has the declarations of the first one under their new numbers. -/
theorem declaration?_rename (id : DeclId) :
    p'.declaration? (ρ.decl id) = (p.declaration? id).map (Declaration.rename ρ) := by
  have htypes := keepsTypes_of_below hmoves.below
  refine Option.ext fun d' => ?_
  rw [h'.declaration?_iff, initial_declaration?_rename hmoves.below, Option.map_eq_some_iff]
  simp only [h.declaration?_iff, fileLayout, declaration?_fileNodes, or_and_right, exists_or]
  -- each function is the same tree in both files, at another place
  refine or_congr_right (hmoves.exists_iff fun x x' f hshifts => ?_)
  rw [← f.rename_nodes htypes hfinds hshifts]
  exact Nodes.declaration?_rename hshifts (f.count_nodes x) id

/-- It has the expressions of the first one under their new numbers. -/
theorem expression?_rename (id : ExprId) :
    p'.expression? (ρ.expr id) = (p.expression? id).map (Expression.rename ρ) := by
  have htypes := keepsTypes_of_below hmoves.below
  refine Option.ext fun e' => ?_
  rw [h'.expression?_iff, Option.map_eq_some_iff]
  simp only [h.expression?_iff, fileLayout, expression?_fileNodes]
  refine hmoves.exists_iff fun x x' f hshifts => ?_
  rw [← f.rename_nodes htypes hfinds hshifts]
  exact Nodes.expression?_rename hshifts (f.count_nodes x) id

/-- It has the statements of the first one under their new numbers. -/
theorem statement?_rename (id : StmtId) :
    p'.statement? (ρ.stmt id) = (p.statement? id).map (Statement.rename ρ) := by
  have htypes := keepsTypes_of_below hmoves.below
  refine Option.ext fun s' => ?_
  rw [h'.statement?_iff, Option.map_eq_some_iff]
  simp only [h.statement?_iff, fileLayout, statement?_fileNodes]
  refine hmoves.exists_iff fun x x' f hshifts => ?_
  rw [← f.rename_nodes htypes hfinds hshifts]
  exact Nodes.statement?_rename hshifts (f.count_nodes x) id

/-- **The programs of a file in two orders** are the same up to the numbers of their nodes. -/
theorem sameUpTo_of_moves : SameUpTo ρ p p' where
  types := keepsTypes_of_below hmoves.below
  declarations := declaration?_rename h h' hmoves hfinds
  forms id := by
    rw [form?, form?, expression?_rename h h' hmoves hfinds, Option.map_map, Option.map_map]
    rfl
  positions id := by
    rw [expression?_rename h h' hmoves hfinds, Option.map_map]
    rfl
  statements := statement?_rename h h' hmoves hfinds
  topLevel := by
    rw [h.topLevel, h'.topLevel]
    exact hmoves.roots

end Moved

end Program

end FrontEnd
