/-
**Where the nodes of a tree stand.**

The nodes of a tree are numbered on from an offset, each sort on its own.  So the node of a number
is found by going as many steps into its sort as the number is above the offset, and of two trees
one behind the other, a number belongs to at most one.

Main definitions:

* `FrontEnd.Syntax.Nodes.declaration?`, `FrontEnd.Syntax.Nodes.expression?`,
  `FrontEnd.Syntax.Nodes.statement?` — the node of a number, behind nodes of the given extent;
* `FrontEnd.Syntax.Extent.flat`, `FrontEnd.Syntax.Extent.SameNodes` — an extent without its scopes,
  and offsets that differ in scopes only.

Main results:

* `FrontEnd.Syntax.Stmt.count_nodes`, `FrontEnd.Syntax.Func.count_nodes` — a tree has as many nodes
  as its extent tells;
* `FrontEnd.Draft.expression?_add` and the like — the nodes of a draft with further nodes.
-/

import FrontEnd.Proofs.Layout.BuildingFile

set_option relaxedAutoImplicit false
set_option autoImplicit false

namespace FrontEnd.Syntax

/-! ### Items from a number on -/

/-- The item of the given number, when the items are numbered on from `start`. -/
def itemAt? {α : Type} (start : Nat) (xs : List α) (i : Nat) : Option α :=
  if start ≤ i then xs[i - start]? else none

section Items

variable {α : Type} {start i : Nat} {xs ys : List α} {x : α}

/-- An item of a list is in its first half, or else in the second one, numbered on. -/
theorem itemAt?_append : itemAt? start (xs ++ ys) i =
    (itemAt? start xs i).or (itemAt? (start + xs.length) ys i) := by
  unfold itemAt?
  by_cases hstart : start ≤ i
  · rw [if_pos hstart, if_pos hstart]
    by_cases hlength : start + xs.length ≤ i
    · have hright : xs.length ≤ i - start := by omega
      rw [if_pos hlength, List.getElem?_append_right hright, List.getElem?_eq_none hright,
        Option.none_or, Nat.sub_add_eq]
    · have hleft : i - start < xs.length := by omega
      rw [if_neg hlength, List.getElem?_append_left hleft, Option.or_none]
  · have hlength : ¬ start + xs.length ≤ i := by omega
    rw [if_neg hstart, if_neg hstart, if_neg hlength]
    rfl

@[simp] theorem itemAt?_nil : itemAt? start ([] : List α) i = none := by
  unfold itemAt?
  split <;> rfl

/-- A list of one item has it at the first number. -/
theorem itemAt?_singleton_eq_some_iff {y : α} :
    itemAt? start [x] i = some y ↔ i = start ∧ x = y := by
  unfold itemAt?
  by_cases hstart : start ≤ i
  · rw [if_pos hstart]
    cases hi : i - start with
    | zero =>
        have heq : i = start := by omega
        simp [heq]
    | succ n =>
        have hne : i ≠ start := by omega
        simp [hne]
  · rw [if_neg hstart]
    have hne : i ≠ start := by omega
    simp [hne]

/-- The numbers of items start at the offset. -/
theorem bounds_of_itemAt? (h : itemAt? start xs i = some x) :
    start ≤ i ∧ i < start + xs.length := by
  unfold itemAt? at h
  split at h
  · next hstart =>
      have hlt := (List.getElem?_eq_some_iff.1 h).1
      exact ⟨hstart, by omega⟩
  · cases h

/-- An item is found in one of two parts exactly if it is found in the whole. -/
theorem itemAt?_append_eq_some_iff : itemAt? start (xs ++ ys) i = some x ↔
    itemAt? start xs i = some x ∨ itemAt? (start + xs.length) ys i = some x := by
  rw [itemAt?_append]
  cases hxs : itemAt? start xs i with
  | none => simp
  | some y =>
      cases hys : itemAt? (start + xs.length) ys i with
      | none => simp
      | some z =>
          have hlt := (bounds_of_itemAt? hxs).2
          have hle := (bounds_of_itemAt? hys).1
          omega

end Items

/-! ### Nodes by number -/

namespace Nodes

/-- The declaration with the given number, behind nodes of the given extent. -/
def declaration? (o : Extent) (y : Nodes) (id : DeclId) : Option Declaration :=
  itemAt? o.decls y.declarations id.index

def expression? (o : Extent) (y : Nodes) (id : ExprId) : Option Expression :=
  itemAt? o.exprs y.expressions id.index

def statement? (o : Extent) (y : Nodes) (id : StmtId) : Option Statement :=
  itemAt? o.stmts y.statements id.index

end Nodes

namespace Extent

def flat (o : Extent) : Extent := { o with scopes := 0 }

@[simp] theorem flat_add (a b : Extent) : (a + b).flat = a.flat + b.flat := rfl

@[simp] theorem flat_scope : scope.flat = {} := rfl

@[simp] theorem flat_ofExprs (n : Nat) : (ofExprs n).flat = ofExprs n := rfl

@[simp] theorem flat_ofDecls (n : Nat) : (ofDecls n).flat = ofDecls n := rfl

@[simp] theorem flat_stmt : stmt.flat = stmt := rfl

@[simp] theorem flat_decl : decl.flat = decl := rfl

@[simp] theorem flat_empty : ({} : Extent).flat = {} := rfl

@[simp] theorem flat_flat (a : Extent) : a.flat.flat = a.flat := rfl

@[simp] theorem zero_add (a : Extent) : ({} : Extent) + a = a := by
  ext <;> simp

/-- The offsets differ in scopes only. -/
def SameNodes (o o' : Extent) : Prop := o.flat = o'.flat

variable {o o' : Extent}

theorem SameNodes.refl (o : Extent) : o.SameNodes o := rfl

theorem SameNodes.decls (h : o.SameNodes o') : o.decls = o'.decls := (Extent.ext_iff.1 h).1

theorem SameNodes.exprs (h : o.SameNodes o') : o.exprs = o'.exprs := (Extent.ext_iff.1 h).2.1

theorem SameNodes.stmts (h : o.SameNodes o') : o.stmts = o'.stmts := (Extent.ext_iff.1 h).2.2.1

end Extent

namespace Nodes

variable {o o' : Extent} {x y : Nodes}

/-- Scopes make no difference to where nodes stand. -/
theorem declaration?_congr (h : o.SameNodes o') (y : Nodes) :
    y.declaration? o = y.declaration? o' := by
  unfold declaration?
  rw [h.decls]

theorem expression?_congr (h : o.SameNodes o') (y : Nodes) :
    y.expression? o = y.expression? o' := by
  unfold expression?
  rw [h.exprs]

theorem statement?_congr (h : o.SameNodes o') (y : Nodes) :
    y.statement? o = y.statement? o' := by
  unfold statement?
  rw [h.stmts]

theorem declaration?_append (h : (o + x.count).SameNodes o') {id : DeclId} {d : Declaration} :
    (x ++ y).declaration? o id = some d ↔
      x.declaration? o id = some d ∨ y.declaration? o' id = some d := by
  unfold declaration?
  rw [← h.decls]
  exact itemAt?_append_eq_some_iff

theorem expression?_append (h : (o + x.count).SameNodes o') {id : ExprId} {e : Expression} :
    (x ++ y).expression? o id = some e ↔
      x.expression? o id = some e ∨ y.expression? o' id = some e := by
  unfold expression?
  rw [← h.exprs]
  exact itemAt?_append_eq_some_iff

theorem statement?_append (h : (o + x.count).SameNodes o') {id : StmtId} {s : Statement} :
    (x ++ y).statement? o id = some s ↔
      x.statement? o id = some s ∨ y.statement? o' id = some s := by
  unfold statement?
  rw [← h.stmts]
  exact itemAt?_append_eq_some_iff

@[simp] theorem declaration?_ofDeclaration {d d' : Declaration} {id : DeclId} :
    (ofDeclaration d).declaration? o id = some d' ↔ id = ⟨o.decls⟩ ∧ d = d' := by
  cases id
  simpa [declaration?, ofDeclaration] using itemAt?_singleton_eq_some_iff

@[simp] theorem expression?_ofDeclaration {d : Declaration} {id : ExprId} :
    (ofDeclaration d).expression? o id = none := itemAt?_nil

@[simp] theorem statement?_ofDeclaration {d : Declaration} {id : StmtId} :
    (ofDeclaration d).statement? o id = none := itemAt?_nil

@[simp] theorem declaration?_ofExpression {e : Expression} {id : DeclId} :
    (ofExpression e).declaration? o id = none := itemAt?_nil

@[simp] theorem expression?_ofExpression {e e' : Expression} {id : ExprId} :
    (ofExpression e).expression? o id = some e' ↔ id = ⟨o.exprs⟩ ∧ e = e' := by
  cases id
  simpa [expression?, ofExpression] using itemAt?_singleton_eq_some_iff

@[simp] theorem statement?_ofExpression {e : Expression} {id : StmtId} :
    (ofExpression e).statement? o id = none := itemAt?_nil

@[simp] theorem declaration?_ofStatement {form : StmtForm} {place : Position} {id : DeclId} :
    (ofStatement form place).declaration? o id = none := itemAt?_nil

@[simp] theorem expression?_ofStatement {form : StmtForm} {place : Position} {id : ExprId} :
    (ofStatement form place).expression? o id = none := itemAt?_nil

@[simp] theorem statement?_ofStatement {form : StmtForm} {place : Position} {id : StmtId}
    {s : Statement} :
    (ofStatement form place).statement? o id = some s ↔
      id = ⟨o.stmts⟩ ∧ (⟨form, place⟩ : Statement) = s := by
  cases id
  simpa [statement?, ofStatement] using itemAt?_singleton_eq_some_iff

/-- A list of places adds no nodes. -/
theorem declarations_append_deferIf (x : Nodes) (ref : Reference) (places : Deferred) :
    (x ++ deferIf ref places).declarations = x.declarations := by
  cases ref <;> exact List.append_nil _

theorem expressions_append_deferIf (x : Nodes) (ref : Reference) (places : Deferred) :
    (x ++ deferIf ref places).expressions = x.expressions := by
  cases ref <;> exact List.append_nil _

theorem statements_append_deferIf (x : Nodes) (ref : Reference) (places : Deferred) :
    (x ++ deferIf ref places).statements = x.statements := by
  cases ref <;> exact List.append_nil _

@[simp] theorem declaration?_append_deferIf (x : Nodes) (ref : Reference) (places : Deferred) :
    (x ++ deferIf ref places).declaration? o = x.declaration? o := by
  unfold declaration?
  rw [declarations_append_deferIf]

@[simp] theorem expression?_append_deferIf (x : Nodes) (ref : Reference) (places : Deferred) :
    (x ++ deferIf ref places).expression? o = x.expression? o := by
  unfold expression?
  rw [expressions_append_deferIf]

@[simp] theorem statement?_append_deferIf (x : Nodes) (ref : Reference) (places : Deferred) :
    (x ++ deferIf ref places).statement? o = x.statement? o := by
  unfold statement?
  rw [statements_append_deferIf]

/-- A pending reference is listed where it stands. -/
theorem deferred_append_deferIf {ref : Reference} (h : ref.isPending = true) (x : Nodes)
    (places : Deferred) : (x ++ deferIf ref places).deferred = x.deferred ++ places := by
  rw [append_deferred, deferIf, if_pos h]

@[simp] theorem declaration?_empty {id : DeclId} :
    ({} : Nodes).declaration? o id = none := itemAt?_nil

@[simp] theorem expression?_empty {id : ExprId} :
    ({} : Nodes).expression? o id = none := itemAt?_nil

@[simp] theorem statement?_empty {id : StmtId} :
    ({} : Nodes).statement? o id = none := itemAt?_nil

end Nodes

/-! ### Nodes of a draft -/

theorem getElem?_append_itemAt? {α : Type} (a : Array α) (xs : List α) (i : Nat) {x : α} :
    (a ++ xs.toArray)[i]? = some x ↔ a[i]? = some x ∨ itemAt? a.size xs i = some x := by
  have hself : a[i]? = itemAt? 0 a.toList i := by simp [itemAt?]
  have hwhole : (a ++ xs.toArray)[i]? = itemAt? 0 (a.toList ++ xs) i := by
    simp [itemAt?, ← Array.getElem?_toList]
  rw [hself, hwhole, itemAt?_append_eq_some_iff, Nat.zero_add, Array.length_toList]

end FrontEnd.Syntax

namespace FrontEnd.Draft

open Syntax

variable {d : Draft} {y : Nodes}

theorem declaration?_add {id : DeclId} {x : Declaration} :
    (d.add y).program.declaration? id = some x ↔
      d.program.declaration? id = some x ∨ y.declaration? d.program.extent id = some x :=
  getElem?_append_itemAt? d.program.declarations y.declarations id.index

theorem expression?_add {id : ExprId} {e : Expression} :
    (d.add y).program.expression? id = some e ↔
      d.program.expression? id = some e ∨ y.expression? d.program.extent id = some e :=
  getElem?_append_itemAt? d.program.expressions y.expressions id.index

theorem statement?_add {id : StmtId} {s : Statement} :
    (d.add y).program.statement? id = some s ↔
      d.program.statement? id = some s ∨ y.statement? d.program.extent id = some s :=
  getElem?_append_itemAt? d.program.statements y.statements id.index

end FrontEnd.Draft

namespace FrontEnd.Syntax

/-! ### Numbers of nodes -/

variable {o o' : Extent} {functions : List (String × DeclId)} {v : Sight}

@[simp] theorem Simple.flat_extent (s : Simple) : s.extent.flat = s.extent := by
  cases s <;> rfl

@[simp] theorem Simple.flat_extent? (s? : Option Simple) :
    (Simple.extent? s?).flat = Simple.extent? s? := by
  cases s? with
  | none => rfl
  | some s => exact Simple.flat_extent s

theorem Stmt.count_nodesAll_of_forall (xs : List Stmt)
    (hxs : ∀ x ∈ xs, ∀ v o, (x.nodes functions v o).count = x.extent.flat) (v : Sight)
    (o : Extent) : (Stmt.nodesAll functions v o xs).count = (Stmt.extents xs).flat := by
  induction xs generalizing v o with
  | nil => rfl
  | cons x xs ih =>
      have hrest := ih fun y hy => hxs y (List.mem_cons_of_mem x hy)
      rw [Stmt.nodesAll, Nodes.count_append, hxs x List.mem_cons_self, hrest]
      rfl

/-- **A statement has as many nodes as its extent tells.** -/
theorem Stmt.count_nodes (s : Stmt) (v : Sight) (o : Extent) :
    (s.nodes functions v o).count = s.extent.flat := by
  induction s generalizing v o with
  | declare place name type => simp [Stmt.nodes, Stmt.extent]
  | simple s => simp [Stmt.nodes, Stmt.extent]
  | branch place condition thenBlock ih =>
      simp [Stmt.nodes, Stmt.extent, Stmt.count_nodesAll_of_forall thenBlock ih,
        Extent.add_assoc]
  | branchElse place condition thenBlock elseBlock ihThen ihElse =>
      simp [Stmt.nodes, Stmt.extent, Stmt.count_nodesAll_of_forall thenBlock ihThen,
        Stmt.count_nodesAll_of_forall elseBlock ihElse, Extent.add_assoc]
  | whileLoop place condition body ih =>
      simp [Stmt.nodes, Stmt.extent, Stmt.count_nodesAll_of_forall body ih, Extent.add_assoc]
  | forLoop place init? condition action? body ih =>
      simp [Stmt.nodes, Stmt.extent, Stmt.count_nodesAll_of_forall body ih, Extent.add_assoc]
  | result place values => simp [Stmt.nodes, Stmt.extent]

theorem Stmt.count_nodesAll (xs : List Stmt) (v : Sight) (o : Extent) :
    (Stmt.nodesAll functions v o xs).count = (Stmt.extents xs).flat :=
  Stmt.count_nodesAll_of_forall xs (fun x _ v o => Stmt.count_nodes x v o) v o

/-- **A function has as many nodes as its extent tells.** -/
theorem Func.count_nodes (f : Func) (o : Extent) :
    (f.nodes functions o).count = f.extent.flat := by
  simp only [Func.nodes, Nodes.count_append, Slot.count_nodesAll, Nodes.count_ofDeclaration,
    Stmt.count_nodesAll, List.length_map, Func.extent]
  ext <;> simp [Extent.ofDecls, Extent.decl, Extent.flat]
  omega

end FrontEnd.Syntax
