/-
**Call statements.**

An expression can be a statement only if it is a call.  So in the nodes of a file that was written
down, no other expression stands alone.

Main definitions:

* `FrontEnd.Syntax.Nodes.CallsStand` — nodes in which only calls stand alone.

Main results:

* `FrontEnd.Syntax.callsStand_fileNodes` — the nodes of a file;
* `FrontEnd.Program.Realizes.isCall_of_statement` — the program of a file.
-/

import FrontEnd.Proofs.Layout.Ordered
import FrontEnd.Proofs.Printing.Printed

set_option relaxedAutoImplicit false
set_option autoImplicit false

namespace FrontEnd

namespace Syntax

variable {o o' : Extent} {x y : Nodes} {functions : List (String × DeclId)} {v : Sight}

/-! ### Nodes -/

/-- The expression of every call statement is a call. -/
def Nodes.CallsStand (o : Extent) (y : Nodes) : Prop :=
  ∀ id place called, y.statement? o id = some ⟨.call called, place⟩ →
    ∃ e, y.expression? o called = some e ∧ e.isCall = true

namespace Nodes

theorem callsStand_of_no_statements (h : y.statements = []) : y.CallsStand o := by
  intro id place called hs
  rw [statement?, h, itemAt?_nil] at hs
  cases hs

theorem callsStand_ofStatement {form : StmtForm} {place : Position}
    (hform : ∀ called, form ≠ .call called) : (ofStatement form place).CallsStand o := by
  intro id place' called hs
  have heq := (statement?_ofStatement.1 hs).2
  exact absurd (congrArg Statement.form heq) (hform called)

theorem CallsStand.congr (h : y.CallsStand o) (hsame : o.SameNodes o') : y.CallsStand o' := by
  unfold CallsStand at h
  rw [expression?_congr hsame, statement?_congr hsame] at h
  exact h

/-- What is added behind nodes does not disturb their call statements. -/
theorem CallsStand.append (hx : x.CallsStand o) (hy : y.CallsStand o')
    (h : o'.SameNodes (o + x.count)) : (x ++ y).CallsStand o := by
  have hy := hy.congr h
  intro id place called hs
  rcases (statement?_append (.refl _)).1 hs with hs | hs
  · obtain ⟨e, he, hcall⟩ := hx id place called hs
    exact ⟨e, (expression?_append (.refl _)).2 (.inl he), hcall⟩
  · obtain ⟨e, he, hcall⟩ := hy id place called hs
    exact ⟨e, (expression?_append (.refl _)).2 (.inr he), hcall⟩

theorem CallsStand.append_deferIf (h : y.CallsStand o) (ref : Reference) (places : Deferred) :
    (y ++ deferIf ref places).CallsStand o := by
  unfold CallsStand
  rw [expression?_append_deferIf, statement?_append_deferIf]
  exact h

end Nodes

/-! ### Expressions -/

theorem Expr.statements_nodes (e : Expr) : (e.nodes functions v o).statements = [] := by
  have hcount := congrArg Extent.stmts (Expr.count_nodes functions v o e)
  exact List.length_eq_zero_iff.1 hcount

theorem Expr.statements_nodesAll (es : List Expr) :
    (Expr.nodesAll functions v o es).statements = [] := by
  have hcount := congrArg Extent.stmts (Expr.count_nodesAll' functions v o es)
  exact List.length_eq_zero_iff.1 hcount

/-- The last node of a call is the call. -/
theorem Expr.isCall_root {e : Expr} (h : e.isCall = true) :
    ∃ node, (e.nodes functions v o).expression? o (e.root o) = some node ∧ node.isCall = true := by
  cases e with
  | call callee arguments =>
      refine ⟨⟨.call (callee.root o) (Expr.roots (o + .ofExprs callee.size) arguments),
        callee.position, none⟩, ?_, rfl⟩
      rw [Expr.nodes, ← Nodes.append_assoc]
      refine (Nodes.expression?_append (.refl _)).2
        (.inr (Nodes.expression?_ofExpression.2 ⟨?_, rfl⟩))
      rw [Nodes.count_append, Expr.count_nodes, Expr.count_nodesAll', Expr.root]
      simp only [Expr.size, Extent.ofExprs, Extent.add_exprs, ExprId.mk.injEq]
      omega
  | _ => cases h

theorem Expr.callsStand_nodes (e : Expr) : (e.nodes functions v o).CallsStand o :=
  Nodes.callsStand_of_no_statements e.statements_nodes

/-! ### Statements -/

theorem Update.callsStand_nodes (u : Update) : (u.nodes functions v o).CallsStand o := by
  cases u with
  | assign value | add value | subtract value => exact value.callsStand_nodes
  | increment | decrement => exact Nodes.callsStand_of_no_statements rfl

/-- The expression of a call statement is the last node of the call, and that is a call since the
statement can be written down. -/
theorem Simple.callsStand_nodes {s : Simple} (h : s.Formed) (o : Extent) :
    (s.nodes functions v o).CallsStand o := by
  cases s with
  | call place e =>
      obtain ⟨node, hnode, hcall⟩ : ∃ node, (e.nodes functions v o).expression? o (e.root o) =
          some node ∧ node.isCall = true := Expr.isCall_root h.1
      intro id place' called hs
      rcases (Nodes.statement?_append (.refl _)).1 hs with hs | hs
      · obtain ⟨e', he', hcall'⟩ := e.callsStand_nodes id place' called hs
        exact ⟨e', (Nodes.expression?_append (.refl _)).2 (.inl he'), hcall'⟩
      · cases (Nodes.statement?_ofStatement.1 hs).2
        exact ⟨node, (Nodes.expression?_append (.refl _)).2 (.inl hnode), hcall⟩
  | change name update =>
      rw [nodes]
      exact update.callsStand_nodes.append
        ((Nodes.callsStand_ofStatement (by simp)).append_deferIf _ _) (.refl _)

theorem Simple.callsStand_nodes? {s? : Option Simple} (h : ∀ s ∈ s?, s.Formed) (o : Extent) :
    (Simple.nodes? functions v o s?).CallsStand o := by
  cases s? with
  | none => exact Nodes.callsStand_of_no_statements rfl
  | some s => exact Simple.callsStand_nodes (h s rfl) o

namespace Stmt

theorem FormedAll.formed {xs : List Stmt} (h : FormedAll xs) : ∀ x ∈ xs, x.Formed := by
  induction xs with
  | nil => simp
  | cons x xs ih => exact List.forall_mem_cons.2 ⟨h.1, ih h.2.2⟩

theorem callsStand_nodesAll_of_forall (xs : List Stmt)
    (hxs : ∀ x ∈ xs, ∀ v o, (x.nodes functions v o).CallsStand o) (v : Sight) (o : Extent) :
    (nodesAll functions v o xs).CallsStand o := by
  induction xs generalizing v o with
  | nil => exact Nodes.callsStand_of_no_statements rfl
  | cons x xs ih =>
      have hrest := ih fun y hy => hxs y (List.mem_cons_of_mem x hy)
      exact (hxs x List.mem_cons_self v o).append (hrest _ _)
        (by simp [Extent.SameNodes, count_nodes])

/-- In a statement that can be written down only calls stand alone. -/
theorem callsStand_nodes {s : Stmt} (h : s.Formed) (v : Sight) (o : Extent) :
    (s.nodes functions v o).CallsStand o := by
  induction s generalizing v o with
  | declare place name type =>
      rw [nodes]
      exact (Nodes.callsStand_of_no_statements rfl).append
        ((Nodes.callsStand_ofStatement (by simp)).append_deferIf _ _) (.refl _)
  | simple s => exact Simple.callsStand_nodes h o
  | branch place condition thenBlock ih =>
      have hthen := callsStand_nodesAll_of_forall thenBlock fun x hx => ih x hx (h.2.formed x hx)
      rw [nodes]
      refine condition.callsStand_nodes.append ((hthen _ _).append
        (Nodes.callsStand_ofStatement (by simp)) (.refl _)) ?_
      simp [Extent.SameNodes]
  | branchElse place condition thenBlock elseBlock ihThen ihElse =>
      have hthen := callsStand_nodesAll_of_forall thenBlock fun x hx =>
        ihThen x hx (h.2.1.formed x hx)
      have helse := callsStand_nodesAll_of_forall elseBlock fun x hx =>
        ihElse x hx (h.2.2.formed x hx)
      rw [nodes]
      refine condition.callsStand_nodes.append ((hthen _ _).append ((helse _ _).append
        (Nodes.callsStand_ofStatement (by simp)) (.refl _)) ?_) ?_
      · simp [Extent.SameNodes, count_nodesAll, Extent.add_assoc]
      · simp [Extent.SameNodes]
  | whileLoop place condition body ih =>
      have hbody := callsStand_nodesAll_of_forall body fun x hx => ih x hx (h.2.formed x hx)
      rw [nodes]
      refine condition.callsStand_nodes.append ((hbody _ _).append
        (Nodes.callsStand_ofStatement (by simp)) (.refl _)) ?_
      simp [Extent.SameNodes]
  | forLoop place init? condition action? body ih =>
      have hbody := callsStand_nodesAll_of_forall body fun x hx => ih x hx (h.2.2.2.formed x hx)
      rw [nodes]
      refine (Simple.callsStand_nodes? h.1 o).append (condition.callsStand_nodes.append
        ((Simple.callsStand_nodes? h.2.2.1 _).append ((hbody _ _).append
          (Nodes.callsStand_ofStatement (by simp)) (.refl _)) ?_) ?_) ?_
      · simp [Extent.SameNodes]
      · simp [Extent.SameNodes]
      · simp [Extent.SameNodes]
  | result place values =>
      rw [nodes]
      exact (Nodes.callsStand_of_no_statements (Expr.statements_nodesAll values)).append
        (Nodes.callsStand_ofStatement (by simp)) (.refl _)

end Stmt

/-! ### Functions and files -/

theorem Slot.callsStand_nodesAll (scope : ScopeId) (slots : List Slot) (o : Extent) :
    (nodesAll scope o slots).CallsStand o := by
  induction slots generalizing o with
  | nil => exact Nodes.callsStand_of_no_statements rfl
  | cons slot slots ih =>
      have hslot : (slot.nodes scope o).CallsStand o := by
        rw [nodes]
        exact (Nodes.callsStand_of_no_statements rfl).append_deferIf _ _
      exact hslot.append (ih _) (by simp [Extent.SameNodes])

theorem Func.callsStand_nodes {f : Func} (h : f.Formed) (o : Extent) :
    (f.nodes functions o).CallsStand o := by
  have hparameters := Slot.callsStand_nodesAll ⟨o.scopes⟩ (f.parameters.map Param.slot) (o + .scope)
  have hresults := Slot.callsStand_nodesAll ⟨o.scopes⟩ (f.results.map Name.slot) (f.resultsAt o)
  have hbody : (Stmt.nodesAll functions (f.sight o) (f.bodyAt o) f.body).CallsStand (f.bodyAt o) :=
    Stmt.callsStand_nodesAll_of_forall f.body
      (fun s hs => Stmt.callsStand_nodes (Stmt.FormedAll.formed h s hs)) _ _
  have hfunc : (Nodes.ofDeclaration (.func (f.header o))).CallsStand
      (f.resultsAt o + .ofDecls f.results.length) := Nodes.callsStand_of_no_statements rfl
  refine Nodes.CallsStand.congr (o := o + .scope) ?_ ?_
  · refine hparameters.append (hresults.append (hfunc.append hbody (.refl _)) ?_) ?_
    · simp [Extent.SameNodes]
    · simp [Extent.SameNodes, Func.resultsAt]
  · simp [Extent.SameNodes]

/-- **In a file that can be written down only calls stand alone.** -/
theorem callsStand_fileNodes {fs : List Func} (h : ∀ f ∈ fs, f.Formed) (o : Extent) :
    (fileNodes functions o fs).CallsStand o := by
  induction fs generalizing o with
  | nil => exact Nodes.callsStand_of_no_statements rfl
  | cons f fs ih =>
      obtain ⟨hf, hfs⟩ := List.forall_mem_cons.1 h
      exact (Func.callsStand_nodes hf o).append (ih hfs _)
        (by simp [Extent.SameNodes, Func.count_nodes])

end Syntax

/-! ### Programs -/

open Syntax

/-- **Only calls stand alone** in the program of a file that was written down. -/
theorem Program.Realizes.isCall_of_statement {p : Program} {fs : List Func} (h : p.Realizes fs)
    (hformed : ∀ f ∈ fs, f.Formed) {id : StmtId} {place : Position} {called : ExprId}
    (hs : p.statement? id = some ⟨.call called, place⟩) :
    ∃ callee arguments, p.form? called = some (.call callee arguments) := by
  obtain ⟨e, he, hcall⟩ :=
    callsStand_fileNodes hformed start id place called (h.statement?_iff.1 hs)
  obtain ⟨form, position, types?⟩ := e
  cases form with
  | call callee arguments => exact ⟨callee, arguments, form?_eq (h.expression?_iff.2 he)⟩
  | _ => cases hcall

end FrontEnd
