/-
**Properties of nodes.**

Many things that are true of a tree are true because they are true of each of its nodes where it
stands, and of what is listed with it.  Such a property is shown for the sorts of nodes there are;
that the nodes of a tree are made of these, parts before wholes, is told once and for all.

Main definitions:

* `FrontEnd.Syntax.Nodewise` — properties that pass from nodes to trees.

Main results:

* `FrontEnd.Syntax.Nodewise.fileNodes`, `FrontEnd.Syntax.Nodewise.earlyNodes` — they hold of files.
-/

import FrontEnd.Proofs.Layout.Places
import FrontEnd.Proofs.Parts

set_option relaxedAutoImplicit false
set_option autoImplicit false

namespace FrontEnd

namespace Syntax

/-- A property of nodes behind nodes of some extent that holds of trees if it holds of the nodes
they are made of: literals, names, wholes behind their parts, statements, changes and declarations
of variables, parameters and results, and functions. -/
structure Nodewise (P : Extent → Nodes → Prop) : Prop where
  empty : ∀ o, P o {}
  congr : ∀ {o o' y}, P o y → o.SameNodes o' → P o' y
  append : ∀ {o x y}, P o x → P (o + x.count) y → P o (x ++ y)
  literal : ∀ o (value : Literal) place, P o (.ofExpression
    { form := value.form, position := place, types? := some [value.type.declaration] })
  name : ∀ o text ref place,
    P o (.ofExpression { form := .identifier text ref, position := place } ++
      .deferIf ref { identifiers := [⟨o.exprs⟩] })
  whole : ∀ o (form : ExprForm) place, form.parts ≠ [] → (∀ id ∈ form.parts, id.index < o.exprs) →
    P o (.ofExpression { form, position := place })
  statement : ∀ o (form : StmtForm) place, (∀ decl, form ≠ .declare decl) →
    (∀ ref change, form ≠ .change ref change) → (∀ id ∈ form.parts, id.index < o.stmts) →
      P o (.ofStatement form place)
  change : ∀ o ref change place, P o (.ofStatement (.change ref change) place ++
    .deferIf ref { statements := [⟨o.stmts⟩] })
  declare : ∀ o name? p place scope type,
    P o (.ofDeclaration (.var ⟨name?, p, Sight.type scope type⟩) ++
      (.ofStatement (.declare ⟨o.decls⟩) place ++
        .deferIf (Sight.type scope type) { statements := [⟨o.stmts⟩] }))
  slot : ∀ o scope (slot : Slot), P o (slot.nodes scope o)
  func : ∀ o f, P o (.ofDeclaration (.func f))

/-! ### Numbers of wholes -/

variable {functions : List (String × DeclId)} {v : Sight} {P : Extent → Nodes → Prop}

theorem Expr.root_lt (e : Expr) (o : Extent) : (e.root o).index < o.exprs + e.size := by
  have hpos := e.size_pos
  change o.exprs + e.size - 1 < o.exprs + e.size
  omega

/-- The nodes of whole expressions are below the end of their list. -/
theorem Expr.roots_lt (es : List Expr) (o : Extent) :
    ∀ id ∈ Expr.roots o es, id.index < o.exprs + Expr.sizes es := by
  induction es generalizing o with
  | nil => simp [Expr.roots]
  | cons e es ih =>
      intro id hid
      rw [Expr.sizes]
      rcases List.mem_cons.1 hid with rfl | hid
      · have hlt := e.root_lt o
        omega
      · have hlt := ih _ id hid
        simp only [Extent.add_exprs, Extent.ofExprs] at hlt
        omega

theorem Stmt.stmts_pos (s : Stmt) : 0 < s.extent.stmts := by
  cases s with
  | simple s => cases s <;> simp [Stmt.extent, Simple.extent, Extent.stmt]
  | branch place condition thenBlock elseBlock? =>
      cases elseBlock? <;> simp [Stmt.extent, Extent.stmt]
  | _ => simp [Stmt.extent, Extent.stmt]

/-- The nodes of whole statements are below the end of their list. -/
theorem Stmt.roots_lt (xs : List Stmt) (o : Extent) :
    ∀ id ∈ Stmt.roots o xs, id.index < o.stmts + (Stmt.extents xs).stmts := by
  induction xs generalizing o with
  | nil => simp [Stmt.roots]
  | cons x xs ih =>
      intro id hid
      have hpos := x.stmts_pos
      rw [Stmt.extents, Extent.add_stmts]
      rcases List.mem_cons.1 hid with rfl | hid
      · rw [Stmt.root]
        change o.stmts + x.extent.stmts - 1 < _
        omega
      · have hlt := ih _ id hid
        simp only [Extent.add_stmts] at hlt
        omega

theorem Simple.root?_lt (s? : Option Simple) (o : Extent) :
    ∀ id ∈ (Simple.root? o s?).toList, id.index < o.stmts + (Simple.extent? s?).stmts := by
  intro id hid
  cases s? with
  | none => simp [Simple.root?] at hid
  | some s =>
      obtain rfl : id = Simple.root o := by simpa [Simple.root?] using hid
      have hstmts : s.extent.stmts = 1 := by
        cases s <;> rfl
      change o.stmts < o.stmts + s.extent.stmts
      omega

namespace Nodewise

/-- What stands behind may be told to stand elsewhere, apart from scopes. -/
theorem append_of (hP : Nodewise P) {o o' : Extent} {x y : Nodes} (hx : P o x) (hy : P o' y)
    (h : o'.SameNodes (o + x.count)) : P o (x ++ y) := hP.append hx (hP.congr hy h)

/-! ### Expressions -/

theorem exprNodesAll_of_forall (hP : Nodewise P) (es : List Expr)
    (hes : ∀ e ∈ es, ∀ o, P o (e.nodes functions v o)) (o : Extent) :
    P o (Expr.nodesAll functions v o es) := by
  induction es generalizing o with
  | nil => exact hP.empty o
  | cons e es ih =>
      have hrest := ih fun e' he' => hes e' (List.mem_cons_of_mem e he')
      refine hP.append_of (hes e List.mem_cons_self o) (hrest _) ?_
      simp [Extent.SameNodes]

/-- A nodewise property holds of an expression, by induction on the tree. -/
theorem exprNodes (hP : Nodewise P) (e : Expr) (o : Extent) : P o (e.nodes functions v o) := by
  induction e generalizing o with
  | literal value place => exact hP.literal o value place
  | name n => exact hP.name o _ _ _
  | not place operand ih =>
      refine hP.append (ih o) (hP.whole _ _ _ (by simp [ExprForm.parts]) fun id hid => ?_)
      obtain rfl := List.mem_singleton.1 hid
      simpa [Extent.ofExprs] using operand.root_lt o
  | binary operator place left right ihLeft ihRight =>
      have hright := hP.append (ihRight (o + .ofExprs left.size)) (hP.whole _
        (.binary operator (left.root o) (right.root (o + .ofExprs left.size))) place
          (by simp [ExprForm.parts]) fun id hid => ?_)
      · exact hP.append_of (ihLeft o) hright (by simp [Extent.SameNodes])
      · have hleft := left.root_lt o
        have hright := right.root_lt (o + .ofExprs left.size)
        simp only [Extent.ofExprs, Extent.add_exprs, Expr.count_nodes] at hright ⊢
        rcases List.mem_cons.1 hid with rfl | hid
        · omega
        · obtain rfl := List.mem_singleton.1 hid
          exact hright
  | call callee arguments ihCallee ihArguments =>
      have hall := hP.exprNodesAll_of_forall arguments ihArguments (o + .ofExprs callee.size)
      have harguments := hP.append hall (hP.whole _
        (.call (callee.root o) (Expr.roots (o + .ofExprs callee.size) arguments)) callee.position
          (by simp [ExprForm.parts]) fun id hid => ?_)
      · exact hP.append_of (ihCallee o) harguments (by simp [Extent.SameNodes])
      · have hcallee := callee.root_lt o
        rw [Expr.count_nodesAll']
        simp only [Extent.ofExprs, Extent.add_exprs]
        rcases List.mem_cons.1 hid with rfl | hid
        · omega
        · exact Expr.roots_lt arguments _ id hid

theorem exprNodesAll (hP : Nodewise P) (es : List Expr) (o : Extent) :
    P o (Expr.nodesAll functions v o es) :=
  hP.exprNodesAll_of_forall es (fun e _ o => hP.exprNodes e o) o

/-! ### Statements -/

theorem updateNodes (hP : Nodewise P) (u : Update) (o : Extent) : P o (u.nodes functions v o) := by
  cases u with
  | assign value | add value | subtract value => exact hP.exprNodes value o
  | increment | decrement => exact hP.empty o

/-- A nodewise property holds of a statement without blocks. -/
theorem simpleNodes (hP : Nodewise P) (s : Simple) (o : Extent) : P o (s.nodes functions v o) := by
  cases s with
  | call place e =>
      exact hP.append (hP.exprNodes e o) (hP.statement _ _ _ (by simp) (by simp)
        (by simp [StmtForm.parts]))
  | change name update =>
      have hchange := hP.change (o + .ofExprs update.size) (v.target name) (update.change o)
        name.position
      refine hP.append_of (hP.updateNodes update o) hchange ?_
      rw [Update.count_nodes]
      exact Extent.SameNodes.refl _

theorem simpleNodes? (hP : Nodewise P) (s? : Option Simple) (o : Extent) :
    P o (Simple.nodes? functions v o s?) := by
  cases s? with
  | none => exact hP.empty o
  | some s => exact hP.simpleNodes s o

theorem stmtNodesAll_of_forall (hP : Nodewise P) (xs : List Stmt)
    (hxs : ∀ x ∈ xs, ∀ v o, P o (x.nodes functions v o)) (v : Sight) (o : Extent) :
    P o (Stmt.nodesAll functions v o xs) := by
  induction xs generalizing v o with
  | nil => exact hP.empty o
  | cons x xs ih =>
      have hrest := ih fun y hy => hxs y (List.mem_cons_of_mem x hy)
      refine hP.append_of (hxs x List.mem_cons_self v o) (hrest _ _) ?_
      simp [Extent.SameNodes, Stmt.count_nodes]

/-- A nodewise property holds of a statement, by induction on the tree. -/
theorem stmtNodes (hP : Nodewise P) (s : Stmt) (v : Sight) (o : Extent) :
    P o (s.nodes functions v o) := by
  induction s generalizing v o with
  | declare place name type => exact hP.declare o _ _ _ _ _
  | simple s => exact hP.simpleNodes s o
  | branch place condition thenBlock ih =>
      have hthen := hP.stmtNodesAll_of_forall thenBlock ih (v.enter (o + .ofExprs condition.size))
        (o + .ofExprs condition.size + .scope)
      refine hP.append_of (hP.exprNodes condition o) (hP.append hthen
        (hP.statement _ _ _ (by simp) (by simp) fun id hid => ?_)) (by simp [Extent.SameNodes])
      have hid' : id ∈ (Stmt.block (o + .ofExprs condition.size) thenBlock).statements := by
        simpa [StmtForm.parts] using hid
      have hlt := Stmt.roots_lt thenBlock _ id hid'
      simpa [Stmt.count_nodesAll, Extent.flat] using hlt
  | branchElse place condition thenBlock elseBlock ihThen ihElse =>
      have hthen := hP.stmtNodesAll_of_forall thenBlock ihThen
        (v.enter (o + .ofExprs condition.size)) (o + .ofExprs condition.size + .scope)
      have helse := hP.stmtNodesAll_of_forall elseBlock ihElse
        (v.enter (o + .ofExprs condition.size + (.scope + Stmt.extents thenBlock)))
        (o + .ofExprs condition.size + (.scope + Stmt.extents thenBlock) + .scope)
      refine hP.append_of (hP.exprNodes condition o) (hP.append_of hthen (hP.append helse
        (hP.statement _ _ _ (by simp) (by simp) fun id hid => ?_)) ?_) ?_
      · rcases List.mem_append.1 hid with hid | hid
        · have hlt := Stmt.roots_lt thenBlock _ id hid
          simp only [Extent.add_stmts, Stmt.count_nodesAll, Extent.flat, Extent.scope,
            Extent.ofExprs] at hlt ⊢
          omega
        · have hlt := Stmt.roots_lt elseBlock _ id hid
          simpa [Stmt.count_nodesAll, Extent.flat] using hlt
      · simp [Extent.SameNodes, Stmt.count_nodesAll, Extent.add_assoc]
      · simp [Extent.SameNodes]
  | whileLoop place condition body ih =>
      have hbody := hP.stmtNodesAll_of_forall body ih (v.enter (o + .ofExprs condition.size))
        (o + .ofExprs condition.size + .scope)
      refine hP.append_of (hP.exprNodes condition o) (hP.append hbody
        (hP.statement _ _ _ (by simp) (by simp) fun id hid => ?_)) (by simp [Extent.SameNodes])
      have hlt := Stmt.roots_lt body _ id hid
      simpa [Stmt.count_nodesAll, Extent.flat] using hlt
  | forLoop place init? condition action? body ih =>
      have hbody := hP.stmtNodesAll_of_forall body ih
        (v.enter (o + Simple.extent? init? + .ofExprs condition.size + Simple.extent? action?))
        (o + Simple.extent? init? + .ofExprs condition.size + Simple.extent? action? + .scope)
      refine hP.append_of (hP.simpleNodes? init? o) (hP.append_of (hP.exprNodes condition _)
        (hP.append_of (hP.simpleNodes? action? _) (hP.append hbody
          (hP.statement _ _ _ (by simp) (by simp) fun id hid => ?_)) ?_) ?_) ?_
      · rcases List.mem_append.1 hid with hid | hid
        · have hlt := Simple.root?_lt init? o id hid
          simp only [Extent.add_stmts, Stmt.count_nodesAll, Extent.flat]
          omega
        · rcases List.mem_append.1 hid with hid | hid
          · have hlt := Simple.root?_lt action? _ id hid
            simp only [Extent.add_stmts, Stmt.count_nodesAll, Extent.flat] at hlt ⊢
            omega
          · have hlt := Stmt.roots_lt body _ id hid
            simpa [Stmt.count_nodesAll, Extent.flat] using hlt
      · simp [Extent.SameNodes]
      · simp [Extent.SameNodes]
      · simp [Extent.SameNodes]
  | result place values =>
      exact hP.append (hP.exprNodesAll values o) (hP.statement _ _ _ (by simp) (by simp)
        (by simp [StmtForm.parts]))

theorem stmtNodesAll (hP : Nodewise P) (xs : List Stmt) (v : Sight) (o : Extent) :
    P o (Stmt.nodesAll functions v o xs) :=
  hP.stmtNodesAll_of_forall xs (fun x _ v o => hP.stmtNodes x v o) v o

/-! ### Functions and files -/

theorem slotNodesAll (hP : Nodewise P) (scope : ScopeId) (slots : List Slot) (o : Extent) :
    P o (Slot.nodesAll scope o slots) := by
  induction slots generalizing o with
  | nil => exact hP.empty o
  | cons slot slots ih =>
      refine hP.append_of (hP.slot o scope slot) (ih _) ?_
      simp [Extent.SameNodes]

/-- A nodewise property holds of a function: its slots, its body, and its declaration behind
them. -/
theorem funcNodes (hP : Nodewise P) (f : Func) (o : Extent) : P o (f.nodes functions o) := by
  have hparameters := hP.slotNodesAll ⟨o.scopes⟩ (f.parameters.map Param.slot) (o + .scope)
  have hresults := hP.slotNodesAll ⟨o.scopes⟩ (f.results.map Name.slot) (f.resultsAt o)
  have hbody : P (f.bodyAt o) (Stmt.nodesAll functions (f.sight o) (f.bodyAt o) f.body) :=
    hP.stmtNodesAll f.body (f.sight o) (f.bodyAt o)
  -- entering the function makes a scope and no node
  refine hP.congr (o := o + .scope) ?_ ?_
  · refine hP.append_of hparameters (hP.append_of hresults
      (hP.append_of (hP.func _ (f.header o)) hbody (.refl _)) ?_) ?_
    · simp [Extent.SameNodes]
    · simp [Extent.SameNodes, Func.resultsAt]
  · simp [Extent.SameNodes]

/-- **What holds of nodes holds of files** in which every function can name the given ones. -/
theorem fileNodes (hP : Nodewise P) (fs : List Func) (o : Extent) :
    P o (Syntax.fileNodes functions o fs) := by
  induction fs generalizing o with
  | nil => exact hP.empty o
  | cons f fs ih =>
      refine hP.append_of (hP.funcNodes f o) (ih _) ?_
      simp [Extent.SameNodes, Func.count_nodes]

/-- **What holds of nodes holds of files** in which a function can name those before it. -/
theorem earlyNodes (hP : Nodewise P) (fs : List Func) (o : Extent)
    (functions : List (String × DeclId)) : P o (Syntax.earlyNodes o functions fs) := by
  induction fs generalizing o functions with
  | nil => exact hP.empty o
  | cons f fs ih =>
      refine hP.append_of (hP.funcNodes f o) (ih _ _) ?_
      simp [Extent.SameNodes, Func.count_nodes]

end Nodewise

end Syntax

end FrontEnd
