/-
**Every node has one owner.**

The nodes of a tree are used where the tree has them: an expression as a part of one other or in
one statement, a statement in one other or in the body of one function, a variable behind one
parameter or result or in one declaration.  Counting says so for all nodes at once.  What is made of
two pieces is counted by adding up, and a whole behind its parts uses up what was not used in them.

Main definitions:

* `FrontEnd.Syntax.Nodes.expressionUses` and the like — the places where nodes are used;
* `FrontEnd.Syntax.Nodes.Owned` — nodes that are used once, apart from the given ones.

Main results:

* `FrontEnd.Syntax.Nodes.Owned.append`, `FrontEnd.Syntax.Nodes.Owned.whole`,
  `FrontEnd.Syntax.Nodes.Owned.statement`, `FrontEnd.Syntax.Nodes.Owned.func` — the ways to put
  nodes together;
* `FrontEnd.Syntax.owned_fileNodes`, `FrontEnd.Syntax.owned_earlyNodes` — the nodes of files.
-/

import FrontEnd.Proofs.Layout.Nodewise

set_option relaxedAutoImplicit false
set_option autoImplicit false

namespace FrontEnd

/-! ### Uses -/

namespace Declaration

/-- The statements of the body, of a function. -/
def body : Declaration → List StmtId
  | func f => f.body
  | var _ | type _ => []

/-- The variables behind the parameters and results, of a function. -/
def slots : Declaration → List DeclId
  | func f => (f.parameters ++ f.results).map Field.decl
  | var _ | type _ => []

end Declaration

/-- The variable that a statement declares. -/
def StmtForm.declared : StmtForm → List DeclId
  | declare decl => [decl]
  | change _ _ | call _ | branch _ _ _ | whileLoop _ _ | forLoop _ _ _ _ | result _ => []

/-- How often something is found that satisfies a condition: once or not at all. -/
def once {α : Type} (q : α → Bool) (x? : Option α) : Nat := if x?.any q then 1 else 0

@[simp] theorem once_none {α : Type} (q : α → Bool) : once q none = 0 := rfl

@[simp] theorem once_some {α : Type} (q : α → Bool) (a : α) :
    once q (some a) = if q a then 1 else 0 := rfl

namespace Syntax

variable {o o' : Extent} {x y : Nodes} {heads heads' : List ExprId} {tops tops' : List StmtId}
  {slots slots' funcs funcs' : List DeclId} {functions : List (String × DeclId)} {v : Sight}

theorem mem_of_itemAt? {α : Type} {start i : Nat} {xs : List α} {a : α}
    (h : itemAt? start xs i = some a) : a ∈ xs := by
  unfold itemAt? at h
  split at h
  · exact List.mem_of_getElem? h
  · cases h

/-- How often something is found in a list is a matter of its two halves. -/
theorem once_itemAt?_append {α : Type} (q : α → Bool) (start i : Nat) (xs ys : List α) :
    once q (itemAt? start (xs ++ ys) i) =
      once q (itemAt? start xs i) + once q (itemAt? (start + xs.length) ys i) := by
  rw [itemAt?_append]
  cases hxs : itemAt? start xs i with
  | none => rw [Option.none_or, once_none, Nat.zero_add]
  | some a =>
      cases hys : itemAt? (start + xs.length) ys i with
      | none => rfl
      | some b =>
          have hlt := (bounds_of_itemAt? hxs).2
          have hle := (bounds_of_itemAt? hys).1
          omega

theorem once_itemAt?_singleton {α : Type} (q : α → Bool) (start i : Nat) (a : α) :
    once q (itemAt? start [a] i) = if start = i ∧ q a then 1 else 0 := by
  cases hi : itemAt? start [a] i with
  | none =>
      have hne : start ≠ i := by
        rintro rfl
        rw [itemAt?_singleton_eq_some_iff.2 ⟨rfl, rfl⟩] at hi
        cases hi
      simp [hne]
  | some b =>
      obtain ⟨rfl, rfl⟩ := itemAt?_singleton_eq_some_iff.1 hi
      simp

namespace Nodes

/-- The places where expressions are used: the parts of expressions, and the statements. -/
def expressionUses (y : Nodes) : List ExprId :=
  y.expressions.flatMap (·.form.parts) ++ y.statements.flatMap (·.form.expressions)

def statementUses (y : Nodes) : List StmtId :=
  y.declarations.flatMap Declaration.body ++ y.statements.flatMap (·.form.parts)

def variableUses (y : Nodes) : List DeclId :=
  y.declarations.flatMap Declaration.slots ++ y.statements.flatMap (·.form.declared)

theorem count_expressionUses_append (x y : Nodes) (id : ExprId) :
    (x ++ y).expressionUses.count id = x.expressionUses.count id + y.expressionUses.count id := by
  simp only [expressionUses, append_expressions, append_statements, List.flatMap_append,
    List.count_append]
  omega

theorem count_statementUses_append (x y : Nodes) (id : StmtId) :
    (x ++ y).statementUses.count id = x.statementUses.count id + y.statementUses.count id := by
  simp only [statementUses, append_declarations, append_statements, List.flatMap_append,
    List.count_append]
  omega

theorem count_variableUses_append (x y : Nodes) (id : DeclId) :
    (x ++ y).variableUses.count id = x.variableUses.count id + y.variableUses.count id := by
  simp only [variableUses, append_declarations, append_statements, List.flatMap_append,
    List.count_append]
  omega

theorem once_expression?_append (x y : Nodes) (id : ExprId) (q : Expression → Bool) :
    once q ((x ++ y).expression? o id) =
      once q (x.expression? o id) + once q (y.expression? (o + x.count) id) :=
  once_itemAt?_append q _ _ _ _

theorem once_statement?_append (x y : Nodes) (id : StmtId) (q : Statement → Bool) :
    once q ((x ++ y).statement? o id) =
      once q (x.statement? o id) + once q (y.statement? (o + x.count) id) :=
  once_itemAt?_append q _ _ _ _

theorem once_declaration?_append (x y : Nodes) (id : DeclId) (q : Declaration → Bool) :
    once q ((x ++ y).declaration? o id) =
      once q (x.declaration? o id) + once q (y.declaration? (o + x.count) id) :=
  once_itemAt?_append q _ _ _ _

@[simp] theorem expressionUses_ofExpression (e : Expression) :
    (ofExpression e).expressionUses = e.form.parts := by
  simp [expressionUses, ofExpression]

@[simp] theorem statementUses_ofExpression (e : Expression) :
    (ofExpression e).statementUses = [] := rfl

@[simp] theorem variableUses_ofExpression (e : Expression) :
    (ofExpression e).variableUses = [] := rfl

@[simp] theorem expressionUses_ofStatement (form : StmtForm) (place : Position) :
    (ofStatement form place).expressionUses = form.expressions := by
  simp [expressionUses, ofStatement]

@[simp] theorem statementUses_ofStatement (form : StmtForm) (place : Position) :
    (ofStatement form place).statementUses = form.parts := by
  simp [statementUses, ofStatement]

@[simp] theorem variableUses_ofStatement (form : StmtForm) (place : Position) :
    (ofStatement form place).variableUses = form.declared := by
  simp [variableUses, ofStatement]

@[simp] theorem expressionUses_ofDeclaration (d : Declaration) :
    (ofDeclaration d).expressionUses = [] := rfl

@[simp] theorem statementUses_ofDeclaration (d : Declaration) :
    (ofDeclaration d).statementUses = d.body := by
  simp [statementUses, ofDeclaration]

@[simp] theorem variableUses_ofDeclaration (d : Declaration) :
    (ofDeclaration d).variableUses = d.slots := by
  simp [variableUses, ofDeclaration]

@[simp] theorem once_ofExpression (e : Expression) (id : ExprId) :
    once (fun _ => true) ((ofExpression e).expression? o id) = [⟨o.exprs⟩].count id := by
  obtain ⟨i⟩ := id
  simp [expression?, ofExpression, once_itemAt?_singleton, List.count_singleton]

@[simp] theorem once_ofStatement (form : StmtForm) (place : Position) (id : StmtId) :
    once (fun _ => true) ((ofStatement form place).statement? o id) = [⟨o.stmts⟩].count id := by
  obtain ⟨i⟩ := id
  simp [statement?, ofStatement, once_itemAt?_singleton, List.count_singleton]

@[simp] theorem once_ofDeclaration (d : Declaration) (kind : DeclKind) (id : DeclId) :
    once (·.kind == kind) ((ofDeclaration d).declaration? o id) =
      if d.kind = kind then [⟨o.decls⟩].count id else 0 := by
  obtain ⟨i⟩ := id
  by_cases hkind : d.kind = kind <;>
    simp [declaration?, ofDeclaration, once_itemAt?_singleton, List.count_singleton, hkind]

/-! ### Owned nodes -/

/-- Every expression, every statement and every variable is used once, if it is used once more for
being among the given ones.  The functions are the given ones.  What stands in a list together has
increasing numbers. -/
structure Owned (o : Extent) (y : Nodes) (heads : List ExprId) (tops : List StmtId)
    (slots funcs : List DeclId) : Prop where
  expressions : ∀ id,
    heads.count id + y.expressionUses.count id = once (fun _ => true) (y.expression? o id)
  statements : ∀ id,
    tops.count id + y.statementUses.count id = once (fun _ => true) (y.statement? o id)
  vars : ∀ id,
    slots.count id + y.variableUses.count id = once (·.kind == .var) (y.declaration? o id)
  functions : ∀ id, funcs.count id = once (·.kind == .func) (y.declaration? o id)
  tops : tops.Pairwise (·.index < ·.index)
  funcs : funcs.Pairwise (·.index < ·.index)
  parts : ∀ s ∈ y.statements, s.form.parts.Pairwise (·.index < ·.index)
  bodies : ∀ d ∈ y.declarations, d.body.Pairwise (·.index < ·.index)

/-- A list of places has no nodes. -/
theorem owned_deferred (o : Extent) (places : Deferred) :
    ({ deferred := places } : Nodes).Owned o [] [] [] [] := by
  constructor <;>
    simp [expressionUses, statementUses, variableUses, expression?, statement?, declaration?]

theorem owned_empty (o : Extent) : ({} : Nodes).Owned o [] [] [] [] := owned_deferred o {}

theorem Owned.congr (h : y.Owned o heads tops slots funcs) (hsame : o.SameNodes o') :
    y.Owned o' heads tops slots funcs := by
  obtain ⟨expressions, statements, vars, functions, htops, hfuncs, parts, bodies⟩ := h
  rw [expression?_congr hsame] at expressions
  rw [statement?_congr hsame] at statements
  rw [declaration?_congr hsame] at vars functions
  exact ⟨expressions, statements, vars, functions, htops, hfuncs, parts, bodies⟩

/-- The given statements have numbers of the nodes. -/
theorem Owned.bounds_of_mem_tops (h : y.Owned o heads tops slots funcs) {id : StmtId}
    (hid : id ∈ tops) : o.stmts ≤ id.index ∧ id.index < o.stmts + y.statements.length := by
  have hcount := h.statements id
  have hpos := List.count_pos_iff.2 hid
  cases hs : y.statement? o id with
  | none =>
      rw [hs, once_none] at hcount
      omega
  | some s => exact bounds_of_itemAt? hs

/-- The given functions have numbers of the nodes. -/
theorem Owned.bounds_of_mem_funcs (h : y.Owned o heads tops slots funcs) {id : DeclId}
    (hid : id ∈ funcs) : o.decls ≤ id.index ∧ id.index < o.decls + y.declarations.length := by
  have hcount := h.functions id
  have hpos := List.count_pos_iff.2 hid
  cases hd : y.declaration? o id with
  | none =>
      rw [hd, once_none] at hcount
      omega
  | some d => exact bounds_of_itemAt? hd

/-- The uses of two runs of nodes add up, and what is left for a later owner is left together. -/
theorem Owned.append (hx : x.Owned o heads tops slots funcs)
    (hy : y.Owned o' heads' tops' slots' funcs') (h : o'.SameNodes (o + x.count)) :
    (x ++ y).Owned o (heads ++ heads') (tops ++ tops') (slots ++ slots') (funcs ++ funcs') := by
  have hy := hy.congr h
  constructor
  · intro id
    have hx := hx.expressions id
    have hy := hy.expressions id
    rw [List.count_append, count_expressionUses_append, once_expression?_append]
    omega
  · intro id
    have hx := hx.statements id
    have hy := hy.statements id
    rw [List.count_append, count_statementUses_append, once_statement?_append]
    omega
  · intro id
    have hx := hx.vars id
    have hy := hy.vars id
    rw [List.count_append, count_variableUses_append, once_declaration?_append]
    omega
  · intro id
    rw [List.count_append, hx.functions, hy.functions, once_declaration?_append]
  · refine List.pairwise_append.2 ⟨hx.tops, hy.tops, ?_⟩
    intro a ha b hb
    exact Nat.lt_of_lt_of_le (hx.bounds_of_mem_tops ha).2 (hy.bounds_of_mem_tops hb).1
  · refine List.pairwise_append.2 ⟨hx.funcs, hy.funcs, ?_⟩
    intro a ha b hb
    exact Nat.lt_of_lt_of_le (hx.bounds_of_mem_funcs ha).2 (hy.bounds_of_mem_funcs hb).1
  · exact List.forall_mem_append.2 ⟨hx.parts, hy.parts⟩
  · exact List.forall_mem_append.2 ⟨hx.bodies, hy.bodies⟩

theorem Owned.append_deferIf (h : y.Owned o heads tops slots funcs) (ref : Reference)
    (places : Deferred) : (y ++ deferIf ref places).Owned o heads tops slots funcs := by
  have hnone : (deferIf ref places).Owned (o + y.count) [] [] [] [] := by
    cases ref <;> exact owned_deferred _ _
  have hboth := h.append hnone (.refl _)
  simpa only [List.append_nil] using hboth

/-- An expression uses up its parts. -/
theorem Owned.whole {e : Expression} (h : x.Owned o heads tops slots funcs) {root : ExprId}
    (hroot : root = ⟨(o + x.count).exprs⟩) (hheads : e.form.parts = heads) :
    (x ++ ofExpression e).Owned o [root] tops slots funcs := by
  subst hroot hheads
  constructor
  · intro id
    have hx := h.expressions id
    rw [count_expressionUses_append, once_expression?_append, once_ofExpression,
      expressionUses_ofExpression]
    omega
  · intro id
    have hx := h.statements id
    rw [count_statementUses_append, once_statement?_append]
    simpa using hx
  · intro id
    have hx := h.vars id
    rw [count_variableUses_append, once_declaration?_append]
    simpa using hx
  · intro id
    have hx := h.functions id
    rw [once_declaration?_append]
    simpa using hx
  · exact h.tops
  · exact h.funcs
  · simpa [ofExpression] using h.parts
  · simpa [ofExpression] using h.bodies

/-- A statement uses up its parts, the expressions in it and the variable that it declares. -/
theorem Owned.statement {form : StmtForm} {place : Position} (h : x.Owned o heads tops slots funcs)
    {root : StmtId} (hroot : root = ⟨(o + x.count).stmts⟩) (hheads : form.expressions = heads)
    (htops : form.parts = tops) (hslots : form.declared = slots) :
    (x ++ ofStatement form place).Owned o [] [root] [] funcs := by
  subst hroot hheads htops hslots
  constructor
  · intro id
    have hx := h.expressions id
    rw [count_expressionUses_append, once_expression?_append, expressionUses_ofStatement,
      expression?_ofStatement, once_none, List.count_nil]
    omega
  · intro id
    have hx := h.statements id
    rw [count_statementUses_append, once_statement?_append, once_ofStatement,
      statementUses_ofStatement]
    omega
  · intro id
    have hx := h.vars id
    rw [count_variableUses_append, once_declaration?_append, variableUses_ofStatement,
      declaration?_ofStatement, once_none, List.count_nil]
    omega
  · intro id
    have hx := h.functions id
    rw [once_declaration?_append]
    simpa using hx
  · exact List.pairwise_singleton _ _
  · exact h.funcs
  · rw [append_statements, List.forall_mem_append]
    exact ⟨h.parts, by simpa [ofStatement] using h.tops⟩
  · simpa [ofStatement] using h.bodies

/-- A function uses up the variables before it and the statements behind it. -/
theorem Owned.func {f : Function} (hx : x.Owned o [] [] slots [])
    (hy : y.Owned o' [] tops [] []) (h : o'.SameNodes (o + (x ++ ofDeclaration (.func f)).count))
    {root : DeclId} (hroot : root = ⟨(o + x.count).decls⟩)
    (hslots : (f.parameters ++ f.results).map Field.decl = slots) (htops : f.body = tops) :
    (x ++ (ofDeclaration (.func f) ++ y)).Owned o [] [] [] [root] := by
  subst hroot hslots htops
  have hy := hy.congr h
  have hcount : o + x.count + (ofDeclaration (.func f)).count =
      o + (x ++ ofDeclaration (.func f)).count := by
    rw [count_append, Extent.add_assoc]
  rw [← hcount] at hy
  constructor
  · intro id
    have hx := hx.expressions id
    have hy := hy.expressions id
    simp only [count_expressionUses_append, once_expression?_append, expressionUses_ofDeclaration,
      expression?_ofDeclaration, once_none, List.count_nil] at hx hy ⊢
    omega
  · intro id
    have hx := hx.statements id
    have hy := hy.statements id
    simp only [count_statementUses_append, once_statement?_append, statementUses_ofDeclaration,
      statement?_ofDeclaration, once_none, List.count_nil, Declaration.body] at hx hy ⊢
    omega
  · intro id
    have hx := hx.vars id
    have hy := hy.vars id
    have hf : once (·.kind == .var) ((ofDeclaration (.func f)).declaration? (o + x.count) id) = 0 :=
      (once_ofDeclaration _ _ _).trans (if_neg (by simp [Declaration.kind]))
    simp only [count_variableUses_append, once_declaration?_append, variableUses_ofDeclaration,
      List.count_nil, Declaration.slots, hf] at hx hy ⊢
    omega
  · intro id
    have hx := hx.functions id
    have hy := hy.functions id
    have hf : once (·.kind == .func) ((ofDeclaration (.func f)).declaration? (o + x.count) id) =
        [⟨(o + x.count).decls⟩].count id :=
      (once_ofDeclaration _ _ _).trans (if_pos rfl)
    simp only [once_declaration?_append, List.count_nil, hf] at hx hy ⊢
    omega
  · exact .nil
  · exact List.pairwise_singleton _ _
  · exact List.forall_mem_append.2 ⟨hx.parts, hy.parts⟩
  · refine List.forall_mem_append.2 ⟨hx.bodies, List.forall_mem_append.2 ⟨?_, hy.bodies⟩⟩
    simpa [ofDeclaration, Declaration.body] using hy.tops

/-- A variable that is declared has no owner yet. -/
theorem owned_variable (v : Variable) :
    (ofDeclaration (.var v)).Owned o [] [] [⟨o.decls⟩] [] := by
  have hkind : (Declaration.var v).kind = .var := rfl
  constructor
  · simp
  · simp [Declaration.body]
  · intro id
    rw [once_ofDeclaration, if_pos hkind, variableUses_ofDeclaration]
    rfl
  · intro id
    rw [once_ofDeclaration, if_neg (by simp [hkind])]
    rfl
  · exact .nil
  · exact .nil
  · simp [ofDeclaration]
  · simp [ofDeclaration, Declaration.body]

end Nodes

/-! ### Expressions -/

namespace Expr

theorem owned_nodesAll_of_forall (es : List Expr)
    (hes : ∀ e ∈ es, ∀ o, (e.nodes functions v o).Owned o [e.root o] [] [] []) (o : Extent) :
    (nodesAll functions v o es).Owned o (roots o es) [] [] [] := by
  induction es generalizing o with
  | nil => exact Nodes.owned_empty o
  | cons e es ih =>
      have hrest := ih fun e' he' => hes e' (List.mem_cons_of_mem e he')
      exact (hes e List.mem_cons_self o).append (hrest _) (by simp [Extent.SameNodes])

/-- In an expression only the expression itself has no owner. -/
theorem owned_nodes (e : Expr) (o : Extent) :
    (e.nodes functions v o).Owned o [e.root o] [] [] [] := by
  induction e generalizing o with
  | literal value place =>
      refine (Nodes.owned_empty o).whole rfl ?_
      cases value <;> rfl
  | name n => exact ((Nodes.owned_empty o).whole rfl rfl).append_deferIf _ _
  | not place operand ih =>
      rw [nodes]
      refine (ih o).whole ?_ rfl
      rw [count_nodes]
      rfl
  | binary operator place left right ihLeft ihRight =>
      rw [nodes, ← Nodes.append_assoc]
      refine ((ihLeft o).append (ihRight (o + .ofExprs left.size))
        (by simp [Extent.SameNodes])).whole ?_ ?_
      · rw [Nodes.count_append, count_nodes, count_nodes, root]
        simp only [size, Extent.ofExprs, Extent.add_exprs, ExprId.mk.injEq]
        omega
      · rfl
  | call callee arguments ihCallee ihArguments =>
      have hall := owned_nodesAll_of_forall arguments ihArguments (o + .ofExprs callee.size)
      rw [nodes, ← Nodes.append_assoc]
      refine ((ihCallee o).append hall (by simp [Extent.SameNodes])).whole ?_ rfl
      rw [Nodes.count_append, count_nodes, count_nodesAll', root]
      simp only [size, Extent.ofExprs, Extent.add_exprs, ExprId.mk.injEq]
      omega

theorem owned_nodesAll (es : List Expr) (o : Extent) :
    (nodesAll functions v o es).Owned o (roots o es) [] [] [] :=
  owned_nodesAll_of_forall es (fun e _ o => owned_nodes e o) o

end Expr

/-! ### Statements -/

theorem Update.owned_nodes (u : Update) (o : Extent) :
    (u.nodes functions v o).Owned o (u.change o).expressions [] [] [] := by
  cases u with
  | assign value | add value | subtract value => exact Expr.owned_nodes value o
  | increment | decrement => exact Nodes.owned_empty o

/-- A statement without blocks leaves itself to be used, and uses its expressions. -/
theorem Simple.owned_nodes (s : Simple) (o : Extent) :
    (s.nodes functions v o).Owned o [] [Simple.root o] [] [] := by
  cases s with
  | call place e =>
      rw [nodes]
      refine (Expr.owned_nodes e o).statement ?_ rfl rfl rfl
      rw [Expr.count_nodes]
      rfl
  | change name update =>
      rw [nodes, ← Nodes.append_assoc]
      refine ((Update.owned_nodes update o).statement ?_ rfl rfl rfl).append_deferIf _ _
      rw [Update.count_nodes]
      rfl

theorem Simple.owned_nodes? (s? : Option Simple) (o : Extent) :
    (Simple.nodes? functions v o s?).Owned o [] (Simple.root? o s?).toList [] [] := by
  cases s? with
  | none => exact Nodes.owned_empty o
  | some s => exact Simple.owned_nodes s o

namespace Stmt

theorem owned_nodesAll_of_forall (xs : List Stmt)
    (hxs : ∀ x ∈ xs, ∀ v o, (x.nodes functions v o).Owned o [] [x.root o] [] []) (v : Sight)
    (o : Extent) : (nodesAll functions v o xs).Owned o [] (roots o xs) [] [] := by
  induction xs generalizing v o with
  | nil => exact Nodes.owned_empty o
  | cons x xs ih =>
      have hrest := ih fun y hy => hxs y (List.mem_cons_of_mem x hy)
      exact (hxs x List.mem_cons_self v o).append (hrest _ _)
        (by simp [Extent.SameNodes, count_nodes])

/-- In a statement only the statement itself has no owner. -/
theorem owned_nodes (s : Stmt) (v : Sight) (o : Extent) :
    (s.nodes functions v o).Owned o [] [s.root o] [] [] := by
  induction s generalizing v o with
  | declare place name type =>
      rw [nodes, ← Nodes.append_assoc]
      exact ((Nodes.owned_variable _).statement rfl rfl rfl rfl).append_deferIf _ _
  | simple s =>
      have hroot : (Stmt.simple s).root o = Simple.root o := by
        cases s <;> rfl
      rw [hroot]
      exact Simple.owned_nodes s o
  | branch place condition thenBlock ih =>
      have hthen := owned_nodesAll_of_forall thenBlock ih (v.enter (o + .ofExprs condition.size))
        (o + .ofExprs condition.size + .scope)
      rw [nodes, ← Nodes.append_assoc]
      refine ((Expr.owned_nodes condition o).append hthen
        (by simp [Extent.SameNodes])).statement ?_ rfl ?_ rfl
      · rw [root_eq rfl]
        simp [count_nodesAll, Extent.flat, Extent.scope]
      · simp [StmtForm.parts, block]
  | branchElse place condition thenBlock elseBlock ihThen ihElse =>
      have hthen := owned_nodesAll_of_forall thenBlock ihThen
        (v.enter (o + .ofExprs condition.size)) (o + .ofExprs condition.size + .scope)
      have helse := owned_nodesAll_of_forall elseBlock ihElse
        (v.enter (o + .ofExprs condition.size + (.scope + extents thenBlock)))
        (o + .ofExprs condition.size + (.scope + extents thenBlock) + .scope)
      rw [nodes, ← Nodes.append_assoc, ← Nodes.append_assoc]
      refine (((Expr.owned_nodes condition o).append hthen (by simp [Extent.SameNodes])).append
        helse ?_).statement ?_ rfl ?_ rfl
      · simp [Extent.SameNodes, count_nodesAll, Extent.add_assoc]
      · rw [root_eq rfl]
        simp [count_nodesAll, Extent.flat, Extent.scope, Nat.add_assoc]
      · simp [StmtForm.parts, block]
  | whileLoop place condition body ih =>
      have hbody := owned_nodesAll_of_forall body ih (v.enter (o + .ofExprs condition.size))
        (o + .ofExprs condition.size + .scope)
      rw [nodes, ← Nodes.append_assoc]
      refine ((Expr.owned_nodes condition o).append hbody
        (by simp [Extent.SameNodes])).statement ?_ rfl rfl rfl
      rw [root_eq rfl]
      simp [count_nodesAll, Extent.flat, Extent.scope]
  | forLoop place init? condition action? body ih =>
      have hbody := owned_nodesAll_of_forall body ih
        (v.enter (o + Simple.extent? init? + .ofExprs condition.size + Simple.extent? action?))
        (o + Simple.extent? init? + .ofExprs condition.size + Simple.extent? action? + .scope)
      rw [nodes, ← Nodes.append_assoc, ← Nodes.append_assoc, ← Nodes.append_assoc]
      refine ((((Simple.owned_nodes? init? o).append (Expr.owned_nodes condition _) ?_).append
        (Simple.owned_nodes? action? _) ?_).append hbody ?_).statement ?_ rfl ?_ rfl
      · simp [Extent.SameNodes]
      · simp [Extent.SameNodes, Extent.add_assoc]
      · simp [Extent.SameNodes, Extent.add_assoc]
      · rw [root_eq rfl]
        simp [count_nodesAll, Extent.flat, Extent.scope, Nat.add_assoc]
      · simp [StmtForm.parts, block]
  | result place values =>
      rw [nodes]
      refine (Expr.owned_nodesAll values o).statement ?_ rfl rfl rfl
      rw [root_eq rfl, Expr.count_nodesAll']

theorem owned_nodesAll (functions : List (String × DeclId)) (xs : List Stmt) (v : Sight)
    (o : Extent) : (nodesAll functions v o xs).Owned o [] (roots o xs) [] [] :=
  owned_nodesAll_of_forall xs (fun x _ v o => owned_nodes x v o) v o

end Stmt

/-! ### Functions and files -/

theorem Slot.owned_nodesAll (scope : ScopeId) (slots : List Slot) (o : Extent) :
    (nodesAll scope o slots).Owned o [] [] ((fields o slots).map Field.decl) [] := by
  induction slots generalizing o with
  | nil => exact Nodes.owned_empty o
  | cons slot slots ih =>
      have hslot := (Nodes.owned_variable (o := o)
        ⟨slot.name?, slot.position, Sight.type scope slot.type⟩).append_deferIf
          (Sight.type scope slot.type) { fields := [⟨o.decls⟩] }
      exact hslot.append (ih _) (by simp [Extent.SameNodes])

/-- In a function only the function itself has no owner. -/
theorem Func.owned_nodes (f : Func) (o : Extent) :
    (f.nodes functions o).Owned o [] [] [] [f.root o] := by
  have hparameters := Slot.owned_nodesAll ⟨o.scopes⟩ (f.parameters.map Param.slot) (o + .scope)
  have hresults := Slot.owned_nodesAll ⟨o.scopes⟩ (f.results.map Name.slot) (f.resultsAt o)
  have hbody := Stmt.owned_nodesAll functions f.body (f.sight o) (f.bodyAt o)
  have hslots := hparameters.append hresults (by simp [Extent.SameNodes, Func.resultsAt])
  rw [nodes, ← Nodes.append_assoc]
  refine Nodes.Owned.congr (o := o + .scope) (hslots.func hbody ?_ ?_ ?_ rfl) ?_
  · simp [Extent.SameNodes, bodyAt, resultsAt, Extent.add_assoc]
  · simp [root, Extent.ofDecls, Extent.scope, Nat.add_assoc]
  · simp [header]
  · simp [Extent.SameNodes]

/-- **In a file** only the functions have no owner: the functions can name the given ones. -/
theorem owned_fileNodes (fs : List Func) (o : Extent) :
    (fileNodes functions o fs).Owned o [] [] [] (roots o fs) := by
  induction fs generalizing o with
  | nil => exact Nodes.owned_empty o
  | cons f fs ih =>
      exact (Func.owned_nodes f o).append (ih _) (by simp [Extent.SameNodes, Func.count_nodes])

/-- **In a file** only the functions have no owner: a function can name those before it. -/
theorem owned_earlyNodes (fs : List Func) (o : Extent) (functions : List (String × DeclId)) :
    (earlyNodes o functions fs).Owned o [] [] [] (roots o fs) := by
  induction fs generalizing o functions with
  | nil => exact Nodes.owned_empty o
  | cons f fs ih =>
      exact (Func.owned_nodes f o).append (ih _ _) (by simp [Extent.SameNodes, Func.count_nodes])

end Syntax

end FrontEnd
