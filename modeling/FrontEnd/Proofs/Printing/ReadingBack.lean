/-
**Trees can be read back.**

The nodes of a tree hold all that the tree says, apart from positions.  What they do not keep are
the names that were resolved; these are found again where the references lead, because every name
was resolved to a declaration of that name.  So the trees that are read back from the program of a
file are those that its tokens spell, without positions.

Main definitions:

* `FrontEnd.Program.Holds` — a program that has the given nodes;
* `FrontEnd.Program.Knows` — names that lead to declarations of these names.

Main results:

* `FrontEnd.Program.exprTree_root`, `FrontEnd.Program.stmtTreeUpTo_root`,
  `FrontEnd.Program.funcTree_header` — reading back the nodes of a tree;
* `FrontEnd.Draft.IsReading.trees` — reading back a file.
-/

import FrontEnd.Proofs.Printing.Printer
import FrontEnd.Proofs.Printing.Rebuilding
import FrontEnd.Proofs.Resolution.Worklists

set_option relaxedAutoImplicit false
set_option autoImplicit false

namespace FrontEnd

open Syntax

namespace Program

/-! ### Programs with given nodes -/

/-- The program has the nodes, numbered on from the offset. -/
structure Holds (p : Program) (o : Extent) (y : Nodes) : Prop where
  declaration : ∀ {id d}, y.declaration? o id = some d → p.declaration? id = some d
  expression : ∀ {id e}, y.expression? o id = some e → p.expression? id = some e
  statement : ∀ {id s}, y.statement? o id = some s → p.statement? id = some s

variable {p : Program} {o o' : Extent} {x y : Nodes} {functions locals : List (String × DeclId)}
  {v : Sight}

namespace Holds

theorem left (h : p.Holds o (x ++ y)) : p.Holds o x where
  declaration hx := h.declaration ((Nodes.declaration?_append (.refl _)).2 (.inl hx))
  expression hx := h.expression ((Nodes.expression?_append (.refl _)).2 (.inl hx))
  statement hx := h.statement ((Nodes.statement?_append (.refl _)).2 (.inl hx))

theorem right (h : p.Holds o (x ++ y)) (o' : Extent) (ho : (o + x.count).SameNodes o') :
    p.Holds o' y where
  declaration hy := h.declaration ((Nodes.declaration?_append ho).2 (.inr hy))
  expression hy := h.expression ((Nodes.expression?_append ho).2 (.inr hy))
  statement hy := h.statement ((Nodes.statement?_append ho).2 (.inr hy))

theorem congr (h : p.Holds o y) (o' : Extent) (ho : o.SameNodes o') : p.Holds o' y := by
  obtain ⟨declaration, expression, statement⟩ := h
  rw [Nodes.declaration?_congr ho] at declaration
  rw [Nodes.expression?_congr ho] at expression
  rw [Nodes.statement?_congr ho] at statement
  exact ⟨declaration, expression, statement⟩

theorem declarationAt {d : Declaration} (h : p.Holds o (.ofDeclaration d)) {id : DeclId}
    (hid : id.index = o.decls) : p.declaration? id = some d :=
  h.declaration (Nodes.declaration?_ofDeclaration.2 ⟨congrArg DeclId.mk hid, rfl⟩)

theorem expressionAt {e : Expression} (h : p.Holds o (.ofExpression e)) {id : ExprId}
    (hid : id.index = o.exprs) : p.expression? id = some e :=
  h.expression (Nodes.expression?_ofExpression.2 ⟨congrArg ExprId.mk hid, rfl⟩)

theorem statementAt {form : StmtForm} {place : Position} (h : p.Holds o (.ofStatement form place))
    {id : StmtId} (hid : id.index = o.stmts) : p.statement? id = some ⟨form, place⟩ :=
  h.statement (Nodes.statement?_ofStatement.2 ⟨congrArg StmtId.mk hid, rfl⟩)

end Holds

/-! ### Names -/

/-- Every name leads to a declaration of that name. -/
def Knows (p : Program) (names : List (String × DeclId)) : Prop :=
  ∀ name id, (name, id) ∈ names → (p.declaration? id).map Declaration.name = some name

/-- The built-in types lead to their declarations. -/
def KnowsTypes (p : Program) : Prop :=
  ∀ b : BasicType, (p.declaration? b.declaration).map Declaration.name = some b.name

theorem knows_nil (p : Program) : p.Knows [] := fun _ _ h => by cases h

theorem Knows.cons {name : String} {id : DeclId} {names : List (String × DeclId)}
    (hid : (p.declaration? id).map Declaration.name = some name) (h : p.Knows names) :
    p.Knows ((name, id) :: names) := by
  intro other id' hmem
  rcases List.mem_cons.1 hmem with heq | hmem
  · cases heq
    exact hid
  · exact h other id' hmem

theorem mem_of_lookup {names : List (String × DeclId)} {name : String} {id : DeclId}
    (h : names.lookup name = some id) : (name, id) ∈ names := by
  induction names with
  | nil => cases h
  | cons x names ih =>
      obtain ⟨other, decl⟩ := x
      rw [List.lookup_cons] at h
      split at h
      · next heq =>
          obtain rfl : decl = id := Option.some.inj h
          rw [eq_of_beq heq]
          exact List.mem_cons_self
      · exact List.mem_cons_of_mem _ (ih h)

/-- The name behind a reference is the one that was looked up. -/
theorem nameOf_ofFound {found? : Option DeclId} {name : String}
    (h : ∀ id, found? = some id → (p.declaration? id).map Declaration.name = some name)
    (scope : ScopeId) (place : Position) :
    p.nameOf (.ofFound found? name scope place) = ⟨name, .start⟩ := by
  cases found? with
  | none => rfl
  | some id => simp [nameOf, h id rfl]

theorem nameOf_value (hfunctions : p.Knows functions) (hlocals : p.Knows v.locals) (name : Name) :
    p.nameOf (v.value functions name) = name.unplaced := by
  refine nameOf_ofFound (fun id hid => ?_) _ _
  rcases Option.or_eq_some_iff.1 hid with hlookup | ⟨-, hlookup⟩
  · exact hlocals _ _ (mem_of_lookup hlookup)
  · exact hfunctions _ _ (mem_of_lookup hlookup)

theorem nameOf_target (hlocals : p.Knows v.locals) (name : Name) :
    p.nameOf (v.target name) = name.unplaced :=
  nameOf_ofFound (fun _ hid => hlocals _ _ (mem_of_lookup hid)) _ _

theorem nameOf_type (htypes : p.KnowsTypes) (scope : ScopeId) (type : Name) :
    p.nameOf (Sight.type scope type) = type.unplaced := by
  refine nameOf_ofFound (fun id hid => ?_) _ _
  obtain ⟨b, hb, rfl⟩ := Option.map_eq_some_iff.1 hid
  rw [← BasicType.name_of_ofName? hb]
  exact htypes b

/-! ### Expressions -/

theorem exists_succ_of_le {k n : Nat} (hpos : 0 < k) (hn : k ≤ n) : ∃ m, n = m + 1 :=
  ⟨n - 1, by omega⟩

/-- A list of expressions is read back if each of them is. -/
theorem map_exprTreeUpTo_of_forall {n : Nat} (es : List Expr)
    (hes : ∀ e ∈ es, ∀ o, p.Holds o (e.nodes functions v o) → e.size ≤ n →
      p.exprTreeUpTo n (e.root o) = e.unplaced) (o : Extent)
    (h : p.Holds o (Expr.nodesAll functions v o es)) (hn : Expr.sizes es ≤ n) :
    (Expr.roots o es).map (p.exprTreeUpTo n) = Expr.unplacedAll es := by
  induction es generalizing o with
  | nil => rfl
  | cons e es ih =>
      rw [Expr.sizes] at hn
      rw [Expr.nodesAll] at h
      have he := hes e List.mem_cons_self o h.left (by omega)
      have hothers := ih (fun e' he' => hes e' (List.mem_cons_of_mem e he')) _
        (h.right _ (by rw [Expr.count_nodes]; exact .refl _)) (by omega)
      rw [Expr.roots, List.map_cons, he, hothers, Expr.unplacedAll]

section Bodies

variable (hfunctions : p.Knows functions)

include hfunctions

/-- The tree that is read back from the nodes of an expression. -/
theorem exprTreeUpTo_root (hlocals : p.Knows v.locals) (e : Expr) (o : Extent)
    (h : p.Holds o (e.nodes functions v o)) (n : Nat) (hn : e.size ≤ n) :
    p.exprTreeUpTo n (e.root o) = e.unplaced := by
  induction e generalizing o n with
  | literal value place =>
      obtain ⟨n, rfl⟩ := exists_succ_of_le (Expr.size_pos _) hn
      have hnode : p.expression? (Expr.root o (.literal value place)) = _ := h.expressionAt rfl
      cases value <;> simp [exprTreeUpTo, hnode, Literal.form, Expr.unplaced]
  | name name =>
      obtain ⟨n, rfl⟩ := exists_succ_of_le (Expr.size_pos _) hn
      have hnode : p.expression? (Expr.root o (.name name)) = _ := h.left.expressionAt rfl
      simp [exprTreeUpTo, hnode, nameOf_value hfunctions hlocals, Expr.unplaced]
  | not place operand ih =>
      obtain ⟨n, rfl⟩ := exists_succ_of_le (Expr.size_pos _) hn
      rw [Expr.size] at hn
      have hnode : p.expression? (Expr.root o (.not place operand)) = _ :=
        (h.right _ (.refl _)).expressionAt (by simp [Expr.root, Expr.size, Extent.ofExprs])
      have hoperand := ih o h.left n (by omega)
      simp [exprTreeUpTo, hnode, hoperand, Expr.unplaced]
  | binary operator place left right ihLeft ihRight =>
      obtain ⟨n, rfl⟩ := exists_succ_of_le (Expr.size_pos _) hn
      rw [Expr.size] at hn
      have hrest := h.right (o + .ofExprs left.size) (by rw [Expr.count_nodes]; exact .refl _)
      have hnode : p.expression? (Expr.root o (.binary operator place left right)) = _ :=
        (hrest.right _ (.refl _)).expressionAt (by
          simp [Expr.root, Expr.size, Extent.ofExprs]
          omega)
      have hleft := ihLeft o h.left n (by omega)
      have hright := ihRight _ hrest.left n (by omega)
      simp [exprTreeUpTo, hnode, hleft, hright, Expr.unplaced]
  | call callee arguments ihCallee ihArguments =>
      obtain ⟨n, rfl⟩ := exists_succ_of_le (Expr.size_pos _) hn
      rw [Expr.size] at hn
      have hrest := h.right (o + .ofExprs callee.size) (by rw [Expr.count_nodes]; exact .refl _)
      have hnode : p.expression? (Expr.root o (.call callee arguments)) = _ :=
        (hrest.right _ (.refl _)).expressionAt (by
          simp [Expr.root, Expr.size, Extent.ofExprs]
          omega)
      have hcallee := ihCallee o h.left n (by omega)
      have harguments := map_exprTreeUpTo_of_forall arguments
        (fun e he o h hn => ihArguments e he o h n hn) _ hrest.left (by omega)
      simp [exprTreeUpTo, hnode, hcallee, harguments, Expr.unplaced]

theorem exprTree_root (hlocals : p.Knows v.locals) (e : Expr) (o : Extent)
    (h : p.Holds o (e.nodes functions v o)) : p.exprTree (e.root o) = e.unplaced := by
  refine exprTreeUpTo_root hfunctions hlocals e o h _ ?_
  have hpos := e.size_pos
  change e.size ≤ o.exprs + e.size - 1 + 1
  omega

theorem map_exprTree_roots (hlocals : p.Knows v.locals) (es : List Expr) (o : Extent)
    (h : p.Holds o (Expr.nodesAll functions v o es)) :
    (Expr.roots o es).map p.exprTree = Expr.unplacedAll es := by
  induction es generalizing o with
  | nil => rfl
  | cons e es ih =>
      rw [Expr.nodesAll] at h
      have he := exprTree_root hfunctions hlocals e o h.left
      have hothers := ih _ (h.right _ (by rw [Expr.count_nodes]; exact .refl _))
      rw [Expr.roots, List.map_cons, he, hothers, Expr.unplacedAll]

/-! ### Statements -/

theorem updateTree_change (hlocals : p.Knows v.locals) (u : Update) (o : Extent)
    (h : p.Holds o (u.nodes functions v o)) : p.updateTree (u.change o) = u.unplaced := by
  cases u with
  | assign value => exact congrArg Update.assign (exprTree_root hfunctions hlocals value o h)
  | add value => exact congrArg Update.add (exprTree_root hfunctions hlocals value o h)
  | subtract value => exact congrArg Update.subtract (exprTree_root hfunctions hlocals value o h)
  | increment => rfl
  | decrement => rfl

omit hfunctions in
theorem variableTree_of_eq {id : DeclId} {declared : Variable}
    (h : p.declaration? id = some (.var declared)) :
    p.variableTree id = ⟨⟨declared.name?.getD "", .start⟩, p.nameOf declared.type⟩ := by
  simp [variableTree, h]

/-- The tree that is read back from the nodes of a statement without blocks. -/
theorem simpleTree?_root (hlocals : p.Knows v.locals) (s : Simple) (o : Extent)
    (h : p.Holds o (s.nodes functions v o)) :
    p.simpleTree? (Simple.root o) = some s.unplaced := by
  cases s with
  | call place e =>
      have hnode : p.statement? (Simple.root o) = _ :=
        (h.right _ (.refl _)).statementAt (by simp [Simple.root, Extent.ofExprs])
      simp [simpleTree?, hnode, exprTree_root hfunctions hlocals e o h.left, Simple.unplaced]
  | change name update =>
      have hnode : p.statement? (Simple.root o) = _ :=
        (h.right _ (.refl _)).left.statementAt (by simp [Simple.root, Extent.ofExprs])
      simp [simpleTree?, hnode, nameOf_target hlocals,
        updateTree_change hfunctions hlocals update o h.left, Simple.unplaced]

theorem bind_simpleTree?_root? (hlocals : p.Knows v.locals) (s? : Option Simple) (o : Extent)
    (h : p.Holds o (Simple.nodes? functions v o s?)) :
    (Simple.root? o s?).bind p.simpleTree? = s?.map Simple.unplaced := by
  cases s? with
  | none => rfl
  | some s => exact simpleTree?_root hfunctions hlocals s o h

omit hfunctions in
/-- Behind a statement the names of its variables lead to them, too. -/
theorem knows_after (hlocals : p.Knows v.locals) (s : Stmt) (o : Extent)
    (h : p.Holds o (s.nodes functions v o)) : p.Knows (s.after v o).locals := by
  cases s with
  | declare place name type =>
      have hdecl : p.declaration? ⟨o.decls⟩ = _ := h.left.declarationAt rfl
      refine hlocals.cons ?_
      rw [hdecl]
      rfl
  | _ => exact hlocals

omit hfunctions in
/-- A statement without blocks is read back as such. -/
theorem stmtTreeUpTo_of_simpleTree? {id : StmtId} {s : Simple} (h : p.simpleTree? id = some s)
    (n : Nat) : p.stmtTreeUpTo (n + 1) id = .simple s := by
  unfold simpleTree? at h
  unfold stmtTreeUpTo
  split at h
  · next hform =>
      cases h
      rw [hform]
  · next hform =>
      cases h
      rw [hform]
  · cases h

omit hfunctions in
/-- A list of statements is read back if each of them is. -/
theorem map_stmtTreeUpTo_of_forall {n : Nat} (xs : List Stmt)
    (hxs : ∀ x ∈ xs, ∀ v o, p.Knows v.locals → p.Holds o (x.nodes functions v o) →
      x.extent.stmts ≤ n → p.stmtTreeUpTo n (x.root o) = x.unplaced) (v : Sight) (o : Extent)
    (hlocals : p.Knows v.locals) (h : p.Holds o (Stmt.nodesAll functions v o xs))
    (hn : (Stmt.extents xs).stmts ≤ n) :
    (Stmt.roots o xs).map (p.stmtTreeUpTo n) = Stmt.unplacedAll xs := by
  induction xs generalizing v o with
  | nil => rfl
  | cons x xs ih =>
      rw [Stmt.extents, Extent.add_stmts] at hn
      rw [Stmt.nodesAll] at h
      have hx := hxs x List.mem_cons_self v o hlocals h.left (by omega)
      have hothers := ih (fun y hy => hxs y (List.mem_cons_of_mem x hy)) (x.after v o)
        (o + x.extent) (knows_after hlocals x o h.left)
        (h.right _ (by simp [Extent.SameNodes, Stmt.count_nodes])) (by omega)
      rw [Stmt.roots, List.map_cons, hx, hothers, Stmt.unplacedAll]

omit hfunctions in
theorem map_stmtTreeUpTo_block {n : Nat} {xs : List Stmt}
    (hxs : ∀ x ∈ xs, ∀ v o, p.Knows v.locals → p.Holds o (x.nodes functions v o) → ∀ n,
      x.extent.stmts ≤ n → p.stmtTreeUpTo n (x.root o) = x.unplaced) (hlocals : p.Knows v.locals)
    (h : p.Holds (o + .scope) (Stmt.nodesAll functions (v.enter o) (o + .scope) xs))
    (hn : (Stmt.extents xs).stmts ≤ n) :
    (Stmt.block o xs).statements.map (p.stmtTreeUpTo n) = Stmt.unplacedAll xs :=
  map_stmtTreeUpTo_of_forall xs (fun x hx v o hlocals h hn => hxs x hx v o hlocals h n hn)
    (v.enter o) (o + Extent.scope) hlocals h hn

/-- The tree that is read back from the nodes of a statement. -/
theorem stmtTreeUpTo_root (htypes : p.KnowsTypes) (s : Stmt) (v : Sight) (o : Extent)
    (hlocals : p.Knows v.locals) (h : p.Holds o (s.nodes functions v o)) (n : Nat)
    (hn : s.extent.stmts ≤ n) : p.stmtTreeUpTo n (s.root o) = s.unplaced := by
  induction s generalizing v o n with
  | declare place name type =>
      obtain ⟨n, rfl⟩ := exists_succ_of_le (Stmt.stmts_pos _) hn
      have hnode : p.statement? (Stmt.root o (.declare place name type)) = _ :=
        (h.right _ (.refl _)).left.statementAt
          (by simp [Stmt.root, Stmt.extent, Extent.decl, Extent.scope, Extent.stmt])
      have hdecl : p.declaration? ⟨o.decls⟩ = _ := h.left.declarationAt rfl
      simp [stmtTreeUpTo, hnode, variableTree_of_eq hdecl, nameOf_type htypes, Stmt.unplaced,
        Name.unplaced]
  | simple s =>
      obtain ⟨n, rfl⟩ := exists_succ_of_le (Stmt.stmts_pos _) hn
      have hroot : Stmt.root o (.simple s) = Simple.root o := by
        cases s <;> simp [Stmt.root, Stmt.extent, Simple.extent, Simple.root, Extent.ofExprs,
          Extent.stmt]
      rw [hroot]
      exact stmtTreeUpTo_of_simpleTree? (simpleTree?_root hfunctions hlocals s o h) n
  | branch place condition thenBlock ih =>
      obtain ⟨n, rfl⟩ := exists_succ_of_le (Stmt.stmts_pos _) hn
      have hthen := h.right (o + .ofExprs condition.size + .scope)
        (by simp [Extent.SameNodes])
      have hnode : p.statement? (Stmt.root o (.branch place condition thenBlock none)) = _ :=
        (hthen.right _ (.refl _)).statementAt (by
          simp [Stmt.root, Stmt.extent, Stmt.count_nodesAll, Extent.flat, Extent.ofExprs,
            Extent.scope, Extent.stmt])
      simp only [Stmt.extent, Extent.ofExprs, Extent.scope, Extent.stmt, Extent.add_stmts] at hn
      have hcondition := exprTree_root hfunctions hlocals condition o h.left
      have hstatements := map_stmtTreeUpTo_block ih hlocals hthen.left (n := n) (by omega)
      simp [stmtTreeUpTo, hnode, hcondition, hstatements, Stmt.unplaced]
  | branchElse place condition thenBlock elseBlock ihThen ihElse =>
      obtain ⟨n, rfl⟩ := exists_succ_of_le (Stmt.stmts_pos _) hn
      let o₁ := o + .ofExprs condition.size
      have hthen := h.right (o₁ + .scope) (by simp [Extent.SameNodes, o₁])
      have helse := hthen.right (o₁ + (.scope + Stmt.extents thenBlock) + .scope)
        (by simp [Extent.SameNodes, Stmt.count_nodesAll])
      have hnode :
          p.statement? (Stmt.root o (.branch place condition thenBlock (some elseBlock))) = _ :=
        (helse.right _ (.refl _)).statementAt (by
          simp [Stmt.root, Stmt.extent, Stmt.count_nodesAll, Extent.flat, Extent.ofExprs,
            Extent.scope, Extent.stmt, o₁]
          omega)
      simp only [Stmt.extent, Extent.ofExprs, Extent.scope, Extent.stmt, Extent.add_stmts] at hn
      have hcondition := exprTree_root hfunctions hlocals condition o h.left
      have hstatements := map_stmtTreeUpTo_block ihThen hlocals hthen.left (n := n) (by omega)
      have hstatements' := map_stmtTreeUpTo_block ihElse hlocals helse.left (n := n) (by omega)
      simp [stmtTreeUpTo, hnode, hcondition, hstatements, hstatements', Stmt.unplaced, o₁]
  | whileLoop place condition body ih =>
      obtain ⟨n, rfl⟩ := exists_succ_of_le (Stmt.stmts_pos _) hn
      have hbody := h.right (o + .ofExprs condition.size + .scope)
        (by simp [Extent.SameNodes])
      have hnode : p.statement? (Stmt.root o (.whileLoop place condition body)) = _ :=
        (hbody.right _ (.refl _)).statementAt (by
          simp [Stmt.root, Stmt.extent, Stmt.count_nodesAll, Extent.flat, Extent.ofExprs,
            Extent.scope, Extent.stmt])
      simp only [Stmt.extent, Extent.ofExprs, Extent.scope, Extent.stmt, Extent.add_stmts] at hn
      have hcondition := exprTree_root hfunctions hlocals condition o h.left
      have hstatements := map_stmtTreeUpTo_block ih hlocals hbody.left (n := n) (by omega)
      simp [stmtTreeUpTo, hnode, hcondition, hstatements, Stmt.unplaced]
  | forLoop place init? condition action? body ih =>
      obtain ⟨n, rfl⟩ := exists_succ_of_le (Stmt.stmts_pos _) hn
      let o₁ := o + Simple.extent? init?
      let o₂ := o₁ + .ofExprs condition.size
      let o₃ := o₂ + Simple.extent? action?
      have hrest := h.right o₁ (by simp [Extent.SameNodes, o₁])
      have haction := hrest.right o₂ (by simp [Extent.SameNodes, o₂])
      have hbody := haction.right (o₃ + .scope) (by simp [Extent.SameNodes, o₃])
      have hnode : p.statement? (Stmt.root o (.forLoop place init? condition action? body)) = _ :=
        (hbody.right _ (.refl _)).statementAt (by
          simp [Stmt.root, Stmt.extent, Stmt.count_nodesAll, Extent.flat, Extent.ofExprs,
            Extent.scope, Extent.stmt, o₁, o₂, o₃]
          omega)
      simp only [Stmt.extent, Extent.ofExprs, Extent.scope, Extent.stmt, Extent.add_stmts] at hn
      have hinit := bind_simpleTree?_root? hfunctions hlocals init? o h.left
      have hcondition := exprTree_root hfunctions hlocals condition o₁ hrest.left
      have haction' := bind_simpleTree?_root? hfunctions hlocals action? o₂ haction.left
      have hstatements := map_stmtTreeUpTo_block ih hlocals hbody.left (n := n) (by omega)
      simp [stmtTreeUpTo, hnode, hinit, hcondition, haction', hstatements, Stmt.unplaced, o₁, o₂,
        o₃]
  | result place values =>
      obtain ⟨n, rfl⟩ := exists_succ_of_le (Stmt.stmts_pos _) hn
      have hnode : p.statement? (Stmt.root o (.result place values)) = _ :=
        (h.right _ (.refl _)).statementAt
          (by simp [Stmt.root, Stmt.extent, Extent.ofExprs, Extent.stmt])
      have hvalues := map_exprTree_roots hfunctions hlocals values o h.left
      simp [stmtTreeUpTo, hnode, hvalues, Stmt.unplaced]

theorem map_stmtTree_roots (htypes : p.KnowsTypes) (xs : List Stmt) (v : Sight) (o : Extent)
    (hlocals : p.Knows v.locals) (h : p.Holds o (Stmt.nodesAll functions v o xs)) :
    (Stmt.roots o xs).map p.stmtTree = Stmt.unplacedAll xs := by
  induction xs generalizing v o with
  | nil => rfl
  | cons x xs ih =>
      rw [Stmt.nodesAll] at h
      have hpos := x.stmts_pos
      have hx : p.stmtTree (x.root o) = x.unplaced := by
        refine stmtTreeUpTo_root hfunctions htypes x v o hlocals h.left _ ?_
        change x.extent.stmts ≤ o.stmts + x.extent.stmts - 1 + 1
        omega
      have hothers := ih (x.after v o) (o + x.extent) (knows_after hlocals x o h.left)
        (h.right _ (by simp [Extent.SameNodes, Stmt.count_nodes]))
      rw [Stmt.roots, List.map_cons, hx, hothers, Stmt.unplacedAll]

/-! ### Functions -/

omit hfunctions in
/-- The names and types of parameters and results are read back from their variables. -/
theorem variableTree_slots (htypes : p.KnowsTypes) {scope : ScopeId} (slots : List Slot)
    (o : Extent) (h : p.Holds o (Slot.nodesAll scope o slots)) :
    (Slot.fields o slots).map (fun field => p.variableTree field.decl) =
      slots.map fun slot => ⟨⟨slot.name?.getD "", .start⟩, slot.type.unplaced⟩ := by
  induction slots generalizing o with
  | nil => rfl
  | cons slot slots ih =>
      rw [Slot.nodesAll] at h
      have hdecl : p.declaration? ⟨o.decls⟩ = _ := h.left.left.declarationAt rfl
      have hothers := ih (o + .decl) (h.right _ (by simp [Extent.SameNodes]))
      simp [Slot.fields, variableTree_of_eq hdecl, nameOf_type htypes, hothers]

omit hfunctions in
/-- The names of parameters lead to them. -/
theorem knows_parameters (ps : List Param) (v : Sight) (o : Extent) (hlocals : p.Knows v.locals)
    {scope : ScopeId} (h : p.Holds o (Slot.nodesAll scope o (ps.map Param.slot))) :
    p.Knows (v.parameters o ps).locals := by
  induction ps generalizing v o with
  | nil => exact hlocals
  | cons q ps ih =>
      rw [List.map_cons, Slot.nodesAll] at h
      have hdecl : p.declaration? ⟨o.decls⟩ = _ := h.left.left.declarationAt rfl
      have hname : (p.declaration? ⟨o.decls⟩).map Declaration.name = some q.name.text := by
        rw [hdecl]
        rfl
      exact ih ⟨v.scope, (q.name.text, ⟨o.decls⟩) :: v.locals⟩ (o + .decl) (hlocals.cons hname)
        (h.right _ (by simp [Extent.SameNodes]))

omit hfunctions in
theorem declaration?_root (f : Func) (o : Extent) (h : p.Holds o (f.nodes functions o)) :
    p.declaration? (f.root o) = some (.func (f.header o)) := by
  refine ((h.right _ (.refl _)).right _ (.refl _)).left.declarationAt ?_
  simp [Func.root, Extent.ofDecls]

/-- The tree that is read back from the declaration of a function. -/
theorem funcTree_header (htypes : p.KnowsTypes) (f : Func) (o : Extent)
    (h : p.Holds o (f.nodes functions o)) : p.funcTree (f.header o) = f.unplaced := by
  have hrest := h.right (f.resultsAt o) (by simp [Extent.SameNodes, Func.resultsAt])
  have hdeclared := hrest.right (f.resultsAt o + .ofDecls f.results.length)
    (by simp [Extent.SameNodes])
  have hbody := hdeclared.right (f.bodyAt o) (by simp [Extent.SameNodes, Func.bodyAt])
  have hslots := h.left.congr (o + .scope) (by simp [Extent.SameNodes])
  have hlocals : p.Knows (f.sight o).locals :=
    knows_parameters f.parameters _ _ (knows_nil p) hslots
  have hparameters : (f.header o).parameters.map (fun field => p.variableTree field.decl) =
      f.parameters.map Param.unplaced := by
    rw [Func.header, variableTree_slots htypes _ _ hslots, List.map_map]
    rfl
  have hresults : (f.header o).results.map (fun field => (p.variableTree field.decl).type) =
      f.results.map Name.unplaced := by
    have hslots := congrArg (List.map Param.type) (variableTree_slots htypes _ _ hrest.left)
    rw [List.map_map, List.map_map, List.map_map] at hslots
    exact hslots
  have hstatements : (f.header o).body.map p.stmtTree = Stmt.unplacedAll f.body :=
    map_stmtTree_roots hfunctions htypes f.body _ _ hlocals hbody
  rw [funcTree, hparameters, hresults, hstatements]
  rfl

end Bodies

/-- The trees that are read back from the functions of a file. -/
theorem map_funcTree_roots (htypes : p.KnowsTypes) (fs : List Func) (o : Extent)
    (hfunctions : p.Knows functions) (h : p.Holds o (earlyNodes o functions fs)) :
    ((roots o fs).filterMap p.function?).map p.funcTree = fs.map Func.unplaced := by
  induction fs generalizing o functions with
  | nil => rfl
  | cons f fs ih =>
      rw [earlyNodes] at h
      have hroot := declaration?_root f o h.left
      have hname : (p.declaration? (f.root o)).map Declaration.name = some f.name.text := by
        rw [hroot]
        rfl
      have hknown := hfunctions.cons hname
      have htree := funcTree_header hknown htypes f o h.left
      have hothers := ih _ hknown (h.right _ (by simp [Extent.SameNodes, Func.count_nodes]))
      simp [roots, function?, hroot, htree, hothers]

end Program

/-! ### Files -/

/-- The program of a file has the nodes of its functions. -/
theorem Draft.IsReading.holds {d : Draft} {fs : List Func} (h : d.IsReading fs) :
    d.program.Holds start (earlyNodes start [] fs) where
  declaration hd := h.declaration?_iff.2 (.inr hd)
  expression he := h.expression?_iff.2 he
  statement hs := h.statement?_iff.2 hs

theorem Draft.IsReading.knowsTypes {d : Draft} {fs : List Func} (h : d.IsReading fs) :
    d.program.KnowsTypes := by
  intro b
  have hinitial : Program.initial.declaration? b.declaration = some (.type ⟨b.name, none, b⟩) := by
    cases b <;> rfl
  rw [h.declaration?_iff.2 (.inl hinitial)]
  rfl

/-- **The trees that are read back from the program of a file** are those of the file, without
positions. -/
theorem Draft.IsReading.trees {d : Draft} {fs : List Func} (h : d.IsReading fs) :
    d.program.trees = fs.map Func.unplaced := by
  have htopLevel : d.program.topLevel = roots start fs := by
    obtain ⟨scopes, noted, -, -, rfl⟩ := h
    rfl
  rw [Program.trees, htopLevel]
  exact Program.map_funcTree_roots h.knowsTypes fs start (Program.knows_nil _) h.holds

end FrontEnd
