/-
**Making a tree makes its nodes.**

Making the nodes of a tree looks names up in the scopes of the moment.  As long as these are the
scopes of a file and see what they should, the nodes that come out are those that the tree tells,
and the scopes are such again.  The only thing that can go wrong is a name that is taken.

Main definitions:

* `FrontEnd.Draft.add`, `FrontEnd.Draft.withScopes` — drafts with further nodes, or with other
  scopes;
* `FrontEnd.Draft.Stands`, `FrontEnd.Draft.Sees` — what is known of a draft, and of a place in it;
* `FrontEnd.Draft.Built` — what is known of a draft after some nodes were made.

Main results:

* `FrontEnd.Syntax.Expr.build_eq` — the nodes of an expression;
* `FrontEnd.Syntax.Stmt.build_meets`, `FrontEnd.Syntax.Func.build_meets`,
  `FrontEnd.Syntax.buildFile_meets` — when statements, functions and files can be made, and their
  nodes.
-/

import FrontEnd.Proofs.Layout.Nodes
import FrontEnd.Proofs.Scopes.Declaring
import FrontEnd.Proofs.Syntax.Building
import FrontEnd.Proofs.Syntax.Scoping

set_option relaxedAutoImplicit false
set_option autoImplicit false

namespace FrontEnd

open Syntax Run ScopeTree

/-! ### Drafts -/

/-- The numbers of nodes and scopes in a program. -/
def Program.extent (p : Program) : Extent :=
  ⟨p.declarations.size, p.expressions.size, p.statements.size, p.scopes.scopes.size⟩

namespace Draft

/-- The draft with further nodes. -/
def add (d : Draft) (y : Nodes) : Draft where
  program := { d.program with
    declarations := d.program.declarations ++ y.declarations.toArray
    expressions := d.program.expressions ++ y.expressions.toArray
    statements := d.program.statements ++ y.statements.toArray }
  deferred := d.deferred ++ y.deferred

def withScopes (d : Draft) (scopes : ScopeTree) : Draft :=
  { d with program := { d.program with scopes } }

def addTopLevel (d : Draft) (ids : List DeclId) : Draft :=
  { d with program := { d.program with topLevel := d.program.topLevel ++ ids } }

@[simp] theorem add_scopes (d : Draft) (y : Nodes) : (d.add y).program.scopes = d.program.scopes :=
  rfl

@[simp] theorem withScopes_scopes (d : Draft) (t : ScopeTree) :
    (d.withScopes t).program.scopes = t := rfl

theorem withScopes_add (d : Draft) (t : ScopeTree) (y : Nodes) :
    (d.withScopes t).add y = (d.add y).withScopes t := rfl

theorem add_empty (d : Draft) : d.add {} = d := by
  unfold add
  simp

theorem add_add (d : Draft) (x y : Nodes) : (d.add x).add y = d.add (x ++ y) := by
  unfold add
  simp [Deferred.append_assoc]

@[simp] theorem extent_add (d : Draft) (y : Nodes) :
    (d.add y).program.extent = d.program.extent + y.count := by
  ext <;> simp [add, Program.extent, Nodes.count]

/-- What is known of a draft: how many nodes there are, which functions the file has so far, and
which names were declared inside of functions. -/
structure Stands (d : Draft) (o : Extent) (functions : List (String × DeclId))
    (noted : List String) : Prop where
  extent : d.program.extent = o
  lexical : d.program.scopes.Lexical functions noted

/-- The sight is what is visible in its scope. -/
def Sees (d : Draft) (v : Sight) : Prop := d.program.scopes.Sees v.scope v.locals

/-- What is known of a draft `d'` after nodes were added to the draft `d`: where it stands, what was
added, that the scopes below `n` were kept, and what is visible at the places on the way. -/
structure Built (n : Nat) (d : Draft) (o : Extent) (functions : List (String × DeclId))
    (noted : List String) (y : Nodes) (sights : List Sight) (d' : Draft) : Prop where
  stands : d'.Stands o functions noted
  eq : d' = (d.add y).withScopes d'.program.scopes
  size : n ≤ d'.program.scopes.scopes.size
  keeps : KeepsBelow n d.program.scopes d'.program.scopes
  sights : ∀ v ∈ sights, d'.Sees v

variable {d d' d'' : Draft} {o o' : Extent} {functions functions' : List (String × DeclId)}
  {noted noted' : List String} {v : Sight} {x y : Nodes} {sights sights' : List Sight} {n m : Nat}

theorem Stands.size (h : d.Stands o functions noted) : d.program.scopes.scopes.size = o.scopes := by
  rw [← h.extent]
  rfl

/-- Nodes are added and nothing else. -/
theorem Stands.add (h : d.Stands o functions noted) (y : Nodes) :
    Built o.scopes d (o + y.count) functions noted y [] (d.add y) where
  stands := ⟨by rw [extent_add, h.extent], h.lexical⟩
  eq := rfl
  size := Nat.le_of_eq h.size.symm
  keeps := .refl _ _
  sights := fun _ hv => absurd hv List.not_mem_nil

/-- What is visible in a scope that is kept stays visible. -/
theorem Built.sees (h : Built n d o functions noted y sights d')
    (hd : d.Stands o' functions' noted') (hv : d.Sees v) (hn : v.scope.index < n) : d'.Sees v :=
  ScopeTree.Sees.of_keepsBelow hv hd.lexical h.stands.lexical h.keeps hn

/-- Fewer scopes may be told to be kept. -/
theorem Built.mono (h : Built n d o functions noted y sights d') (hmn : m ≤ n) :
    Built m d o functions noted y sights d' :=
  { h with size := Nat.le_trans hmn h.size, keeps := h.keeps.mono hmn }

/-- One stretch of building after the other. -/
theorem Built.trans (h : Built n d o functions noted x sights d')
    (h' : Built m d' o' functions' noted' y sights' d'') (hnm : n ≤ m)
    (hm : ∀ v ∈ sights, v.scope.index < m) :
    Built n d o' functions' noted' (x ++ y) (sights ++ sights') d'' where
  stands := h'.stands
  eq := by
    have heq := h'.eq
    rw [h.eq, withScopes_add, add_add] at heq
    exact heq
  size := Nat.le_trans hnm h'.size
  keeps := h.keeps.trans h'.keeps hnm
  sights := by
    intro w hw
    rcases List.mem_append.1 hw with hw | hw
    · exact h'.sees h.stands (h.sights w hw) (hm w hw)
    · exact h'.sights w hw

/-- One stretch of building after the other, when the second keeps all scopes. -/
theorem Built.trans_keeping (h : Built n d o functions noted x sights d')
    (h' : Built o.scopes d' o' functions' noted' y sights' d'') :
    Built n d o' functions' noted' (x ++ y) (sights ++ sights') d'' := by
  have hsize := h.stands.size
  refine h.trans h' (hsize ▸ h.size) fun v hv => ?_
  rw [← hsize]
  exact (h.sights v hv).lt_size

/-- The same stretch, told in other words. -/
theorem Built.imp (h : Built n d o functions noted x sights d') (ho : o = o')
    (hnoted : noted = noted') (hxy : x = y) (hsights : ∀ v ∈ sights', v ∈ sights) :
    Built n d o' functions noted' y sights' d' := by
  subst ho hnoted hxy
  exact { h with sights := fun v hv => h.sights v (hsights v hv) }

/-! ### Steps -/

theorem addDeclaration_eq (h : d.program.extent = o) (declaration : Declaration) :
    addDeclaration declaration d = .ok ⟨o.decls⟩ (d.add (.ofDeclaration declaration)) := by
  subst h
  unfold addDeclaration add Nodes.ofDeclaration
  simp [Program.nextDecl, Program.extent, Program.addDeclaration]

theorem addExpression_eq (h : d.program.extent = o) (e : Expression) :
    addExpression e d = .ok ⟨o.exprs⟩ (d.add (.ofExpression e)) := by
  subst h
  unfold addExpression add Nodes.ofExpression
  simp [Program.nextExpr, Program.extent, Program.addExpression]

theorem addStatement_eq (h : d.program.extent = o) (form : StmtForm) (place : Position) :
    addStatement form place d = .ok ⟨o.stmts⟩ (d.add (.ofStatement form place)) := by
  subst h
  unfold addStatement add Nodes.ofStatement
  simp [Program.nextStmt, Program.extent, Program.addStatement]

/-- Noting a pending reference is adding nodes that consist of the note alone. -/
theorem deferIf_eq (d : Draft) (ref : Reference) {change : Deferred → Deferred} {places : Deferred}
    (hchange : change d.deferred = d.deferred ++ places) :
    deferIf ref change d = .ok () (d.add (.deferIf ref places)) := by
  cases ref with
  | resolved id =>
      change EStateM.Result.ok () d = .ok () (d.add {})
      rw [add_empty]
  | pending name scope place =>
      change EStateM.Result.ok () { d with deferred := change d.deferred } = _
      rw [hchange]
      unfold add Nodes.deferIf
      simp

theorem addIdentifier_eq (a : Deferred) (id : ExprId) :
    a.addIdentifier id = a ++ { identifiers := [id] } := by
  change (⟨a.fields, a.identifiers ++ [id], a.statements⟩ : Deferred) =
    ⟨a.fields ++ [], a.identifiers ++ [id], a.statements ++ []⟩
  simp only [List.append_nil]

theorem addStatementPlace_eq (a : Deferred) (id : StmtId) :
    a.addStatement id = a ++ { statements := [id] } := by
  change (⟨a.fields, a.identifiers, a.statements ++ [id]⟩ : Deferred) =
    ⟨a.fields ++ [], a.identifiers ++ [], a.statements ++ [id]⟩
  simp only [List.append_nil]

theorem addField_eq (a : Deferred) (id : DeclId) : a.addField id = a ++ { fields := [id] } := by
  change (⟨a.fields ++ [id], a.identifiers, a.statements⟩ : Deferred) =
    ⟨a.fields ++ [id], a.identifiers ++ [], a.statements ++ []⟩
  simp only [List.append_nil]

theorem Stands.typeReference_eq (h : d.Stands o functions noted) (hv : d.Sees v) (name : Name) :
    d.program.typeReference v.scope name.text name.position = Sight.type v.scope name := by
  obtain ⟨scope, hscope⟩ := hv.scope
  unfold Program.typeReference Program.findType? Sight.type
  rw [h.lexical.search_type hv.inner hscope]

theorem variableReference_eq (hv : d.Sees v) (name : Name) :
    d.program.variableReference v.scope name.text name.position = v.target name := by
  unfold Program.variableReference Program.findVariable? Sight.target
  rw [hv.var]

theorem Stands.valueReference_eq (h : d.Stands o functions noted) (hv : d.Sees v) (name : Name) :
    d.program.valueReference v.scope name.text name.position = v.value functions name := by
  obtain ⟨scope, hscope⟩ := hv.scope
  unfold Program.valueReference Program.findValue? Program.findVariable? Sight.value
  rw [hv.var, h.lexical.search_func hv.inner hscope]
  cases v.locals.lookup name.text <;> rfl

end Draft

/-! ### Expressions -/

namespace Syntax

open Draft

variable {d : Draft} {o : Extent} {functions : List (String × DeclId)} {noted : List String}
  {v : Sight}

/-- The expressions of a list are laid out one behind the other, if each of them is laid out on its
own. -/
theorem Expr.buildAll_of_forall (es : List Expr)
    (hes : ∀ e ∈ es, ∀ {d o}, d.Stands o functions noted → d.Sees v →
      e.build v.scope d = .ok (e.root o) (d.add (e.nodes functions v o)))
    (h : d.Stands o functions noted) (hv : d.Sees v) :
    Expr.buildAll v.scope es d =
      .ok (Expr.roots o es) (d.add (Expr.nodesAll functions v o es)) := by
  induction es generalizing d o with
  | nil =>
      rw [Expr.nodesAll, add_empty]
      rfl
  | cons e es ih =>
      have hbuild := hes e List.mem_cons_self h hv
      have h₁ := (h.add (e.nodes functions v o)).stands
      rw [Expr.count_nodes] at h₁
      have hall := ih (fun e' he' => hes e' (List.mem_cons_of_mem e he')) h₁ hv
      rw [Expr.nodesAll, ← add_add]
      exact bind_ok hbuild (bind_ok hall rfl)

/-- **Building comes to the nodes of the expression**, whatever was built before. -/
theorem Expr.build_eq (e : Expr) (h : d.Stands o functions noted) (hv : d.Sees v) :
    e.build v.scope d = .ok (e.root o) (d.add (e.nodes functions v o)) := by
  -- every part stands behind the nodes of the parts before it
  induction e generalizing d o with
  | literal value place => exact addExpression_eq h.extent _
  | name n =>
      rw [Expr.nodes, ← add_add, Expr.build, Name.build]
      refine bind_ok rfl ?_
      rw [h.valueReference_eq hv]
      exact bind_ok (addExpression_eq h.extent _)
        (bind_ok (deferIf_eq _ _ (addIdentifier_eq _ _)) rfl)
  | not place operand ih =>
      have h₁ := (h.add (operand.nodes functions v o)).stands
      rw [Expr.count_nodes] at h₁
      rw [Expr.nodes, ← add_add]
      exact bind_ok (ih h hv) (addExpression_eq h₁.extent _)
  | binary operator place left right ihLeft ihRight =>
      have h₁ := (h.add (left.nodes functions v o)).stands
      rw [Expr.count_nodes] at h₁
      have h₂ := (h₁.add (right.nodes functions v (o + .ofExprs left.size))).stands
      rw [Expr.count_nodes] at h₂
      have hroot : (Expr.binary operator place left right).root o =
          ⟨(o + .ofExprs left.size + .ofExprs right.size).exprs⟩ := by
        simp only [Expr.root, Expr.size, Extent.ofExprs, Extent.add_exprs, ExprId.mk.injEq]
        omega
      rw [Expr.nodes, ← add_add, ← add_add, hroot]
      exact bind_ok (ihLeft h hv) (bind_ok (ihRight h₁ hv) (addExpression_eq h₂.extent _))
  | call callee arguments ihCallee ihArguments =>
      have h₁ := (h.add (callee.nodes functions v o)).stands
      rw [Expr.count_nodes] at h₁
      have hall := Expr.buildAll_of_forall arguments (fun e he {_ _} => ihArguments e he) h₁ hv
      have h₂ := (h₁.add (Expr.nodesAll functions v (o + .ofExprs callee.size) arguments)).stands
      rw [Expr.count_nodesAll'] at h₂
      have hroot : (Expr.call callee arguments).root o =
          ⟨(o + .ofExprs callee.size + .ofExprs (Expr.sizes arguments)).exprs⟩ := by
        simp only [Expr.root, Expr.size, Extent.ofExprs, Extent.add_exprs, ExprId.mk.injEq]
        omega
      rw [Expr.nodes, ← add_add, ← add_add, hroot]
      exact bind_ok (ihCallee h hv) (bind_ok hall (addExpression_eq h₂.extent _))

theorem Expr.buildAll_eq (es : List Expr) (h : d.Stands o functions noted) (hv : d.Sees v) :
    Expr.buildAll v.scope es d =
      .ok (Expr.roots o es) (d.add (Expr.nodesAll functions v o es)) :=
  Expr.buildAll_of_forall es (fun e _ {_ _} h hv => Expr.build_eq e h hv) h hv

/-! ### Statements without blocks -/

/-- Making the value of an update lays out its nodes, and never fails. -/
theorem Update.build_eq (u : Update) (h : d.Stands o functions noted) (hv : d.Sees v) :
    u.build v.scope d = .ok (u.change o) (d.add (u.nodes functions v o)) := by
  cases u with
  | assign value => exact map_ok_iff.2 ⟨_, Expr.build_eq value h hv, rfl⟩
  | add value => exact map_ok_iff.2 ⟨_, Expr.build_eq value h hv, rfl⟩
  | subtract value => exact map_ok_iff.2 ⟨_, Expr.build_eq value h hv, rfl⟩
  | increment =>
      rw [Update.nodes, add_empty]
      rfl
  | decrement =>
      rw [Update.nodes, add_empty]
      rfl

/-- Making a statement without blocks lays out its nodes, and never fails. -/
theorem Simple.build_eq (s : Simple) (h : d.Stands o functions noted) (hv : d.Sees v) :
    s.build v.scope d = .ok (Simple.root o) (d.add (s.nodes functions v o)) := by
  cases s with
  | call place e =>
      have h₁ := (h.add (e.nodes functions v o)).stands
      rw [Expr.count_nodes] at h₁
      rw [Simple.nodes, ← add_add]
      exact bind_ok (Expr.build_eq e h hv) (addStatement_eq h₁.extent _ _)
  | change name update =>
      have h₁ := (h.add (update.nodes functions v o)).stands
      rw [Update.count_nodes] at h₁
      rw [Simple.nodes, ← add_add, ← add_add, Simple.build]
      refine bind_ok rfl ?_
      rw [variableReference_eq hv]
      exact bind_ok (Update.build_eq update h hv) (bind_ok (addStatement_eq h₁.extent _ _)
        (bind_ok (deferIf_eq _ _ (addStatementPlace_eq _ _)) rfl))

theorem Simple.buildMaybe_eq (s? : Option Simple) (h : d.Stands o functions noted)
    (hv : d.Sees v) :
    Simple.buildMaybe v.scope s? d =
      .ok (Simple.root? o s?) (d.add (Simple.nodes? functions v o s?)) := by
  cases s? with
  | none =>
      rw [Simple.nodes?, add_empty]
      rfl
  | some s => exact map_ok_iff.2 ⟨_, Simple.build_eq s h hv, rfl⟩

/-! ### Statements -/

/-- The names of the visible variables, the nearest first. -/
def Sight.names (v : Sight) : List String := v.locals.map Prod.fst

theorem lookup_eq_none_iff {locals : List (String × DeclId)} {name : String} :
    locals.lookup name = none ↔ name ∉ locals.map Prod.fst := by
  induction locals with
  | nil => simp
  | cons x locals ih =>
      obtain ⟨other, decl⟩ := x
      rw [List.lookup_cons]
      by_cases hname : name = other
      · simp [hname]
      · have hbeq : (name == other) = false := by simpa using hname
        simp [hbeq, hname, ih]

theorem ofName?_eq_none_iff {name : String} :
    BasicType.ofName? name = none ↔ ¬ IsTypeName name := by
  constructor
  · rintro hnone ⟨b, rfl⟩
    simp at hnone
  · intro hname
    cases hb : BasicType.ofName? name with
    | none => rfl
    | some b => exact absurd ⟨b, BasicType.name_of_ofName? hb⟩ hname

theorem free_iff {name : String} : Free functions v.locals name ↔
    (name ∉ v.names ∧ ¬ IsTypeName name) ∧ name ∉ functions.map Prod.fst := by
  rw [Free, lookup_eq_none_iff, lookup_eq_none_iff, ofName?_eq_none_iff, and_assoc]
  rfl

/-- A variable is declared in a copy of the scope. -/
theorem extend_meets (name : Name) (decl : DeclId) (h : d.Stands o functions noted)
    (hv : d.Sees v) :
    Meets (Draft.onProgram (Program.extend v.scope name.text decl name.position)) d
      ((name.text ∉ v.names ∧ ¬ IsTypeName name.text) ∧ name.text ∉ functions.map Prod.fst)
      fun copy d' => copy = ⟨o.scopes⟩ ∧
        Built o.scopes d (o + .scope) functions (name.text :: noted) {} [] d' ∧
        d'.Sees ⟨⟨o.scopes⟩, (name.text, decl) :: v.locals⟩ := by
  have hmeets :
      Meets (ScopeTree.extend v.scope name.text decl name.position) d.program.scopes _ _ :=
    ScopeTree.extend_meets h.lexical hv
  rw [free_iff] at hmeets
  have hnext : d.program.scopes.next = ⟨o.scopes⟩ := congrArg ScopeId.mk h.size
  constructor
  · intro copy d' hok
    cases hextend : ScopeTree.extend v.scope name.text decl name.position d.program.scopes with
    | error e t =>
        simp [Draft.onProgram, Program.extend, hextend] at hok
    | ok copy' t =>
        simp only [Draft.onProgram, Program.extend, hextend] at hok
        cases hok
        obtain ⟨hfree, rfl, hlexical, hsees, hkeeps, hsize⟩ := hmeets.of_ok hextend
        rw [hnext] at hsees
        refine ⟨hfree, hnext, ⟨⟨?_, hlexical⟩, ?_, ?_, h.size ▸ hkeeps, ?_⟩, hsees⟩
        · rw [← h.extent]
          ext <;> simp [Program.extent, Extent.scope, hsize]
        · rw [add_empty]
          rfl
        · rw [← h.size]
          exact Nat.le_of_lt (hsize ▸ Nat.lt_succ_self _)
        · exact fun _ hv => absurd hv List.not_mem_nil
  · intro hfree
    obtain ⟨copy, t, hok⟩ := hmeets.exists_ok hfree
    refine ⟨copy, d.withScopes t, ?_⟩
    simp only [Draft.onProgram, Program.extend, hok]
    rfl

/-- A block is entered. -/
theorem newScope_block_ok (h : d.Stands o functions noted) (hv : d.Sees v) :
    ∃ d', Draft.onProgram (Program.newScope .block v.scope) d = .ok (v.enter o).scope d' ∧
      Built o.scopes d (o + .scope) functions noted {} [v, v.enter o] d' := by
  have hnext : d.program.scopes.next = ⟨o.scopes⟩ := congrArg ScopeId.mk h.size
  obtain ⟨hlexical, hsees⟩ := ScopeTree.nest_block h.lexical hv
  rw [hnext] at hsees
  have hkeeps : KeepsBelow d.program.scopes.scopes.size d.program.scopes
      (d.program.scopes.nest .block v.scope).2 := keepsBelow_push
  have hsize : (d.program.scopes.nest .block v.scope).2.scopes.size =
      d.program.scopes.scopes.size + 1 := size_push
  refine ⟨d.withScopes (d.program.scopes.nest .block v.scope).2, ?_, ⟨?_, hlexical⟩, ?_, ?_, ?_, ?_⟩
  · simp only [Draft.onProgram, Program.newScope]
    exact congrArg (EStateM.Result.ok · _) hnext
  · rw [← h.extent]
    ext <;> simp [Program.extent, Extent.scope, Draft.withScopes, hsize]
  · rw [add_empty]
    rfl
  · rw [← h.size, withScopes_scopes]
    omega
  · rw [← h.size]
    exact hkeeps
  · intro w hw
    rcases List.mem_cons.1 hw with rfl | hw
    · exact hv.of_keepsBelow h.lexical hlexical hkeeps hv.lt_size
    · rw [List.mem_singleton.1 hw]
      exact hsees

/-- What making a statement comes to, and when it succeeds. -/
def Stmt.BuildMeets (functions : List (String × DeclId)) (s : Stmt) : Prop :=
  ∀ ⦃d o noted v⦄, d.Stands o functions noted → d.Sees v →
    Meets (s.build v.scope) d (s.Clear (functions.map Prod.fst) v.names)
      fun result d' => result = (s.root o, (s.after v o).scope) ∧
        Built o.scopes d (o + s.extent) functions (s.names ++ noted) (s.nodes functions v o)
          (s.sights v o) d' ∧ d'.Sees (s.after v o)

theorem Stmt.names_after (s : Stmt) (v : Sight) (o : Extent) :
    (s.after v o).names = s.behind v.names := by
  cases s <;> rfl

/-- Making the statements of a list lays them out one behind the other, each in the sight that the
ones before it leave; it succeeds exactly if the names of their variables are free. -/
theorem Stmt.buildAll_meets_of_forall (xs : List Stmt) (hxs : ∀ x ∈ xs, x.BuildMeets functions)
    (h : d.Stands o functions noted) (hv : d.Sees v) :
    Meets (Stmt.buildAll v.scope xs) d (Stmt.ClearAll (functions.map Prod.fst) v.names xs)
      fun ids d' => ids = Stmt.roots o xs ∧
        Built o.scopes d (o + Stmt.extents xs) functions (Stmt.namesAll xs ++ noted)
          (Stmt.nodesAll functions v o xs) (Stmt.sightsAll v o xs) d' := by
  induction xs generalizing d o noted v with
  | nil =>
      have hbuilt := h.add {}
      rw [add_empty] at hbuilt
      refine (Meets.of_eq rfl ⟨rfl, hbuilt⟩).imp ?_ id
      simp [Stmt.ClearAll, Stmt.DistinctAll, Stmt.namesAll]
  | cons x xs ih =>
      have hx := hxs x List.mem_cons_self
      have hrest : ∀ y ∈ xs, y.BuildMeets functions :=
        fun y hy => hxs y (List.mem_cons_of_mem x hy)
      rw [Stmt.buildAll]
      refine Meets.imp (c := _ ∧ Stmt.ClearAll (functions.map Prod.fst) (x.behind v.names) xs)
        ((hx h hv).bind fun result d₁ hfirst => ?_) ?_ id
      · obtain ⟨rfl, hbuilt, hsees⟩ := hfirst
        have hothers := ih hrest hbuilt.stands hsees
        rw [Stmt.names_after] at hothers
        refine hothers.bind_always fun ids d₂ hids => ?_
        obtain ⟨rfl, hbuilt'⟩ := hids
        refine Meets.of_eq rfl ⟨rfl, (hbuilt.trans_keeping hbuilt').imp ?_ ?_ rfl fun _ hw => hw⟩
        · rw [Extent.add_assoc]
          rfl
        · rw [← List.append_assoc]
          rfl
      -- what the first statement declares is visible to the others
      · simp only [Stmt.Clear, Stmt.ClearAll, Stmt.DistinctAll, Stmt.namesAll, List.mem_append]
        constructor
        · rintro ⟨⟨hx, hxNames⟩, hrest, hrestNames⟩
          exact ⟨⟨hx, hrest⟩, fun y hy => hy.elim (hrestNames y) (hxNames y)⟩
        · rintro ⟨⟨hx, hrest⟩, hnames⟩
          exact ⟨⟨hx, fun y hy => hnames y (.inr hy)⟩, hrest, fun y hy => hnames y (.inl hy)⟩

/-- Statements in braces are laid out in a new scope, where they see what is visible around it. -/
theorem Stmt.buildBlock_meets (xs : List Stmt) (hxs : ∀ x ∈ xs, x.BuildMeets functions)
    (h : d.Stands o functions noted) (hv : d.Sees v) :
    Meets (Stmt.buildBlock (fun inner => Stmt.buildAll inner xs) v.scope) d
      (Stmt.ClearAll (functions.map Prod.fst) v.names xs)
      fun block d' => block = Stmt.block o xs ∧
        Built o.scopes d (o + (.scope + Stmt.extents xs)) functions (Stmt.namesAll xs ++ noted)
          (Stmt.nodesAll functions (v.enter o) (o + .scope) xs)
          (v :: Stmt.sightsAll (v.enter o) (o + .scope) xs) d' := by
  obtain ⟨d₁, hok, hentered⟩ := newScope_block_ok h hv
  have hinner : d₁.Sees (v.enter o) := hentered.sights _ (by simp)
  have hlist := Stmt.buildAll_meets_of_forall xs hxs hentered.stands hinner
  refine Meets.bind_eq hok ?_
  refine hlist.bind_always fun ids d₂ hids => ?_
  obtain ⟨rfl, hbuilt⟩ := hids
  refine Meets.of_eq rfl ⟨rfl, (hentered.trans_keeping hbuilt).imp ?_ rfl rfl ?_⟩
  · rw [Extent.add_assoc]
  · intro w hw
    rcases List.mem_cons.1 hw with rfl | hw
    · simp
    · exact List.mem_append_right _ hw

/-- The last statement of a tree stands behind its parts. -/
theorem Stmt.root_eq {s : Stmt} {parts : Extent} (h : s.extent = parts + .stmt) :
    s.root o = ⟨(o + parts).stmts⟩ := by
  simp [Stmt.root, h, Extent.stmt]

/-- The statement itself is added behind its parts, and the same is visible behind it. -/
theorem Stmt.close_meets {s : Stmt} {parts : Extent} {y : Nodes} {sights : List Sight}
    {form : StmtForm} {place : Position} {d' : Draft}
    (h : Built o.scopes d (o + parts) functions noted y sights d') (hv : d'.Sees v)
    (hextent : s.extent = parts + .stmt) (hafter : s.after v o = v)
    (hnodes : s.nodes functions v o = y ++ .ofStatement form place)
    (hsights : ∀ w ∈ s.sights v o, w = v ∨ w ∈ sights) :
    Meets (addStatement form place >>= fun id => pure (id, v.scope)) d' True
      fun result d'' => result = (s.root o, (s.after v o).scope) ∧
        Built o.scopes d (o + s.extent) functions noted (s.nodes functions v o) (s.sights v o) d'' ∧
          d''.Sees (s.after v o) := by
  have hadded := h.stands.add (.ofStatement form place)
  have hall := h.trans_keeping hadded
  refine Meets.of_eq (bind_ok (addStatement_eq h.stands.extent form place) rfl) ⟨?_, ?_, ?_⟩
  · rw [hafter, Stmt.root_eq hextent]
  · rw [hextent, hnodes, ← Extent.add_assoc]
    refine { hall with sights := fun w hw => ?_ }
    rcases hsights w hw with rfl | hw
    · exact hv
    · exact h.sights w hw
  · rw [hafter]
    exact hv

/-- A variable is declared in a copy of the scope, if its name is free. -/
theorem Stmt.declare_meets (place : Position) (name type : Name) :
    (Stmt.declare place name type).BuildMeets functions := by
  intro d o noted v h hv
  have h₁ := h.add (.ofDeclaration (.var ⟨some name.text, name.position,
    Sight.type v.scope type⟩))
  rw [Stmt.build, Stmt.buildDeclare]
  refine Meets.bind_eq rfl ?_
  simp only [h.typeReference_eq hv]
  refine Meets.bind_eq (addDeclaration_eq h.extent _) ?_
  refine Meets.imp
    ((extend_meets name ⟨o.decls⟩ h₁.stands hv).bind_always fun copy d₂ hcopy => ?_) ?_ id
  · obtain ⟨rfl, h₂, hsees⟩ := hcopy
    have h₃ := h₂.stands.add (.ofStatement (.declare ⟨o.decls⟩) place)
    have h₄ := h₃.stands.add
      (.deferIf (Sight.type v.scope type) { statements := [⟨o.stmts⟩] })
    refine Meets.of_eq (bind_ok (addStatement_eq h₂.stands.extent _ _)
      (bind_ok (deferIf_eq _ _ (addStatementPlace_eq _ _)) rfl)) ⟨rfl, ?_, hsees⟩
    -- the place of the declaration itself is visible behind it
    have hsees₁ : d₂.Sees v := h₂.sees h₁.stands hv (h.size ▸ hv.lt_size)
    have hall := h₁.trans_keeping ((Built.mk h₂.stands h₂.eq h₂.size h₂.keeps
      fun w hw => List.mem_singleton.1 hw ▸ hsees₁).trans_keeping (h₃.trans_keeping h₄))
    refine hall.imp ?_ rfl rfl fun w hw => by simpa [Stmt.sights] using hw
    simp [Stmt.extent, Extent.add_assoc]
  · simp [Stmt.Clear, Stmt.Distinct, Stmt.names]

theorem Stmt.simple_meets (s : Simple) : (Stmt.simple s).BuildMeets functions := by
  intro d o noted v h hv
  have h₁ := h.add (s.nodes functions v o)
  rw [Simple.count_nodes] at h₁
  have hclear : True ↔ Stmt.Clear (functions.map Prod.fst) v.names (.simple s) := by
    simp [Stmt.Clear, Stmt.Distinct, Stmt.names]
  refine Meets.imp (Meets.of_eq (bind_ok (Simple.build_eq s h hv) rfl) ⟨?_, ?_, hv⟩) hclear id
  · have hextent : (Stmt.simple s).extent.stmts = 1 := by
      cases s <;> rfl
    rw [Stmt.root, hextent]
    rfl
  · exact { h₁ with sights := fun w hw => List.mem_singleton.1 hw ▸ hv }

section Blocks

variable {thenBlock elseBlock body : List Stmt} (place : Position) (condition : Expr)

/-- A choice without a second part needs the names of its block to be free. -/
theorem Stmt.branch_meets (hthen : ∀ x ∈ thenBlock, x.BuildMeets functions) :
    (Stmt.branch place condition thenBlock none).BuildMeets functions := by
  intro d o noted v h hv
  have h₁ := h.add (condition.nodes functions v o)
  rw [Expr.count_nodes] at h₁
  rw [Stmt.build]
  refine Meets.bind_eq (Expr.build_eq condition h hv) ?_
  refine Meets.imp ((Stmt.buildBlock_meets thenBlock hthen h₁.stands hv).bind_always
    fun block d₂ hblock => ?_) ?_ id
  · obtain ⟨rfl, h₂⟩ := hblock
    have hall := h₁.trans_keeping h₂
    rw [Extent.add_assoc] at hall
    refine Stmt.close_meets hall (h₂.sights v List.mem_cons_self) rfl rfl ?_ ?_
    · rw [Nodes.append_assoc]
      rfl
    · simp [Stmt.sights]
  · simp only [Stmt.Clear, Stmt.ClearAll, Stmt.Distinct, Stmt.names]

/-- In a choice with two parts, each of them starts from what is visible before both. -/
theorem Stmt.branchElse_meets (hthen : ∀ x ∈ thenBlock, x.BuildMeets functions)
    (helse : ∀ x ∈ elseBlock, x.BuildMeets functions) :
    (Stmt.branch place condition thenBlock (some elseBlock)).BuildMeets functions := by
  intro d o noted v h hv
  have h₁ := h.add (condition.nodes functions v o)
  rw [Expr.count_nodes] at h₁
  rw [Stmt.build]
  refine Meets.bind_eq (Expr.build_eq condition h hv) ?_
  -- the second block starts from what is visible before the first one
  refine Meets.imp (c := _ ∧ Stmt.ClearAll (functions.map Prod.fst) v.names elseBlock)
    ((Stmt.buildBlock_meets thenBlock hthen h₁.stands hv).bind fun block d₂ hblock => ?_) ?_ id
  · obtain ⟨rfl, h₂⟩ := hblock
    have hv₂ : d₂.Sees v := h₂.sights v List.mem_cons_self
    refine (Stmt.buildBlock_meets elseBlock helse h₂.stands hv₂).bind_always
      fun block d₃ hblock => ?_
    obtain ⟨rfl, h₃⟩ := hblock
    have hall := h₁.trans_keeping (h₂.trans_keeping h₃)
    refine Stmt.close_meets (hall.imp ?_ ?_ rfl fun _ hw => hw) (h₃.sights v List.mem_cons_self)
      rfl rfl ?_ ?_
    · simp only [Extent.add_assoc]
    · simp [Stmt.names]
    · rw [Nodes.append_assoc, Nodes.append_assoc]
      rfl
    · simp only [Stmt.sights, List.mem_cons, List.mem_append]
      grind
  · simp only [Stmt.Clear, Stmt.ClearAll, Stmt.Distinct, Stmt.names, List.mem_append]
    grind

theorem Stmt.whileLoop_meets (hbody : ∀ x ∈ body, x.BuildMeets functions) :
    (Stmt.whileLoop place condition body).BuildMeets functions := by
  intro d o noted v h hv
  have h₁ := h.add (condition.nodes functions v o)
  rw [Expr.count_nodes] at h₁
  rw [Stmt.build]
  refine Meets.bind_eq (Expr.build_eq condition h hv) ?_
  refine Meets.imp ((Stmt.buildBlock_meets body hbody h₁.stands hv).bind_always
    fun block d₂ hblock => ?_) ?_ id
  · obtain ⟨rfl, h₂⟩ := hblock
    have hall := h₁.trans_keeping h₂
    rw [Extent.add_assoc] at hall
    refine Stmt.close_meets hall (h₂.sights v List.mem_cons_self) rfl rfl ?_ ?_
    · rw [Nodes.append_assoc]
      rfl
    · simp [Stmt.sights]
  · simp only [Stmt.Clear, Stmt.ClearAll, Stmt.Distinct, Stmt.names]

/-- In a counted repetition the parts of the head come first, and the block last. -/
theorem Stmt.forLoop_meets (init? action? : Option Simple)
    (hbody : ∀ x ∈ body, x.BuildMeets functions) :
    (Stmt.forLoop place init? condition action? body).BuildMeets functions := by
  intro d o noted v h hv
  have h₁ := h.add (Simple.nodes? functions v o init?)
  rw [Simple.count_nodes?] at h₁
  have h₂ := h₁.stands.add (condition.nodes functions v (o + Simple.extent? init?))
  rw [Expr.count_nodes] at h₂
  have h₃ := h₂.stands.add (Simple.nodes? functions v
    (o + Simple.extent? init? + .ofExprs condition.size) action?)
  rw [Simple.count_nodes?] at h₃
  rw [Stmt.build]
  refine Meets.bind_eq (Simple.buildMaybe_eq init? h hv) ?_
  refine Meets.bind_eq (Expr.build_eq condition h₁.stands hv) ?_
  refine Meets.bind_eq (Simple.buildMaybe_eq action? h₂.stands hv) ?_
  refine Meets.imp ((Stmt.buildBlock_meets body hbody h₃.stands hv).bind_always
    fun block d₄ hblock => ?_) ?_ id
  · obtain ⟨rfl, h₄⟩ := hblock
    have hall := h₁.trans_keeping (h₂.trans_keeping (h₃.trans_keeping h₄))
    refine Stmt.close_meets (hall.imp ?_ rfl rfl fun _ hw => hw) (h₄.sights v List.mem_cons_self)
      rfl rfl ?_ ?_
    · simp only [Extent.add_assoc]
    · simp only [Nodes.append_assoc]
      rfl
    · simp [Stmt.sights]
  · simp only [Stmt.Clear, Stmt.ClearAll, Stmt.Distinct, Stmt.names]

end Blocks

theorem Stmt.result_meets (place : Position) (values : List Expr) :
    (Stmt.result place values).BuildMeets functions := by
  intro d o noted v h hv
  have h₁ := h.add (Expr.nodesAll functions v o values)
  rw [Expr.count_nodesAll'] at h₁
  have hclear : True ↔ Stmt.Clear (functions.map Prod.fst) v.names (.result place values) := by
    simp [Stmt.Clear, Stmt.Distinct, Stmt.names]
  refine Meets.imp (Meets.bind_eq (Expr.buildAll_eq values h hv) ?_) hclear id
  exact Stmt.close_meets h₁ hv rfl rfl rfl (by simp [Stmt.sights])

/-- **When a statement can be made**, and its nodes. -/
theorem Stmt.build_meets (s : Stmt) : s.BuildMeets functions := by
  induction s with
  | declare place name type => exact Stmt.declare_meets place name type
  | simple s => exact Stmt.simple_meets s
  | branch place condition thenBlock ih => exact Stmt.branch_meets place condition ih
  | branchElse place condition thenBlock elseBlock ihThen ihElse =>
      exact Stmt.branchElse_meets place condition ihThen ihElse
  | whileLoop place condition body ih => exact Stmt.whileLoop_meets place condition ih
  | forLoop place init? condition action? body ih =>
      exact Stmt.forLoop_meets place condition init? action? ih
  | result place values => exact Stmt.result_meets place values

theorem Stmt.buildAll_meets (xs : List Stmt) (h : d.Stands o functions noted) (hv : d.Sees v) :
    Meets (Stmt.buildAll v.scope xs) d (Stmt.ClearAll (functions.map Prod.fst) v.names xs)
      fun ids d' => ids = Stmt.roots o xs ∧
        Built o.scopes d (o + Stmt.extents xs) functions (Stmt.namesAll xs ++ noted)
          (Stmt.nodesAll functions v o xs) (Stmt.sightsAll v o xs) d' :=
  Stmt.buildAll_meets_of_forall xs (fun x _ => Stmt.build_meets x) h hv

end Syntax

end FrontEnd
