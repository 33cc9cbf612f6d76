/-
**Which nodes a tree comes to.**

Given the functions of the file and the variables that are visible, the nodes of a tree can be
written down at once: a name stands for the nearest visible variable, or else for the function of
that name, and every node is numbered by the nodes before it.  Nothing here looks into scopes; only
a reference that finds nothing keeps the number of the scope in which it stands.

Main definitions:

* `FrontEnd.Syntax.Sight` — what is visible at a place of a function body;
* `FrontEnd.Syntax.Nodes` — the nodes of a tree, and the places of its pending references;
* `FrontEnd.Syntax.Expr.nodes`, `FrontEnd.Syntax.Stmt.nodes`, `FrontEnd.Syntax.Func.nodes`,
  `FrontEnd.Syntax.fileNodes` — the nodes of each sort of tree, behind nodes of the given extent;
* `FrontEnd.Syntax.Expr.root`, `FrontEnd.Syntax.Stmt.root`, `FrontEnd.Syntax.Func.root` — the node
  that stands for the whole of a tree.
-/

import FrontEnd.Deferred
import FrontEnd.Proofs.Scopes.Lexical
import FrontEnd.Proofs.Syntax.Tree

set_option relaxedAutoImplicit false
set_option autoImplicit false

namespace FrontEnd

/-! ### Pending references -/

namespace Deferred

instance : Append Deferred :=
  ⟨fun a b => ⟨a.fields ++ b.fields, a.identifiers ++ b.identifiers, a.statements ++ b.statements⟩⟩

@[simp] theorem append_fields (a b : Deferred) : (a ++ b).fields = a.fields ++ b.fields := rfl

@[simp] theorem append_identifiers (a b : Deferred) :
    (a ++ b).identifiers = a.identifiers ++ b.identifiers := rfl

@[simp] theorem append_statements (a b : Deferred) :
    (a ++ b).statements = a.statements ++ b.statements := rfl

@[simp] theorem append_empty (a : Deferred) : a ++ ({} : Deferred) = a := by
  change (⟨a.fields ++ [], a.identifiers ++ [], a.statements ++ []⟩ : Deferred) = a
  simp only [List.append_nil]

@[simp] theorem empty_append (a : Deferred) : ({} : Deferred) ++ a = a := rfl

theorem append_assoc (a b c : Deferred) : a ++ b ++ c = a ++ (b ++ c) := by
  change (⟨a.fields ++ b.fields ++ c.fields, a.identifiers ++ b.identifiers ++ c.identifiers,
    a.statements ++ b.statements ++ c.statements⟩ : Deferred) =
    ⟨a.fields ++ (b.fields ++ c.fields), a.identifiers ++ (b.identifiers ++ c.identifiers),
      a.statements ++ (b.statements ++ c.statements)⟩
  simp only [List.append_assoc]

end Deferred

namespace Syntax

/-! ### Nodes -/

/-- The nodes of a tree by sort, and the places of its pending references. -/
structure Nodes where
  /-- The declarations in order. -/
  declarations : List Declaration := []
  /-- The expressions in order. -/
  expressions : List Expression := []
  /-- The statements in order. -/
  statements : List Statement := []
  /-- The places of the pending references. -/
  deferred : Deferred := {}
  deriving DecidableEq

namespace Nodes

instance : Append Nodes :=
  ⟨fun a b => ⟨a.declarations ++ b.declarations, a.expressions ++ b.expressions,
    a.statements ++ b.statements, a.deferred ++ b.deferred⟩⟩

@[simp] theorem append_declarations (a b : Nodes) :
    (a ++ b).declarations = a.declarations ++ b.declarations := rfl

@[simp] theorem append_expressions (a b : Nodes) :
    (a ++ b).expressions = a.expressions ++ b.expressions := rfl

@[simp] theorem append_statements (a b : Nodes) :
    (a ++ b).statements = a.statements ++ b.statements := rfl

@[simp] theorem append_deferred (a b : Nodes) : (a ++ b).deferred = a.deferred ++ b.deferred := rfl

@[simp] theorem append_empty (a : Nodes) : a ++ ({} : Nodes) = a := by
  change (⟨a.declarations ++ [], a.expressions ++ [], a.statements ++ [],
    a.deferred ++ ({} : Deferred)⟩ : Nodes) = a
  simp only [List.append_nil, Deferred.append_empty]

@[simp] theorem empty_append (a : Nodes) : ({} : Nodes) ++ a = a := by
  change (⟨a.declarations, a.expressions, a.statements, ({} : Deferred) ++ a.deferred⟩ : Nodes) = a
  rw [Deferred.empty_append]

theorem append_assoc (a b c : Nodes) : a ++ b ++ c = a ++ (b ++ c) := by
  change (⟨a.declarations ++ b.declarations ++ c.declarations,
    a.expressions ++ b.expressions ++ c.expressions, a.statements ++ b.statements ++ c.statements,
    a.deferred ++ b.deferred ++ c.deferred⟩ : Nodes) =
    ⟨a.declarations ++ (b.declarations ++ c.declarations),
      a.expressions ++ (b.expressions ++ c.expressions),
      a.statements ++ (b.statements ++ c.statements), a.deferred ++ (b.deferred ++ c.deferred)⟩
  simp only [List.append_assoc, Deferred.append_assoc]

/-- One declaration. -/
def ofDeclaration (d : Declaration) : Nodes := { declarations := [d] }

def ofExpression (e : Expression) : Nodes := { expressions := [e] }

def ofStatement (form : StmtForm) (place : Position) : Nodes := { statements := [⟨form, place⟩] }

/-- No nodes, but the given places if the reference is pending. -/
def deferIf (ref : Reference) (places : Deferred) : Nodes :=
  if ref.isPending then { deferred := places } else {}

/-- How many nodes there are of each sort; scopes do not count. -/
def count (y : Nodes) : Extent :=
  { decls := y.declarations.length, exprs := y.expressions.length, stmts := y.statements.length }

@[simp] theorem count_append (a b : Nodes) : (a ++ b).count = a.count + b.count := by
  ext <;> simp [count]

@[simp] theorem count_ofDeclaration (d : Declaration) : (ofDeclaration d).count = .decl := rfl

@[simp] theorem count_ofExpression (e : Expression) : (ofExpression e).count = .ofExprs 1 := rfl

@[simp] theorem count_ofStatement (form : StmtForm) (place : Position) :
    (ofStatement form place).count = .stmt := rfl

@[simp] theorem count_deferIf (ref : Reference) (places : Deferred) :
    (deferIf ref places).count = {} := by
  cases ref <;> rfl

end Nodes

/-! ### Names -/

/-- What is visible at a place of a function body: the scope of the place, and the variables that
it sees with the nearest first. -/
structure Sight where
  /-- The scope. -/
  scope : ScopeId
  /-- The variables. -/
  locals : List (String × DeclId)

namespace Sight

/-- What a type name refers to. -/
def type (scope : ScopeId) (name : Name) : Reference :=
  .ofFound ((BasicType.ofName? name.text).map BasicType.declaration) name.text scope name.position

/-- What the name of a changed variable refers to. -/
def target (v : Sight) (name : Name) : Reference :=
  .ofFound (v.locals.lookup name.text) name.text v.scope name.position

/-- What a name in an expression refers to: the nearest variable, or else a function. -/
def value (functions : List (String × DeclId)) (v : Sight) (name : Name) : Reference :=
  .ofFound ((v.locals.lookup name.text).or (functions.lookup name.text)) name.text v.scope
    name.position

/-- What is visible inside of a block, behind nodes of the given extent. -/
def enter (v : Sight) (o : Extent) : Sight := ⟨⟨o.scopes⟩, v.locals⟩

/-- What is visible behind the declaration of a variable. -/
def declare (v : Sight) (o : Extent) (name : Name) : Sight :=
  ⟨⟨o.scopes⟩, (name.text, ⟨o.decls⟩) :: v.locals⟩

end Sight

variable (functions : List (String × DeclId))

/-! ### Expressions -/

namespace Expr

/-- The node of the whole expression, behind nodes of the given extent. -/
def root (o : Extent) (e : Expr) : ExprId := ⟨o.exprs + e.size - 1⟩

def roots (o : Extent) : List Expr → List ExprId
  | [] => []
  | e :: others => e.root o :: roots (o + .ofExprs e.size) others

mutual

/-- The nodes of an expression, behind nodes of the given extent. -/
def nodes (v : Sight) (o : Extent) : Expr → Nodes
  | literal value place =>
      .ofExpression
        { form := value.form, position := place, types? := some [value.type.declaration] }
  | name n =>
      .ofExpression { form := .identifier n.text (v.value functions n), position := n.position } ++
        .deferIf (v.value functions n) { identifiers := [⟨o.exprs⟩] }
  | not place operand =>
      operand.nodes v o ++ .ofExpression { form := .not (operand.root o), position := place }
  | binary operator place left right =>
      left.nodes v o ++ (right.nodes v (o + .ofExprs left.size) ++ .ofExpression
        { form := .binary operator (left.root o) (right.root (o + .ofExprs left.size)),
          position := place })
  | call callee arguments =>
      callee.nodes v o ++ (nodesAll v (o + .ofExprs callee.size) arguments ++ .ofExpression
        { form := .call (callee.root o) (roots (o + .ofExprs callee.size) arguments),
          position := callee.position })

def nodesAll (v : Sight) (o : Extent) : List Expr → Nodes
  | [] => {}
  | e :: others => e.nodes v o ++ nodesAll v (o + .ofExprs e.size) others

end

theorem count_nodesAll (v : Sight) (es : List Expr)
    (hes : ∀ e ∈ es, ∀ o, (e.nodes functions v o).count = .ofExprs e.size) (o : Extent) :
    (nodesAll functions v o es).count = .ofExprs (sizes es) := by
  induction es generalizing o with
  | nil => rfl
  | cons e es ih =>
      have hall := ih fun e' he' => hes e' (List.mem_cons_of_mem e he')
      rw [nodesAll, Nodes.count_append, hes e List.mem_cons_self, hall]
      rfl

/-- An expression has as many nodes as its size tells. -/
@[simp] theorem count_nodes (v : Sight) (o : Extent) (e : Expr) :
    (e.nodes functions v o).count = .ofExprs e.size := by
  induction e generalizing o with
  | literal value place => rfl
  | name n => simp [nodes, size]
  | not place operand ih =>
      rw [nodes, Nodes.count_append, ih]
      rfl
  | binary operator place left right ihLeft ihRight =>
      rw [nodes, Nodes.count_append, Nodes.count_append, ihLeft, ihRight, ← Extent.add_assoc]
      rfl
  | call callee arguments ihCallee ihArguments =>
      rw [nodes, Nodes.count_append, Nodes.count_append, ihCallee,
        count_nodesAll functions v arguments ihArguments, ← Extent.add_assoc]
      rfl

@[simp] theorem count_nodesAll' (v : Sight) (o : Extent) (es : List Expr) :
    (nodesAll functions v o es).count = .ofExprs (sizes es) :=
  count_nodesAll functions v es (fun e _ o => count_nodes functions v o e) o

end Expr

/-! ### Statements -/

namespace Update

def change (o : Extent) : Update → Change
  | assign value => .assign (value.root o)
  | add value => .add (value.root o)
  | subtract value => .subtract (value.root o)
  | increment => .increment
  | decrement => .decrement

/-- The nodes of the value in an update. -/
def nodes (v : Sight) (o : Extent) : Update → Nodes
  | assign value | add value | subtract value => value.nodes functions v o
  | increment | decrement => {}

end Update

namespace Simple

/-- The node of a statement without blocks. -/
def root (o : Extent) : StmtId := ⟨o.stmts⟩

def root? (o : Extent) : Option Simple → Option StmtId
  | none => none
  | some _ => some (root o)

/-- The nodes of a statement without blocks. -/
def nodes (v : Sight) (o : Extent) : Simple → Nodes
  | call place e => e.nodes functions v o ++ .ofStatement (.call (e.root o)) place
  | change name update =>
      update.nodes functions v o ++
        (.ofStatement (.change (v.target name) (update.change o)) name.position ++
          .deferIf (v.target name) { statements := [root o] })

def nodes? (v : Sight) (o : Extent) : Option Simple → Nodes
  | none => {}
  | some s => s.nodes functions v o

end Simple

@[simp] theorem Update.count_nodes (v : Sight) (o : Extent) (u : Update) :
    (u.nodes functions v o).count = .ofExprs u.size := by
  cases u <;> first | exact Expr.count_nodes functions v o _ | rfl

@[simp] theorem Simple.count_nodes (v : Sight) (o : Extent) (s : Simple) :
    (s.nodes functions v o).count = s.extent := by
  cases s with
  | call place e => rw [nodes, Nodes.count_append, Expr.count_nodes]; rfl
  | change name update =>
      rw [nodes, Nodes.count_append, Nodes.count_append, Update.count_nodes, Nodes.count_deferIf]
      rfl

@[simp] theorem Simple.count_nodes? (v : Sight) (o : Extent) (s? : Option Simple) :
    (Simple.nodes? functions v o s?).count = Simple.extent? s? := by
  cases s? with
  | none => rfl
  | some s => exact Simple.count_nodes functions v o s

namespace Stmt

/-- The node of the whole statement, behind nodes of the given extent. -/
def root (o : Extent) (s : Stmt) : StmtId := ⟨o.stmts + s.extent.stmts - 1⟩

def roots (o : Extent) : List Stmt → List StmtId
  | [] => []
  | s :: others => s.root o :: roots (o + s.extent) others

/-- What is visible behind a statement. -/
def after (v : Sight) (o : Extent) : Stmt → Sight
  | declare _ name _ => v.declare o name
  | _ => v

/-- Statements in braces, behind nodes of the given extent. -/
def block (o : Extent) (xs : List Stmt) : Block :=
  { statements := roots (o + .scope) xs, scope := ⟨o.scopes⟩ }

mutual

/-- The nodes of a statement, behind nodes of the given extent. -/
def nodes (v : Sight) (o : Extent) : Stmt → Nodes
  | declare place name type =>
      .ofDeclaration (.var { name? := some name.text, position := name.position,
                             type := Sight.type v.scope type }) ++
        (.ofStatement (.declare ⟨o.decls⟩) place ++
          .deferIf (Sight.type v.scope type) { statements := [⟨o.stmts⟩] })
  | simple s => s.nodes functions v o
  | branch place condition thenBlock none =>
      let o₁ := o + .ofExprs condition.size
      condition.nodes functions v o ++ (nodesAll (v.enter o₁) (o₁ + .scope) thenBlock ++
        .ofStatement (.branch (condition.root o) (block o₁ thenBlock) none) place)
  | branch place condition thenBlock (some elseBlock) =>
      let o₁ := o + .ofExprs condition.size
      let o₂ := o₁ + (.scope + extents thenBlock)
      condition.nodes functions v o ++ (nodesAll (v.enter o₁) (o₁ + .scope) thenBlock ++
        (nodesAll (v.enter o₂) (o₂ + .scope) elseBlock ++
          .ofStatement (.branch (condition.root o) (block o₁ thenBlock) (some (block o₂ elseBlock)))
            place))
  | whileLoop place condition body =>
      let o₁ := o + .ofExprs condition.size
      condition.nodes functions v o ++ (nodesAll (v.enter o₁) (o₁ + .scope) body ++
        .ofStatement (.whileLoop (condition.root o) (block o₁ body)) place)
  | forLoop place init? condition action? body =>
      let o₁ := o + Simple.extent? init?
      let o₂ := o₁ + .ofExprs condition.size
      let o₃ := o₂ + Simple.extent? action?
      Simple.nodes? functions v o init? ++ (condition.nodes functions v o₁ ++
        (Simple.nodes? functions v o₂ action? ++ (nodesAll (v.enter o₃) (o₃ + .scope) body ++
          .ofStatement (.forLoop (Simple.root? o init?) (condition.root o₁)
            (Simple.root? o₂ action?) (block o₃ body)) place)))
  | result place values =>
      Expr.nodesAll functions v o values ++ .ofStatement (.result (Expr.roots o values)) place

def nodesAll (v : Sight) (o : Extent) : List Stmt → Nodes
  | [] => {}
  | s :: others => s.nodes v o ++ nodesAll (s.after v o) (o + s.extent) others

end

mutual

/-- What is visible at the places of a statement where names are looked up. -/
def sights (v : Sight) (o : Extent) : Stmt → List Sight
  | declare _ _ _ | simple _ | result _ _ => [v]
  | branch _ condition thenBlock none =>
      let o₁ := o + .ofExprs condition.size
      v :: sightsAll (v.enter o₁) (o₁ + .scope) thenBlock
  | branch _ condition thenBlock (some elseBlock) =>
      let o₁ := o + .ofExprs condition.size
      let o₂ := o₁ + (.scope + extents thenBlock)
      v :: (sightsAll (v.enter o₁) (o₁ + .scope) thenBlock ++
        sightsAll (v.enter o₂) (o₂ + .scope) elseBlock)
  | whileLoop _ condition body =>
      let o₁ := o + .ofExprs condition.size
      v :: sightsAll (v.enter o₁) (o₁ + .scope) body
  | forLoop _ init? condition action? body =>
      let o₃ := o + Simple.extent? init? + .ofExprs condition.size + Simple.extent? action?
      v :: sightsAll (v.enter o₃) (o₃ + .scope) body

def sightsAll (v : Sight) (o : Extent) : List Stmt → List Sight
  | [] => []
  | s :: others => s.sights v o ++ sightsAll (s.after v o) (o + s.extent) others

end

end Stmt

/-! ### Functions -/

/-- Some declarations. -/
def Extent.ofDecls (n : Nat) : Extent := { decls := n }

/-- A parameter or a result as it is declared. -/
structure Slot where
  /-- The name, if there is one. -/
  name? : Option String
  /-- Where it is declared. -/
  position : Position
  /-- The name of the type. -/
  type : Name

/-- The slot of a parameter. -/
def Param.slot (p : Param) : Slot := ⟨some p.name.text, p.name.position, p.type⟩

def Name.slot (type : Name) : Slot := ⟨none, type.position, type⟩

namespace Slot

/-- The fields of some slots. -/
def fields (o : Extent) : List Slot → List Field
  | [] => []
  | slot :: others => { name? := slot.name?, decl := ⟨o.decls⟩ } :: fields (o + .decl) others

/-- The variable behind a slot. -/
def nodes (scope : ScopeId) (o : Extent) (slot : Slot) : Nodes :=
  .ofDeclaration (.var { name? := slot.name?, position := slot.position,
                         type := Sight.type scope slot.type }) ++
    .deferIf (Sight.type scope slot.type) { fields := [⟨o.decls⟩] }

def nodesAll (scope : ScopeId) (o : Extent) : List Slot → Nodes
  | [] => {}
  | slot :: others => slot.nodes scope o ++ nodesAll scope (o + .decl) others

@[simp] theorem count_nodes (scope : ScopeId) (o : Extent) (slot : Slot) :
    (slot.nodes scope o).count = .decl := by
  rw [nodes, Nodes.count_append, Nodes.count_deferIf]
  rfl

@[simp] theorem count_nodesAll (scope : ScopeId) (o : Extent) (slots : List Slot) :
    (nodesAll scope o slots).count = .ofDecls slots.length := by
  induction slots generalizing o with
  | nil => rfl
  | cons slot slots ih =>
      rw [nodesAll, Nodes.count_append, count_nodes, ih]
      simp [Extent.ext_iff, Extent.decl, Extent.ofDecls, Nat.add_comm]

end Slot

/-- The variables that are visible when the given parameters are added to those of the sight. -/
def Sight.parameters (v : Sight) (o : Extent) : List Param → Sight
  | [] => v
  | p :: others => (Sight.mk v.scope ((p.name.text, ⟨o.decls⟩) :: v.locals)).parameters (o + .decl)
      others

@[simp] theorem Sight.scope_parameters (v : Sight) (o : Extent) (ps : List Param) :
    (v.parameters o ps).scope = v.scope := by
  induction ps generalizing v o with
  | nil => rfl
  | cons p ps ih => rw [Sight.parameters, ih]

namespace Func

def resultsAt (o : Extent) (f : Func) : Extent := o + .scope + .ofDecls f.parameters.length

/-- The declaration of a function, behind nodes of the given extent. -/
def root (o : Extent) (f : Func) : DeclId :=
  ⟨o.decls + f.parameters.length + f.results.length⟩

def bodyAt (o : Extent) (f : Func) : Extent :=
  f.resultsAt o + .ofDecls f.results.length + .decl

/-- What is visible at the beginning of a function's body. -/
def sight (o : Extent) (f : Func) : Sight :=
  (Sight.mk ⟨o.scopes⟩ []).parameters (o + .scope) f.parameters

/-- What the declaration of a function says. -/
def header (o : Extent) (f : Func) : Function where
  name := f.name.text
  position := f.name.position
  parameters := Slot.fields (o + .scope) (f.parameters.map Param.slot)
  results := Slot.fields (f.resultsAt o) (f.results.map Name.slot)
  body := Stmt.roots (f.bodyAt o) f.body
  scope := ⟨o.scopes⟩

/-- The nodes of a function, behind nodes of the given extent. -/
def nodes (o : Extent) (f : Func) : Nodes :=
  Slot.nodesAll ⟨o.scopes⟩ (o + .scope) (f.parameters.map Param.slot) ++
    (Slot.nodesAll ⟨o.scopes⟩ (f.resultsAt o) (f.results.map Name.slot) ++
      (.ofDeclaration (.func (f.header o)) ++
        Stmt.nodesAll functions (f.sight o) (f.bodyAt o) f.body))

def sights (o : Extent) (f : Func) : List Sight := Stmt.sightsAll (f.sight o) (f.bodyAt o) f.body

end Func

/-! ### Files -/

def roots (o : Extent) : List Func → List DeclId
  | [] => []
  | f :: others => f.root o :: roots (o + f.extent) others

/-- The given functions and those of a file, the latest first. -/
def declared (o : Extent) (functions : List (String × DeclId)) :
    List Func → List (String × DeclId)
  | [] => functions
  | f :: others => declared (o + f.extent) ((f.name.text, f.root o) :: functions) others

/-- The nodes of a file in which every function can name the given functions. -/
def fileNodes (o : Extent) : List Func → Nodes
  | [] => {}
  | f :: others => f.nodes functions o ++ fileNodes (o + f.extent) others

/-- The nodes of a file in which a function can name itself and the functions before it. -/
def earlyNodes (o : Extent) (functions : List (String × DeclId)) : List Func → Nodes
  | [] => {}
  | f :: others =>
      f.nodes ((f.name.text, f.root o) :: functions) o ++
        earlyNodes (o + f.extent) ((f.name.text, f.root o) :: functions) others

/-- What is visible at the places of a file where names are looked up. -/
def fileSights (o : Extent) : List Func → List Sight
  | [] => []
  | f :: others => f.sights o ++ fileSights (o + f.extent) others

end Syntax

end FrontEnd
