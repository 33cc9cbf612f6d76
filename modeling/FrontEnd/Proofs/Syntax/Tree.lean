/-
**Syntax trees.**

What a source text says, apart from how it is laid out: trees with names and places, but without
numbers, scopes or references.  The nodes of a program are made from such a tree one after the
other, parts before wholes, so the tree alone tells how many nodes of each sort there are.

Main definitions:

* `FrontEnd.Syntax.Expr`, `FrontEnd.Syntax.Simple`, `FrontEnd.Syntax.Stmt`,
  `FrontEnd.Syntax.Func` — expressions, statements without blocks, statements, functions;
* `FrontEnd.Syntax.Extent` — numbers of nodes of each sort, and what each tree takes up.
-/

import FrontEnd.Statement

set_option relaxedAutoImplicit false
set_option autoImplicit false

namespace FrontEnd.Syntax

/-! ### Leaves -/

/-- A name where it stands. -/
structure Name where
  /-- The name. -/
  text : String
  /-- Where it stands. -/
  position : Position
  deriving DecidableEq, Repr

/-- The name that an identifier token stands for. -/
def Name.ofToken? (t : Token) : Option Name :=
  match t.kind, t.payload with
  | .identifier, .name text => some ⟨text, t.position⟩
  | _, _ => none

/-- The values that can be written down. -/
inductive Literal where
  | integer (value : Int)
  | character (byte : UInt8)
  | string (text : String)
  | bool (value : Bool)
  deriving DecidableEq, Repr

namespace Literal

/-- The value that a token stands for. -/
def ofToken? (t : Token) : Option Literal :=
  match t.kind, t.payload with
  | .integer, .integer value => some (integer value)
  | .character, .character byte => some (character byte)
  | .string, .string text => some (string text)
  | .trueWord, _ => some (bool true)
  | .falseWord, _ => some (bool false)
  | _, _ => none

def form : Literal → ExprForm
  | integer value => .integer value
  | character byte => .character byte
  | string text => .string text
  | bool value => .bool value

def type : Literal → BasicType
  | integer _ => .int
  | character _ => .byte
  | string _ => .string
  | bool _ => .bool

end Literal

/-! ### Trees -/

/-- Expressions. -/
inductive Expr where
  | literal (value : Literal) (position : Position)
  | name (name : Name)
  | not (position : Position) (operand : Expr)
  | binary (operator : BinaryOperator) (position : Position) (left right : Expr)
  | call (callee : Expr) (arguments : List Expr)

namespace Expr

/-- Where an expression stands: an operator's place, or the beginning. -/
def position : Expr → Position
  | literal _ place => place
  | name n => n.position
  | not place _ => place
  | binary _ place _ _ => place
  | call callee _ => callee.position

def isCall : Expr → Bool
  | call _ _ => true
  | _ => false

/-- Whether the expression may stand in front of arguments. -/
def isCallable : Expr → Bool
  | name _ | call _ _ => true
  | _ => false

end Expr

/-- The ways to change a variable. -/
inductive Update where
  | assign (value : Expr)
  | add (value : Expr)
  | subtract (value : Expr)
  | increment
  | decrement

/-- Statements without blocks, which may also stand in the head of a counted repetition. -/
inductive Simple where
  | call (position : Position) (call : Expr)
  | change (target : Name) (update : Update)

/-- Statements. -/
inductive Stmt where
  | declare (position : Position) (name type : Name)
  | simple (simple : Simple)
  | branch (position : Position) (condition : Expr) (thenBlock : List Stmt)
      (elseBlock? : Option (List Stmt))
  | whileLoop (position : Position) (condition : Expr) (body : List Stmt)
  | forLoop (position : Position) (init? : Option Simple) (condition : Expr)
      (action? : Option Simple) (body : List Stmt)
  | result (position : Position) (values : List Expr)

def Stmt.isReturn : Stmt → Bool
  | .result _ _ => true
  | _ => false

/-- A parameter of a function. -/
structure Param where
  /-- The name. -/
  name : Name
  /-- The name of the type. -/
  type : Name
  deriving DecidableEq, Repr

/-- A function. -/
structure Func where
  /-- The name. -/
  name : Name
  /-- What it takes. -/
  parameters : List Param
  /-- The names of the types of what it returns. -/
  results : List Name
  /-- The statements of its body. -/
  body : List Stmt

/-! ### Induction -/

/-- Induction on expressions, with a case for each way in which they are made. -/
@[elab_as_elim, induction_eliminator]
theorem Expr.induction {motive : Expr → Prop}
    (literal : ∀ value position, motive (.literal value position))
    (name : ∀ name, motive (.name name))
    (not : ∀ position operand, motive operand → motive (.not position operand))
    (binary : ∀ operator position left right, motive left → motive right →
      motive (.binary operator position left right))
    (call : ∀ callee arguments, motive callee → (∀ e ∈ arguments, motive e) →
      motive (.call callee arguments)) : ∀ e, motive e
  | .literal value position => literal value position
  | .name n => name n
  | .not position operand =>
      not position operand (Expr.induction literal name not binary call operand)
  | .binary operator position left right =>
      binary operator position left right (Expr.induction literal name not binary call left)
        (Expr.induction literal name not binary call right)
  | .call callee arguments =>
      call callee arguments (Expr.induction literal name not binary call callee)
        fun e _ => Expr.induction literal name not binary call e

/-- Induction on statements.  A choice with a second part is a case of its own. -/
@[elab_as_elim, induction_eliminator]
theorem Stmt.induction {motive : Stmt → Prop}
    (declare : ∀ position name type, motive (.declare position name type))
    (simple : ∀ s, motive (.simple s))
    (branch : ∀ position condition thenBlock, (∀ s ∈ thenBlock, motive s) →
      motive (.branch position condition thenBlock none))
    (branchElse : ∀ position condition thenBlock elseBlock, (∀ s ∈ thenBlock, motive s) →
      (∀ s ∈ elseBlock, motive s) → motive (.branch position condition thenBlock (some elseBlock)))
    (whileLoop : ∀ position condition body, (∀ s ∈ body, motive s) →
      motive (.whileLoop position condition body))
    (forLoop : ∀ position init? condition action? body, (∀ s ∈ body, motive s) →
      motive (.forLoop position init? condition action? body))
    (result : ∀ position values, motive (.result position values)) : ∀ s, motive s
  | .declare position name type => declare position name type
  | .simple s => simple s
  | .branch position condition thenBlock none =>
      branch position condition thenBlock fun s _ =>
        Stmt.induction declare simple branch branchElse whileLoop forLoop result s
  | .branch position condition thenBlock (some elseBlock) =>
      branchElse position condition thenBlock elseBlock
        (fun s _ => Stmt.induction declare simple branch branchElse whileLoop forLoop result s)
        fun s _ => Stmt.induction declare simple branch branchElse whileLoop forLoop result s
  | .whileLoop position condition body =>
      whileLoop position condition body fun s _ =>
        Stmt.induction declare simple branch branchElse whileLoop forLoop result s
  | .forLoop position init? condition action? body =>
      forLoop position init? condition action? body fun s _ =>
        Stmt.induction declare simple branch branchElse whileLoop forLoop result s
  | .result position values => result position values
termination_by s => sizeOf s
decreasing_by
  all_goals
    have hlt := List.sizeOf_lt_of_mem ‹_ ∈ _›
    simp only [Stmt.branch.sizeOf_spec, Stmt.whileLoop.sizeOf_spec, Stmt.forLoop.sizeOf_spec,
      Option.some.sizeOf_spec]
    omega

/-! ### Extents -/

/-- Numbers of nodes of each sort.  An extent says how many nodes there are, and also, as an
offset, where the next ones go. -/
@[ext]
structure Extent where
  /-- The number of declarations. -/
  decls : Nat := 0
  /-- The number of expressions. -/
  exprs : Nat := 0
  /-- The number of statements. -/
  stmts : Nat := 0
  /-- The number of scopes. -/
  scopes : Nat := 0
  deriving DecidableEq, Repr

namespace Extent

instance : Add Extent :=
  ⟨fun a b => ⟨a.decls + b.decls, a.exprs + b.exprs, a.stmts + b.stmts, a.scopes + b.scopes⟩⟩

instance : LE Extent :=
  ⟨fun a b => a.decls ≤ b.decls ∧ a.exprs ≤ b.exprs ∧ a.stmts ≤ b.stmts ∧ a.scopes ≤ b.scopes⟩

@[simp] theorem add_decls (a b : Extent) : (a + b).decls = a.decls + b.decls := rfl

@[simp] theorem add_exprs (a b : Extent) : (a + b).exprs = a.exprs + b.exprs := rfl

@[simp] theorem add_stmts (a b : Extent) : (a + b).stmts = a.stmts + b.stmts := rfl

@[simp] theorem add_scopes (a b : Extent) : (a + b).scopes = a.scopes + b.scopes := rfl

theorem add_assoc (a b c : Extent) : a + b + c = a + (b + c) := by
  ext <;> simp [Nat.add_assoc]

def ofExprs (n : Nat) : Extent := { exprs := n }

def scope : Extent := { scopes := 1 }

def stmt : Extent := { stmts := 1 }

def decl : Extent := { decls := 1 }

@[simp] theorem add_zero (a : Extent) : a + {} = a := rfl

end Extent

namespace Expr

mutual

def size : Expr → Nat
  | literal _ _ => 1
  | name _ => 1
  | not _ operand => operand.size + 1
  | binary _ _ left right => left.size + right.size + 1
  | call callee arguments => callee.size + sizes arguments + 1

def sizes : List Expr → Nat
  | [] => 0
  | e :: others => e.size + sizes others

end

/-- An expression has a node. -/
theorem size_pos (e : Expr) : 0 < e.size := by
  cases e <;> simp [size]

end Expr

def Update.size : Update → Nat
  | .assign value | .add value | .subtract value => value.size
  | .increment | .decrement => 0

/-- What a statement without blocks takes up. -/
def Simple.extent : Simple → Extent
  | .call _ e => .ofExprs e.size + .stmt
  | .change _ update => .ofExprs update.size + .stmt

def Simple.extent? : Option Simple → Extent
  | none => {}
  | some s => s.extent

namespace Stmt

mutual

def extent : Stmt → Extent
  | declare _ _ _ => .decl + .scope + .stmt
  | simple s => s.extent
  | branch _ condition thenBlock none =>
      .ofExprs condition.size + (.scope + extents thenBlock) + .stmt
  | branch _ condition thenBlock (some elseBlock) =>
      .ofExprs condition.size + (.scope + extents thenBlock) + (.scope + extents elseBlock) + .stmt
  | whileLoop _ condition body => .ofExprs condition.size + (.scope + extents body) + .stmt
  | forLoop _ init? condition action? body =>
      Simple.extent? init? + .ofExprs condition.size + Simple.extent? action? +
        (.scope + extents body) + .stmt
  | result _ values => .ofExprs (Expr.sizes values) + .stmt

def extents : List Stmt → Extent
  | [] => {}
  | s :: others => s.extent + extents others

end

end Stmt

/-- What a function takes up: its scope, the variables behind its parameters and its results, its
declaration, and its body. -/
def Func.extent (f : Func) : Extent :=
  { decls := f.parameters.length + f.results.length + 1, scopes := 1 } + Stmt.extents f.body

def extents : List Func → Extent
  | [] => {}
  | f :: others => f.extent + extents others

end FrontEnd.Syntax
