/-
**Names in trees.**

Two questions can be asked of the names in a file, and both are answered by the trees alone.  Are
the declared names distinct where they are visible together?  And is every name that is used
declared?  Variables are visible from their declaration to the end of the list of statements that it
stands in, functions in the whole file; the types are the built-in ones.

Main definitions:

* `FrontEnd.Syntax.Stmt.names`, `FrontEnd.Syntax.Func.names` — the variables that are declared;
* `FrontEnd.Syntax.Stmt.Distinct`, `FrontEnd.Syntax.Func.Distinct`, `FrontEnd.Syntax.FileDistinct` —
  no name is declared where it is taken;
* `FrontEnd.Syntax.Expr.WellScoped`, `FrontEnd.Syntax.Stmt.WellScoped`,
  `FrontEnd.Syntax.Func.WellScoped`, `FrontEnd.Syntax.FileWellScoped` — every name that is used is
  declared.
-/

import FrontEnd.Proofs.Syntax.Tree

set_option relaxedAutoImplicit false
set_option autoImplicit false

namespace FrontEnd.Syntax

/-- The names of the built-in types. -/
def IsTypeName (name : String) : Prop := ∃ b : BasicType, b.name = name

/-- The variables that are visible behind a statement, the nearest first. -/
def Stmt.behind (visible : List String) : Stmt → List String
  | .declare _ name _ => name.text :: visible
  | _ => visible

/-! ### Declared names -/

namespace Stmt

mutual

/-- The variables that are declared in a statement, the latest first. -/
def names : Stmt → List String
  | declare _ name _ => [name.text]
  | simple _ | result _ _ => []
  | branch _ _ thenBlock none => namesAll thenBlock
  | branch _ _ thenBlock (some elseBlock) => namesAll elseBlock ++ namesAll thenBlock
  | whileLoop _ _ body => namesAll body
  | forLoop _ _ _ _ body => namesAll body

def namesAll : List Stmt → List String
  | [] => []
  | s :: others => namesAll others ++ s.names

end

mutual

/-- No variable of a statement has the name of a visible variable or of a type. -/
def Distinct (visible : List String) : Stmt → Prop
  | declare _ name _ => name.text ∉ visible ∧ ¬ IsTypeName name.text
  | simple _ | result _ _ => True
  | branch _ _ thenBlock none => DistinctAll visible thenBlock
  | branch _ _ thenBlock (some elseBlock) =>
      DistinctAll visible thenBlock ∧ DistinctAll visible elseBlock
  | whileLoop _ _ body => DistinctAll visible body
  | forLoop _ _ _ _ body => DistinctAll visible body

def DistinctAll (visible : List String) : List Stmt → Prop
  | [] => True
  | s :: others => s.Distinct visible ∧ DistinctAll (s.behind visible) others

end

end Stmt

/-- The variables of a statement have names that no visible variable, no type and no function
has. -/
def Stmt.Clear (functions visible : List String) (s : Stmt) : Prop :=
  s.Distinct visible ∧ ∀ x ∈ s.names, x ∉ functions

def Stmt.ClearAll (functions visible : List String) (xs : List Stmt) : Prop :=
  Stmt.DistinctAll visible xs ∧ ∀ x ∈ Stmt.namesAll xs, x ∉ functions

/-- The names of the parameters, the latest first, and then the given ones. -/
def paramNames (visible : List String) : List Param → List String
  | [] => visible
  | p :: others => paramNames (p.name.text :: visible) others

/-- No parameter has the name of an earlier one or of a type. -/
def ParamsDistinct (visible : List String) : List Param → Prop
  | [] => True
  | p :: others =>
      (p.name.text ∉ visible ∧ ¬ IsTypeName p.name.text) ∧
        ParamsDistinct (p.name.text :: visible) others

namespace Func

/-- The variables that are declared in a function, the latest first. -/
def names (f : Func) : List String := Stmt.namesAll f.body ++ paramNames [] f.parameters

/-- The variables of a function are distinct where they are visible together. -/
def Distinct (f : Func) : Prop :=
  ParamsDistinct [] f.parameters ∧ Stmt.DistinctAll (paramNames [] f.parameters) f.body

end Func

/-- The names in a function can be declared behind the given functions, when the given names were
declared inside of those. -/
def Func.Clear (functions noted : List String) (f : Func) : Prop :=
  (ParamsDistinct [] f.parameters ∧ ∀ p ∈ f.parameters, p.name.text ∉ functions) ∧
    ((¬ IsTypeName f.name.text ∧ f.name.text ∉ functions) ∧
      f.name.text ∉ paramNames noted f.parameters) ∧
    Stmt.ClearAll (f.name.text :: functions) (paramNames [] f.parameters) f.body

/-- The names in some functions can be declared one after the other, behind the given functions and
the names that were declared inside of those. -/
def FileClear (functions noted : List String) : List Func → Prop
  | [] => True
  | f :: others =>
      f.Clear functions noted ∧ FileClear (f.name.text :: functions) (f.names ++ noted) others

/-- The names of the functions in a file are distinct, and nothing else in the file has one of
them. -/
def FileDistinct (fs : List Func) : Prop :=
  (fs.map fun f => f.name.text).Nodup ∧
    ∀ f ∈ fs, f.Distinct ∧ ¬ IsTypeName f.name.text ∧ ∀ g ∈ fs, g.name.text ∉ f.names

/-! ### Used names -/

namespace Expr

mutual

/-- Every name in an expression is that of a visible variable or of a function. -/
def WellScoped (functions visible : List String) : Expr → Prop
  | literal _ _ => True
  | name n => n.text ∈ visible ∨ n.text ∈ functions
  | not _ operand => operand.WellScoped functions visible
  | binary _ _ left right =>
      left.WellScoped functions visible ∧ right.WellScoped functions visible
  | call callee arguments =>
      callee.WellScoped functions visible ∧ WellScopedAll functions visible arguments

def WellScopedAll (functions visible : List String) : List Expr → Prop
  | [] => True
  | e :: others => e.WellScoped functions visible ∧ WellScopedAll functions visible others

end

end Expr

def Update.WellScoped (functions visible : List String) : Update → Prop
  | assign value | add value | subtract value => value.WellScoped functions visible
  | increment | decrement => True

/-- What is changed is a visible variable. -/
def Simple.WellScoped (functions visible : List String) : Simple → Prop
  | call _ e => e.WellScoped functions visible
  | change name update => name.text ∈ visible ∧ update.WellScoped functions visible

def Simple.WellScoped? (functions visible : List String) : Option Simple → Prop
  | none => True
  | some s => s.WellScoped functions visible

namespace Stmt

mutual

/-- Every name in a statement is declared where it is used.  The parts of the head of a statement
belong to the list in which the statement stands. -/
def WellScoped (functions visible : List String) : Stmt → Prop
  | declare _ _ type => IsTypeName type.text
  | simple s => s.WellScoped functions visible
  | branch _ condition thenBlock none =>
      condition.WellScoped functions visible ∧ WellScopedAll functions visible thenBlock
  | branch _ condition thenBlock (some elseBlock) =>
      condition.WellScoped functions visible ∧ WellScopedAll functions visible thenBlock ∧
        WellScopedAll functions visible elseBlock
  | whileLoop _ condition body =>
      condition.WellScoped functions visible ∧ WellScopedAll functions visible body
  | forLoop _ init? condition action? body =>
      Simple.WellScoped? functions visible init? ∧ condition.WellScoped functions visible ∧
        Simple.WellScoped? functions visible action? ∧ WellScopedAll functions visible body
  | result _ values => Expr.WellScopedAll functions visible values

/-- Every name in some statements is declared where it is used.  A variable is visible in the
statements behind its declaration. -/
def WellScopedAll (functions visible : List String) : List Stmt → Prop
  | [] => True
  | s :: others =>
      s.WellScoped functions visible ∧ WellScopedAll functions (s.behind visible) others

end

end Stmt

def Func.WellScoped (functions : List String) (f : Func) : Prop :=
  (∀ p ∈ f.parameters, IsTypeName p.type.text) ∧ (∀ type ∈ f.results, IsTypeName type.text) ∧
    Stmt.WellScopedAll functions (paramNames [] f.parameters) f.body

/-- Every name in a file is declared where it is used; functions are visible in the whole file. -/
def FileWellScoped (fs : List Func) : Prop :=
  ∀ f ∈ fs, f.WellScoped (fs.map fun g => g.name.text)

end FrontEnd.Syntax
