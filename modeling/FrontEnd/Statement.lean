/-
**Statements.**

A statement refers to its parts by number.  The statements of a block stand in a list, beside the
scope in which the first of them is read.

Main definitions:

* `FrontEnd.Block` — statements in braces;
* `FrontEnd.Change` — the ways to change a variable;
* `FrontEnd.StmtForm`, `FrontEnd.Statement` — the forms of statements, and statements.
-/

import FrontEnd.Expression

set_option relaxedAutoImplicit false
set_option autoImplicit false

namespace FrontEnd

/-- Statements in braces. -/
structure Block where
  /-- The statements in order. -/
  statements : List StmtId
  /-- The scope in which the first statement is read. -/
  scope : ScopeId
  deriving DecidableEq, Repr

/-- The ways to change a variable. -/
inductive Change where
  | assign (value : ExprId)
  | add (value : ExprId)
  | subtract (value : ExprId)
  | increment
  | decrement
  deriving DecidableEq, Repr

/-- The forms of statements. -/
inductive StmtForm where
  /-- Declaration of a variable: `var name Type;`. -/
  | declare (decl : DeclId)
  /-- Change of a variable: `name = value;`, `name++;` and the like. -/
  | change (target : Reference) (change : Change)
  /-- A call for its effect. -/
  | call (call : ExprId)
  /-- Choice: `if condition { … } else { … }`. -/
  | branch (condition : ExprId) (thenBlock : Block) (elseBlock? : Option Block)
  /-- Repetition: `while condition { … }`. -/
  | whileLoop (condition : ExprId) (body : Block)
  /-- Counted repetition: `for init; condition; action { … }`. -/
  | forLoop (init? : Option StmtId) (condition : ExprId) (action? : Option StmtId) (body : Block)
  /-- End of a function with its results. -/
  | result (values : List ExprId)
  deriving DecidableEq, Repr

/-- A statement. -/
structure Statement where
  /-- What the statement is made of. -/
  form : StmtForm
  /-- Where it starts. -/
  position : Position
  deriving DecidableEq, Repr

namespace Statement

def isReturn (s : Statement) : Bool :=
  match s.form with
  | .result _ => true
  | _ => false

/-- The variable that the statement changes. -/
def target? (s : Statement) : Option Reference :=
  match s.form with
  | .change target _ => some target
  | _ => none

/-- The statement for another variable, if it changes one. -/
def withTarget (s : Statement) (ref : Reference) : Statement :=
  match s.form with
  | .change _ change => { s with form := .change ref change }
  | _ => s

end Statement

end FrontEnd
