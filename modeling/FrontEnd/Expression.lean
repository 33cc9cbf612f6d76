/-
**Expressions.**

An expression refers to its parts by number.  Beside its form and its place it remembers the types
of its values, once they have been found.

Main definitions:

* `FrontEnd.BinaryOperator` — the operators between two operands;
* `FrontEnd.ExprForm`, `FrontEnd.Expression` — the forms of expressions, and expressions.
-/

import FrontEnd.Declaration
import FrontEnd.Token

set_option relaxedAutoImplicit false
set_option autoImplicit false

namespace FrontEnd

/-- The operators between two operands. -/
inductive BinaryOperator where
  | add
  | subtract
  | multiply
  | divide
  | equal
  | notEqual
  | less
  | lessOrEqual
  | greater
  | greaterOrEqual
  | and
  | or
  deriving DecidableEq, Repr

namespace BinaryOperator

/-- The operator that a kind of token stands for. -/
def ofToken? : TokenKind → Option BinaryOperator
  | .add => some add
  | .subtract => some subtract
  | .multiply => some multiply
  | .divide => some divide
  | .equal => some equal
  | .notEqual => some notEqual
  | .less => some less
  | .lessOrEqual => some lessOrEqual
  | .greater => some greater
  | .greaterOrEqual => some greaterOrEqual
  | .and => some and
  | .or => some or
  | _ => none

def token : BinaryOperator → TokenKind
  | add => .add
  | subtract => .subtract
  | multiply => .multiply
  | divide => .divide
  | equal => .equal
  | notEqual => .notEqual
  | less => .less
  | lessOrEqual => .lessOrEqual
  | greater => .greater
  | greaterOrEqual => .greaterOrEqual
  | and => .and
  | or => .or

def isComparison : BinaryOperator → Bool
  | equal | notEqual | less | lessOrEqual | greater | greaterOrEqual => true
  | _ => false

def isLogical : BinaryOperator → Bool
  | and | or => true
  | _ => false

@[simp] theorem ofToken?_token (op : BinaryOperator) : ofToken? op.token = some op := by
  cases op <;> rfl

/-- An operator is read from its own kind of token only. -/
theorem ofToken?_eq_some_iff {kind : TokenKind} {op : BinaryOperator} :
    ofToken? kind = some op ↔ kind = op.token := by
  constructor
  · intro h
    cases kind <;> cases h <;> rfl
  · rintro rfl
    exact ofToken?_token op

end BinaryOperator

/-- The forms of expressions. -/
inductive ExprForm where
  | integer (value : Int)
  | character (byte : UInt8)
  | string (text : String)
  | bool (value : Bool)
  | identifier (name : String) (ref : Reference)
  | binary (operator : BinaryOperator) (left right : ExprId)
  | not (operand : ExprId)
  | call (callee : ExprId) (arguments : List ExprId)
  deriving DecidableEq, Repr

/-- An expression. -/
structure Expression where
  /-- What the expression is made of. -/
  form : ExprForm
  /-- Where it stands: an operator's place, or the beginning. -/
  position : Position
  /-- The types of its values, if they have been found. -/
  types? : Option (List DeclId) := none
  deriving DecidableEq, Repr

namespace Expression

def isCall (e : Expression) : Bool :=
  match e.form with
  | .call _ _ => true
  | _ => false

/-- Whether the expression may stand in front of arguments. -/
def isCallable (e : Expression) : Bool :=
  match e.form with
  | .identifier _ _ | .call _ _ => true
  | _ => false

/-- The reference of an identifier. -/
def reference? (e : Expression) : Option Reference :=
  match e.form with
  | .identifier _ ref => some ref
  | _ => none

/-- The expression with another reference, if it is an identifier.  The types stay. -/
def withReference (e : Expression) (ref : Reference) : Expression :=
  match e.form with
  | .identifier name _ => { e with form := .identifier name ref }
  | _ => e

end Expression

end FrontEnd
