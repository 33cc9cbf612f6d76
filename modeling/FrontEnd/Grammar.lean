/-
**Grammar tables.**

How an expression or a statement goes on depends on the kind of the next token.  A grammar says, for
each kind, how an expression that starts with it is read, how an expression that stands before it is
continued and how tightly that binds, and how a statement that starts with it is read.

Main definitions:

* `FrontEnd.BindingPower` — how tightly something binds, from loose to tight;
* `FrontEnd.PrefixRule`, `FrontEnd.InfixRule`, `FrontEnd.StatementRule` — the ways to read on;
* `FrontEnd.Grammar`, `FrontEnd.Grammar.standard` — tables of rules, and those of the language.
-/

import FrontEnd.Expression

set_option relaxedAutoImplicit false
set_option autoImplicit false

namespace FrontEnd

/-! ### Binding powers -/

/-- How tightly something binds, from loose to tight. -/
inductive BindingPower where
  | default
  | or
  | and
  | relational
  | additive
  | multiplicative
  | unary
  | call
  deriving DecidableEq, Repr

namespace BindingPower

def level : BindingPower → Nat
  | default => 0
  | or => 1
  | and => 2
  | relational => 3
  | additive => 4
  | multiplicative => 5
  | unary => 6
  | call => 7

instance : LT BindingPower := ⟨fun a b => a.level < b.level⟩

instance : LE BindingPower := ⟨fun a b => a.level ≤ b.level⟩

instance (a b : BindingPower) : Decidable (a < b) := inferInstanceAs (Decidable (a.level < b.level))

instance (a b : BindingPower) : Decidable (a ≤ b) := inferInstanceAs (Decidable (a.level ≤ b.level))

/-- The binding power of operators of a precedence. -/
def ofPrecedence : Nat → BindingPower
  | 1 => or
  | 2 => and
  | 3 => relational
  | 4 => additive
  | 5 => multiplicative
  | _ => default

end BindingPower

/-! ### Rules -/

/-- How an expression starts. -/
inductive PrefixRule where
  /-- A literal. -/
  | literal
  /-- A name. -/
  | identifier
  /-- `!` and an operand. -/
  | negation
  /-- An expression in parentheses. -/
  | grouping
  deriving DecidableEq, Repr

/-- How an expression goes on. -/
inductive InfixRule where
  /-- An operator and its right operand. -/
  | binary
  /-- Arguments in parentheses. -/
  | call
  deriving DecidableEq, Repr

/-- How a statement is read. -/
inductive StatementRule where
  /-- Declaration of a variable. -/
  | declare
  /-- A call or a change of a variable. -/
  | simple
  /-- Choice. -/
  | branch
  /-- Repetition. -/
  | whileLoop
  /-- Counted repetition. -/
  | forLoop
  /-- End of a function. -/
  | result
  deriving DecidableEq, Repr

/-! ### Tables -/

/-- The rules for each kind of token. -/
structure Grammar where
  /-- How an expression that starts with the token is read. -/
  prefixRule : TokenKind → Option PrefixRule
  /-- How an expression before the token is continued, and how tightly that binds. -/
  infixRule : TokenKind → Option (InfixRule × BindingPower)
  /-- How a statement that starts with the token is read. -/
  statementRule : TokenKind → Option StatementRule

namespace Grammar

def empty : Grammar := ⟨fun _ => none, fun _ => none, fun _ => none⟩

/-- The grammar with another rule for expressions that start with the kind. -/
def setPrefix (g : Grammar) (kind : TokenKind) (rule : PrefixRule) : Grammar :=
  { g with prefixRule := fun k => if k = kind then some rule else g.prefixRule k }

def setInfix (g : Grammar) (kind : TokenKind) (rule : InfixRule) (power : BindingPower) :
    Grammar :=
  { g with infixRule := fun k => if k = kind then some (rule, power) else g.infixRule k }

/-- How the expressions of the language start. -/
def standardPrefix : TokenKind → Option PrefixRule
  | .integer | .character | .string | .trueWord | .falseWord => some .literal
  | .identifier => some .identifier
  | .not => some .negation
  | .leftParenthesis => some .grouping
  | _ => none

/-- How the expressions of the language go on: with an operator, as tightly as its precedence says,
or with arguments. -/
def standardInfix (kind : TokenKind) : Option (InfixRule × BindingPower) :=
  match BinaryOperator.ofToken? kind with
  | some _ => some (.binary, .ofPrecedence kind.precedence)
  | none => if kind = .leftParenthesis then some (.call, .call) else none

/-- How the statements of the language start. -/
def standardStatement : TokenKind → Option StatementRule
  | .varWord => some .declare
  | .identifier => some .simple
  | .ifWord => some .branch
  | .whileWord => some .whileLoop
  | .forWord => some .forLoop
  | .returnWord => some .result
  | _ => none

/-- The grammar with the rules of the language, which win over its own. -/
def withStandard (g : Grammar) : Grammar where
  prefixRule kind := (standardPrefix kind).or (g.prefixRule kind)
  infixRule kind := (standardInfix kind).or (g.infixRule kind)
  statementRule kind := (standardStatement kind).or (g.statementRule kind)

/-- The grammar of the language. -/
def standard : Grammar := ⟨standardPrefix, standardInfix, standardStatement⟩

/-- The rules of the language and no others are its grammar. -/
theorem empty_withStandard : empty.withStandard = standard := by
  simp [withStandard, empty, standard]

end Grammar

end FrontEnd
