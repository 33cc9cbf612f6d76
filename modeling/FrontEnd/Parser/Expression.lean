/-
**Reading expressions.**

An expression starts with a literal, a name, a negation or a parenthesis.  Then, as long as the
next token binds tighter than the expression's surroundings, it is continued by an operator with
its right operand or by arguments.  A right operand is read with the power of its own operator, so
operators of one power group to the left.

Every step takes a token.  Reading is therefore bounded by the number of tokens left: the bound
makes the definitions recursive in a number and cuts nothing off.

Main definitions:

* `FrontEnd.Parser.literal`, `FrontEnd.Parser.identifier`, `FrontEnd.Parser.negation`,
  `FrontEnd.Parser.grouping` — the ways in which an expression starts;
* `FrontEnd.Parser.binary`, `FrontEnd.Parser.call` — the ways in which it goes on;
* `FrontEnd.Parser.expression` — an expression.

Main results:

* `FrontEnd.Parser.literal_eq` — the type of a literal is always found.
-/

import FrontEnd.Parser.Basic

set_option relaxedAutoImplicit false
set_option autoImplicit false

namespace FrontEnd.Parser

/-! ### Starts -/

/-- The form and type of a literal. -/
def literalForm (t : Token) : Except Error (ExprForm × BasicType) :=
  match t.kind with
  | .integer => t.integer.map fun value => (.integer value, .int)
  | .character => t.character.map fun byte => (.character byte, .byte)
  | .string => t.string.map fun text => (.string text, .string)
  | .trueWord => .ok (.bool true, .bool)
  | .falseWord => .ok (.bool false, .bool)
  | _ => .error ((Cause.unexpectedToken t.describe "<literal>").at t.position)

/-- Reads a literal, whose type is known from the start. -/
def literal : ParseM ExprId := do
  let t ← advance
  let (form, basic) ← ofExcept (literalForm t)
  let type ← ofExcept ((← get).program.builtInType basic)
  addExpression { form, position := t.position, types? := some [type] }

/-- The type of a literal is always found. -/
theorem literal_eq : literal = (do
    let t ← advance
    let (form, basic) ← ofExcept (literalForm t)
    addExpression { form, position := t.position, types? := some [basic.declaration] }) := by
  unfold literal
  refine bind_congr fun t => bind_congr fun (form, basic) => ?_
  funext s
  change (ofExcept (s.program.builtInType basic) >>= fun type => addExpression
    { form, position := t.position, types? := some [type] } : ParseM ExprId) s = _
  rw [Program.builtInType_eq]
  rfl

/-- Reads a name, which stands for a variable or a function. -/
def identifier (scope : ScopeId) : ParseM ExprId := do
  let (t, name) ← expectName
  let ref := (← get).program.valueReference scope name t.position
  let id ← addExpression { form := .identifier name ref, position := t.position }
  deferIf ref (·.addIdentifier id)
  pure id

section Parts

variable (part : ScopeId → BindingPower → ParseM ExprId)

def negation (scope : ScopeId) : ParseM ExprId := do
  let t ← expect .not
  let operand ← part scope .unary
  addExpression { form := .not operand, position := t.position }

def grouping (scope : ScopeId) : ParseM ExprId := do
  discard (expect .leftParenthesis)
  let inner ← part scope .default
  discard (expect .rightParenthesis)
  pure inner

/-- Reads the start of an expression. -/
def start (rule : PrefixRule) (scope : ScopeId) : ParseM ExprId :=
  match rule with
  | .literal => literal
  | .identifier => identifier scope
  | .negation => negation part scope
  | .grouping => grouping part scope

/-! ### Continuations -/

/-- Reads an operator and its right operand. -/
def binary (scope : ScopeId) (left : ExprId) (power : BindingPower) : ParseM ExprId := do
  let t ← advance
  match BinaryOperator.ofToken? t.kind with
  | none => throw ((Cause.unexpectedToken t.describe "<binary operator>").at t.position)
  | some operator =>
      let right ← part scope power
      addExpression { form := .binary operator left right, position := t.position }

def call (scope : ScopeId) (called : ExprId) : ParseM ExprId := do
  let opening ← expect .leftParenthesis
  match (← get).program.expression? called with
  | none => throw (Cause.notCallable.at opening.position)
  | some callee =>
      require (callee.isCallable = true) (Cause.notCallable.at opening.position)
      let arguments ← separated .rightParenthesis (part scope .default)
      discard (expect .rightParenthesis)
      addExpression { form := .call called arguments, position := callee.position }

/-- Reads the continuation of an expression. -/
def continuation (rule : InfixRule) (scope : ScopeId) (left : ExprId) (power : BindingPower) :
    ParseM ExprId :=
  match rule with
  | .binary => binary part scope left power
  | .call => call part scope left

/-- Continues an expression, at most `n` times, while the next token binds tighter than `power`. -/
def extendUpTo (g : Grammar) (scope : ScopeId) (power : BindingPower) :
    Nat → ExprId → ParseM ExprId
  | 0, left => pure left
  | n + 1, left => do
      match (← get).kind?.bind g.infixRule with
      | none => pure left
      | some (rule, tighter) =>
          if power < tighter then
            let left ← continuation part rule scope left tighter
            extendUpTo g scope power n left
          else pure left

/-- Continues an expression while the next token binds tighter than `power`.  Every continuation
takes a token. -/
def extend (g : Grammar) (scope : ScopeId) (power : BindingPower) (left : ExprId) :
    ParseM ExprId := fun s =>
  extendUpTo part g scope power s.rest.length left s

end Parts

/-! ### Expressions -/

/-- Reads an expression whose parts are nested at most `n` deep. -/
def expressionUpTo (g : Grammar) : Nat → ScopeId → BindingPower → ParseM ExprId
  | 0, _, _ => refuse "<expression>"
  | n + 1, scope, power => do
      match (← get).kind?.bind g.prefixRule with
      | none => refuse "<expression>"
      | some rule =>
          let left ← start (expressionUpTo g n) rule scope
          extend (expressionUpTo g n) g scope power left

/-- Reads an expression whose surroundings bind with the given power. -/
def expression (g : Grammar) (scope : ScopeId) (power : BindingPower) : ParseM ExprId := fun s =>
  expressionUpTo g s.rest.length scope power s

end FrontEnd.Parser
