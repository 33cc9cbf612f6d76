/-
**Types of expressions.**

Most expressions have one value; a call has as many as its function returns.  The types of the
values are found from the parts outwards and noted in the expression, so that they are found once.
A failure is not noted, but what was found of the parts before it is.

The forms of expressions refer to their parts by number, so nothing in the data keeps an expression
from being a part of itself.  The search therefore goes down at most as many steps as there are
expressions, which is far enough for every expression that is not.

Main definitions:

* `FrontEnd.Program.operatorType`, `FrontEnd.Program.callee`, `FrontEnd.Program.valueTypes` — the
  rules for operators, calls and names;
* `FrontEnd.Program.typesOf` — the types of an expression's values;
* `FrontEnd.Program.typeOf` — the type of an expression with one value.

Main results:

* `FrontEnd.Program.ask_builtInType` — asking for a built-in type never fails.
-/

import FrontEnd.Program

set_option relaxedAutoImplicit false
set_option autoImplicit false

namespace FrontEnd.Program

/-! ### Asking a program -/

/-- The answer of a program, which stays as it is. -/
def ask {α : Type} (question : Program → Except Error α) : ProgramM α := fun p =>
  match question p with
  | .ok a => .ok a p
  | .error e => .error e p

/-- Asking for a built-in type never fails. -/
theorem ask_builtInType (b : BasicType) :
    ask (·.builtInType b) = (pure b.declaration : ProgramM DeclId) := by
  funext p
  rw [ask, builtInType_eq]
  rfl

/-- The expression with the given number, which has to exist. -/
def getExpression (p : Program) (id : ExprId) : Except Error Expression :=
  match p.expression? id with
  | some e => .ok e
  | none => .error (Cause.internal "missing expression").nowhere

/-! ### Rules -/

/-- The types of what a name stands for: the type of a variable, or what a function returns. -/
def valueTypes (p : Program) (ref : Reference) (place : Position) :
    Except Error (List DeclId) :=
  match ref.target with
  | .error e => .error e
  | .ok id =>
      match p.declaration? id with
      | some (.var _) => (p.variableType id).map ([·])
      | some (.func f) => p.resultTypes f
      | some (.type t) => .error ((Cause.internal s!"type '{t.name}' used as a value").at place)
      | none => .error (Cause.internal "missing declaration").nowhere

/-- The type of an operator's value.  Logical operators join truth values; all others ask for
operands of one type, and compare them or give a value of that type. -/
def operatorType (p : Program) (op : BinaryOperator) (left right : DeclId) (place : Position) :
    Except Error DeclId :=
  match p.builtInType .bool with
  | .error e => .error e
  | .ok bool =>
      if op.isLogical then
        if left ≠ bool then .error ((Cause.logicalNonBool (p.typeName left)).at place)
        else if right ≠ bool then .error ((Cause.logicalNonBool (p.typeName right)).at place)
        else .ok bool
      else if left ≠ right then
        .error ((Cause.operandMismatch (p.typeName left) (p.typeName right)).at place)
      else if op.isComparison then .ok bool
      else .ok left

/-- The type of a negation, given the type of truth values, which its operand has to have. -/
def negationType (p : Program) (bool operand : DeclId) (place : Position) : Except Error DeclId :=
  if operand = bool then .ok bool
  else .error ((Cause.negatedNonBool (p.typeName operand)).at place)

/-- The function that a called expression names. -/
def callee (p : Program) (called : Expression) : Except Error Function :=
  match called.form with
  | .identifier _ ref =>
      match ref.target with
      | .error e => .error e
      | .ok id =>
          match p.function? id with
          | some f => .ok f
          | none => .error (Cause.notAFunction.at called.position)
  | _ => .error (Cause.notAFunction.at called.position)

/-! ### Expressions -/

section Parts

variable (types : ExprId → ProgramM (List DeclId))

/-- The type of a part that has one value. -/
def single (id : ExprId) : ProgramM DeclId := do
  let e ← ask (·.getExpression id)
  match ← types id with
  | [type] => pure type
  | several => throw ((Cause.singleValueExpected several.length).at e.position)

/-- Compares arguments with the types of the parameters, one by one. -/
def checkArguments : List DeclId → List ExprId → ProgramM Unit
  | expected :: parameters, id :: arguments => do
      let argument ← ask (·.getExpression id)
      let received ← single types id
      let p ← get
      require (received = expected)
        ((Cause.argumentMismatch (p.typeName expected) (p.typeName received)).at
          argument.position)
      checkArguments parameters arguments
  | _, _ => pure ()

def callTypes (called : ExprId) (arguments : List ExprId) (place : Position) :
    ProgramM (List DeclId) := do
  let called ← ask (·.getExpression called)
  let f ← ask (·.callee called)
  let parameters ← ask (·.parameterTypes f)
  require (parameters.length = arguments.length)
    ((Cause.argumentCount parameters.length arguments.length).at place)
  checkArguments types parameters arguments
  ask (·.resultTypes f)

/-- The types of a literal's values. -/
def literalTypes (b : BasicType) : ProgramM (List DeclId) := do
  let type ← ask (·.builtInType b)
  pure [type]

theorem literalTypes_eq (b : BasicType) : literalTypes b = pure [b.declaration] := by
  rw [literalTypes, ask_builtInType]
  rfl

/-- The types of an expression's values, given the types of its parts. -/
def formTypes (form : ExprForm) (place : Position) : ProgramM (List DeclId) :=
  match form with
  | .integer _ => literalTypes .int
  | .character _ => literalTypes .byte
  | .string _ => literalTypes .string
  | .bool _ => literalTypes .bool
  | .identifier _ ref => ask (·.valueTypes ref place)
  | .binary op left right => do
      let leftType ← single types left
      let rightType ← single types right
      let type ← ask (·.operatorType op leftType rightType place)
      pure [type]
  | .not operand => do
      let bool ← ask (·.builtInType .bool)
      let operandType ← single types operand
      let type ← ask (·.negationType bool operandType place)
      pure [type]
  | .call called arguments => callTypes types called arguments place

end Parts

/-- The types of an expression's values, noted in it and in its parts, down to depth `n`. -/
def typesUpTo : Nat → ExprId → ProgramM (List DeclId)
  | 0, _ => throw (Cause.internal "expression inside itself").nowhere
  | n + 1, id => do
      let e ← ask (·.getExpression id)
      match e.types? with
      | some types => pure types
      | none =>
          let types ← formTypes (typesUpTo n) e.form e.position
          modify (·.setTypes id types)
          pure types

/-- The types of an expression's values. -/
def typesOf (id : ExprId) : ProgramM (List DeclId) := fun p => typesUpTo p.expressions.size id p

def typeOf (id : ExprId) : ProgramM DeclId := single typesOf id

end FrontEnd.Program
