/-
**What can go wrong with a program.**

Every failure of the front end has a cause.  A cause has a name, the stage that it belongs to, a
message and perhaps a tip for the user; an error is a cause together with the place it points to,
if there is one, and the contexts it was reported from, innermost first.

Main definitions:

* `FrontEnd.Cause` — the reasons for which a program is refused;
* `FrontEnd.Cause.name`, `FrontEnd.Cause.stage`, `FrontEnd.Cause.message`, `FrontEnd.Cause.tip?` —
  what is reported of a cause;
* `FrontEnd.Error`, `FrontEnd.Error.describe` — an error and its one-line form.
-/

import FrontEnd.Position

set_option relaxedAutoImplicit false
set_option autoImplicit false

namespace FrontEnd

/-- The stages of the front end, in the order in which they run. -/
inductive Stage where
  | lexing
  | parsing
  | resolution
  | typing
  deriving DecidableEq, Repr

/-- The reasons for which a program is refused.  Names and types are kept as they are shown. -/
inductive Cause where
  /-- No token starts with this character. -/
  | unrecognisedToken (token : String)
  /-- The digits denote a number beyond the largest integer. -/
  | integerTooLarge (digits : String)
  /-- Nothing stands between the quotes of a character. -/
  | emptyCharacter
  /-- The line ends inside a character. -/
  | unterminatedCharacter
  /-- More than one byte stands between the quotes of a character. -/
  | characterTooLong
  /-- The line ends inside a string. -/
  | unterminatedString
  /-- The grammar does not allow this token here. -/
  | unexpectedToken (token expected : String)
  /-- The tokens end although the grammar asks for more. -/
  | unexpectedEnd (expected : String)
  /-- A token was read as a literal or a name that it is not. -/
  | wrongPayload (expected found : String)
  /-- A statement stands behind a `return`. -/
  | returnNotLast
  /-- Something other than a name or a call is called. -/
  | notCallable
  /-- An expression that is no call stands as a statement. -/
  | callExpected
  /-- The name is visible already. -/
  | clash (name kind previous : String)
  /-- The name of a file-level declaration is taken by a nested one. -/
  | nestedClash (name : String) (previous : Position)
  /-- Nothing can be declared next to the built-in types. -/
  | builtInDeclaration (kind : String)
  /-- No type has this name. -/
  | typeNotFound (name : String)
  /-- Neither a variable nor a function has this name. -/
  | valueNotFound (name : String)
  /-- No variable has this name. -/
  | variableNotFound (name : String)
  /-- A value of one type goes where another is asked for. -/
  | typeMismatch (expected received : String)
  /-- The operands of an operator differ in type. -/
  | operandMismatch (left right : String)
  /-- The operand of `!` is no truth value. -/
  | negatedNonBool (received : String)
  /-- An operand of `&&` or `||` is no truth value. -/
  | logicalNonBool (received : String)
  /-- The called expression is not the name of a function. -/
  | notAFunction
  /-- A call has too many or too few arguments. -/
  | argumentCount (expected received : Nat)
  /-- An argument has another type than its parameter. -/
  | argumentMismatch (expected received : String)
  /-- An expression with no value or several values stands where one is needed. -/
  | singleValueExpected (count : Nat)
  /-- An operation on integers is applied to a variable of another type. -/
  | integerOnly (operation received : String)
  /-- A condition is no truth value. -/
  | conditionNotBool
  /-- A `return` has too many or too few values. -/
  | returnCount (expected received : Nat)
  /-- A returned value has another type than the signature says. -/
  | returnMismatch (expected received : String)
  /-- A function with results does not end in a `return`. -/
  | missingReturn
  /-- There is no function to start in. -/
  | missingMain
  /-- A program graph that no source text gives rise to. -/
  | internal (detail : String)
  deriving DecidableEq, Repr

namespace Cause

/-- The name under which a cause is reported. -/
def name : Cause → String
  | unrecognisedToken _ => "UnrecognisedToken"
  | integerTooLarge _ => "IntegerParseError"
  | emptyCharacter => "EmptyCharacterLiteral"
  | unterminatedCharacter => "UnterminatedCharacterLiteral"
  | characterTooLong => "CharacterLiteralTooLong"
  | unterminatedString => "UnterminatedStringLiteral"
  | unexpectedToken _ _ => "UnexpectedToken"
  | unexpectedEnd _ => "UnexpectedEndOfInput"
  | wrongPayload _ _ => "TokenDowncast"
  | returnNotLast => "ReturnNotLast"
  | notCallable => "NotCallable"
  | callExpected => "CallStatementExpected"
  | clash _ _ _ => "DeclarationClash"
  | nestedClash _ _ => "SubScopeDeclarationClash"
  | builtInDeclaration _ => "BuiltInScopeDeclaration"
  | typeNotFound _ => "TypeNotFound"
  | valueNotFound _ => "VariableOrFunctionNotFound"
  | variableNotFound _ => "VariableNotFound"
  | typeMismatch _ _ => "TypeMismatch"
  | operandMismatch _ _ => "OperandTypeMismatch"
  | negatedNonBool _ => "NotOperandType"
  | logicalNonBool _ => "LogicalOperandType"
  | notAFunction => "NotAFunction"
  | argumentCount _ _ => "ParameterCountMismatch"
  | argumentMismatch _ _ => "ParameterTypeMismatch"
  | singleValueExpected _ => "SingleTypeExpected"
  | integerOnly _ _ => "IntegerOnlyOperation"
  | conditionNotBool => "ConditionNotBool"
  | returnCount _ _ => "ReturnCountMismatch"
  | returnMismatch _ _ => "ReturnTypeMismatch"
  | missingReturn => "MissingReturn"
  | missingMain => "MissingMainFunction"
  | internal _ => "Internal"

/-- The stage that a cause belongs to. -/
def stage : Cause → Stage
  | unrecognisedToken _ | integerTooLarge _ | emptyCharacter | unterminatedCharacter
  | characterTooLong | unterminatedString => .lexing
  | unexpectedToken _ _ | unexpectedEnd _ | wrongPayload _ _ | returnNotLast | notCallable
  | callExpected => .parsing
  | clash _ _ _ | nestedClash _ _ | builtInDeclaration _ | typeNotFound _ | valueNotFound _
  | variableNotFound _ => .resolution
  | typeMismatch _ _ | operandMismatch _ _ | negatedNonBool _ | logicalNonBool _ | notAFunction
  | argumentCount _ _ | argumentMismatch _ _ | singleValueExpected _ | integerOnly _ _
  | conditionNotBool | returnCount _ _ | returnMismatch _ _ | missingReturn | missingMain
  | internal _ => .typing

/-- The message of a cause, without any place. -/
def message : Cause → String
  | unrecognisedToken token => s!"unknown token '{token}'"
  | integerTooLarge digits => s!"could not parse '{digits}' into integer"
  | emptyCharacter => "character literal can not be empty"
  | unterminatedCharacter => "unexpected end of line before end of character literal"
  | characterTooLong => "character literal may only be 1 character long"
  | unterminatedString => "unexpected end of line before end of string literal"
  | unexpectedToken token expected => s!"unexpected token '{token}', expected: {expected}"
  | unexpectedEnd expected => s!"unexpected end of input, expected: {expected}"
  | wrongPayload expected found => s!"expected {expected} token but found '{found}'"
  | returnNotLast => "return statement must be the last statement in its block"
  | notCallable => "only identifiers and call results can be called"
  | callExpected => "expression statement must be a function call"
  | clash name kind previous =>
      s!"identifier '{name}' is already declared as {kind} at {previous}"
  | nestedClash name previous =>
      s!"identifier '{name}' is already declared in a sub-scope at {previous.describe}"
  | builtInDeclaration kind => s!"cannot declare {kind} on built-in scope"
  | typeNotFound name => s!"no type found for '{name}'"
  | valueNotFound name => s!"no variable or function found for '{name}'"
  | variableNotFound name => s!"no variable found for '{name}'"
  | typeMismatch expected received =>
      s!"type mismatch: expected '{expected}' but was given '{received}'"
  | operandMismatch left right =>
      s!"cannot operate for different types, '{left}' and '{right}',"
  | negatedNonBool received =>
      s!"can only use 'not' operator on type Bool, type {received} given"
  | logicalNonBool received =>
      s!"can only use logical operators on type Bool, type {received} given"
  | notAFunction => "cannot call identifier as a function"
  | argumentCount expected received =>
      s!"number of parameters mismatch: expected {expected} but was given {received}"
  | argumentMismatch expected received =>
      s!"parameter type mismatch: expected '{expected}' but was given '{received}'"
  | singleValueExpected count => s!"expression must have 1 return type but had {count}"
  | integerOnly operation received => s!"cannot {operation} variable with type '{received}'"
  | conditionNotBool => "condition must result with type 'Bool'"
  | returnCount expected received =>
      s!"number of return types mismatch: expected {expected} but was given {received}"
  | returnMismatch expected received =>
      s!"return type mismatch: expected '{expected}' but was given '{received}'"
  | missingReturn => "function should return values"
  | missingMain => "must have a 'main' function"
  | internal detail => s!"compiler error: {detail}"

/-- Advice for the user, where there is any to give. -/
def tip? : Cause → Option String
  | unexpectedToken token expected =>
      some s!"Unexpected token: `{token}`, expected one of: {expected}"
  | unexpectedEnd expected => some s!"Input ended early, expected one of: {expected}"
  | integerTooLarge digits => some s!"Invalid number: `{digits}`, is it above the integer limit?"
  | returnNotLast => some "Statements after a `return` can never run, remove them"
  | clash name _ _ | nestedClash name _ => some s!"Rename one of the declarations of `{name}`"
  | typeMismatch expected received | argumentMismatch expected received
  | returnMismatch expected received =>
      some s!"Expected type `{expected}`, received `{received}`"
  | argumentCount expected received =>
      some s!"Expected {expected} arguments, received {received}"
  | missingReturn => some "End the function body with a `return` statement"
  | internal _ => some "This is a bug in the compiler, not in the program being compiled"
  | _ => none

end Cause

/-- A cause, the place it points to, and the contexts it was reported from, innermost first. -/
structure Error where
  /-- What went wrong. -/
  cause : Cause
  /-- Where it went wrong, if the cause has a place. -/
  position? : Option Position := none
  /-- What was being done, innermost first. -/
  context : List String := []
  deriving DecidableEq, Repr

namespace Error

/-- The error with a further, outer context. -/
def within (e : Error) (context : String) : Error := { e with context := e.context ++ [context] }

@[simp] theorem within_cause (e : Error) (context : String) : (e.within context).cause = e.cause :=
  rfl

@[simp] theorem within_position (e : Error) (context : String) :
    (e.within context).position? = e.position? := rfl

/-- The message, then the place, then the contexts in parentheses. -/
def describe (e : Error) : String :=
  let place := match e.position? with
    | some p => s!" on {p.describe}"
    | none => ""
  let contexts := match e.context with
    | [] => ""
    | contexts => " (" ++ "; ".intercalate contexts ++ ")"
  e.cause.message ++ place ++ contexts

end Error

/-- The error of a cause at a place. -/
def Cause.at (cause : Cause) (p : Position) : Error := { cause, position? := some p }

def Cause.nowhere (cause : Cause) : Error := { cause }

/-- Fails with the error unless the condition holds. -/
@[macro_inline]
def require {σ : Type} (condition : Prop) [Decidable condition] (e : Error) :
    EStateM Error σ Unit :=
  if condition then pure () else throw e

@[simp] theorem Cause.at_cause (cause : Cause) (p : Position) : (cause.at p).cause = cause := rfl

@[simp] theorem Cause.at_position (cause : Cause) (p : Position) :
    (cause.at p).position? = some p := rfl

@[simp] theorem Cause.nowhere_cause (cause : Cause) : cause.nowhere.cause = cause := rfl

@[simp] theorem Cause.nowhere_position (cause : Cause) : cause.nowhere.position? = none := rfl

end FrontEnd
