/-
**Reading statements.**

The statements of a list are read one after the other up to the closing brace.  A declaration of a
variable makes a new scope, in which the rest of the list is read; the other statements leave the
scope as it is.  Nothing may follow a `return`.

Blocks hold lists of statements in turn, and every statement takes a token, so reading is bounded
by the number of tokens left.

Main definitions:

* `FrontEnd.Parser.simple` — a call, or a change of a variable;
* `FrontEnd.Parser.statement` — a statement, and the scope behind it;
* `FrontEnd.Parser.statements` — a list of statements;
* `FrontEnd.Parser.block` — a list in braces, in a scope of its own.
-/

import FrontEnd.Parser.Expression
import FrontEnd.Parser.Signature

set_option relaxedAutoImplicit false
set_option autoImplicit false

namespace FrontEnd.Parser

section Rules

variable (g : Grammar)

/-! ### Statements without blocks -/

/-- Reads the declaration of a variable.  The variable is visible in a new scope. -/
def declareStatement (scope : ScopeId) : ParseM (StmtId × ScopeId) := do
  let first ← expect .varWord
  let (t, name) ← expectName
  let (type, _) ← typeName scope
  discard (expect .semicolon)
  let decl ← addDeclaration (.var { name? := some name, position := t.position, type })
  let behind ← onProgram (Program.extend scope name decl t.position)
  let id ← addStatement (.declare decl) first.position
  deferIf type (·.addStatement id)
  pure (id, behind)

/-- The tokens that change a variable. -/
def changeTokens : List TokenKind :=
  [.assign, .addAssign, .subtractAssign, .increment, .decrement]

/-- Reads what a token that changes a variable changes it by. -/
def change (scope : ScopeId) (kind : TokenKind) : ParseM Change :=
  match kind with
  | .assign => Change.assign <$> expression g scope .default
  | .addAssign => Change.add <$> expression g scope .default
  | .subtractAssign => Change.subtract <$> expression g scope .default
  | .increment => pure .increment
  | _ => pure .decrement

/-- Reads an expression that has to be a call. -/
def callStatement (scope : ScopeId) : ParseM StmtId := do
  let place := (← get).position
  let call ← expression g scope .default
  if ((← get).program.expression? call).any Expression.isCall then
    addStatement (.call call) place
  else throw (Cause.callExpected.at place)

def changeStatement (scope : ScopeId) : ParseM StmtId := do
  let place := (← get).position
  let (t, name) ← expectName
  let target := (← get).program.variableReference scope name t.position
  let sign ← expectOneOf changeTokens
  let change ← change g scope sign.kind
  let id ← addStatement (.change target change) place
  deferIf target (·.addStatement id)
  pure id

/-- Reads a call or a change of a variable, without a semicolon.  What has a parenthesis behind its
first token is taken for a call. -/
def simple (scope : ScopeId) : ParseM StmtId := do
  if (← get).peek? 1 = some .leftParenthesis then callStatement g scope
  else changeStatement g scope

/-- Reads a call or a change of a variable, with its semicolon. -/
def simpleStatement (scope : ScopeId) : ParseM (StmtId × ScopeId) := do
  let id ← simple g scope
  discard (expect .semicolon)
  pure (id, scope)

/-- Reads at most `n` further values, each behind a comma. -/
def moreValuesUpTo (scope : ScopeId) : Nat → ParseM (List ExprId)
  | 0 => pure []
  | n + 1 => do
      if (← get).kind? = some .comma then
        discard advance
        let value ← expression g scope .default
        let others ← moreValuesUpTo scope n
        pure (value :: others)
      else pure []

/-- Reads further values, each behind a comma. -/
def moreValues (scope : ScopeId) : ParseM (List ExprId) := fun s =>
  moreValuesUpTo g scope s.rest.length s

/-- Reads the values of a `return`. -/
def values (scope : ScopeId) : ParseM (List ExprId) := do
  if (← get).kind? = some .semicolon then pure []
  else
    let value ← expression g scope .default
    let others ← moreValues g scope
    pure (value :: others)

/-- Reads a `return`. -/
def resultStatement (scope : ScopeId) : ParseM (StmtId × ScopeId) := do
  let first ← expect .returnWord
  let values ← values g scope
  discard (expect .semicolon)
  let id ← addStatement (.result values) first.position
  pure (id, scope)

/-! ### Statements with blocks -/

section Lists

variable (list : ScopeId → ParseM (List StmtId))

/-- Reads a list in braces. -/
def braced (scope : ScopeId) : ParseM (List StmtId) := do
  discard (expect .leftBrace)
  let statements ← list scope
  discard (expect .rightBrace)
  pure statements

/-- Reads a list in braces, in a new scope. -/
def blockOf (scope : ScopeId) : ParseM Block := do
  let inner ← onProgram (Program.newScope .block scope)
  let statements ← braced list inner
  pure { statements, scope := inner }

def elseBlock (scope : ScopeId) : ParseM (Option Block) := do
  if (← get).kind? = some .elseWord then
    discard advance
    some <$> blockOf list scope
  else pure none

def branchStatement (scope : ScopeId) : ParseM (StmtId × ScopeId) := do
  let first ← expect .ifWord
  let condition ← expression g scope .default
  let thenBlock ← blockOf list scope
  let elseBlock? ← elseBlock list scope
  let id ← addStatement (.branch condition thenBlock elseBlock?) first.position
  pure (id, scope)

def whileStatement (scope : ScopeId) : ParseM (StmtId × ScopeId) := do
  let first ← expect .whileWord
  let condition ← expression g scope .default
  let body ← blockOf list scope
  let id ← addStatement (.whileLoop condition body) first.position
  pure (id, scope)

/-- Reads a simple statement, unless the given token stands in its place. -/
def simpleUnless (kind : TokenKind) (scope : ScopeId) : ParseM (Option StmtId) := do
  if (← get).kind? = some kind then pure none
  else some <$> simple g scope

/-- Reads a counted repetition. -/
def forStatement (scope : ScopeId) : ParseM (StmtId × ScopeId) := do
  let first ← expect .forWord
  let init? ← simpleUnless g .semicolon scope
  discard (expect .semicolon)
  let condition ← expression g scope .default
  discard (expect .semicolon)
  let action? ← simpleUnless g .leftBrace scope
  let body ← blockOf list scope
  let id ← addStatement (.forLoop init? condition action? body) first.position
  pure (id, scope)

/-- Reads a statement, given how to read the lists in its blocks.  The answer holds the scope in
which the list goes on. -/
def statementOf (scope : ScopeId) : ParseM (StmtId × ScopeId) := do
  match (← get).kind?.bind g.statementRule with
  | none => refuse "<statement>"
  | some .declare => declareStatement scope
  | some .simple => simpleStatement g scope
  | some .branch => branchStatement g list scope
  | some .whileLoop => whileStatement g list scope
  | some .forLoop => forStatement g list scope
  | some .result => resultStatement g scope

end Lists

/-! ### Lists -/

def isReturn (s : Parser) (id : StmtId) : Bool :=
  (s.program.statement? id).any Statement.isReturn

/-- Reads statements up to the closing brace, which is left; at most `n` of them, and at most `n`
deep.  `closed` tells that the statement before was a `return`. -/
def statementsUpTo : Nat → Bool → ScopeId → ParseM (List StmtId)
  | 0, _, _ => refuse "'\x7d'"
  | n + 1, closed, scope => do
      let s ← get
      match s.kind? with
      | none => refuse "'\x7d'"
      | some kind =>
          if kind = .rightBrace then pure []
          else
            require (closed = false) (Cause.returnNotLast.at s.position)
            let (id, behind) ← statementOf g (statementsUpTo n false) scope
            let others ← statementsUpTo n ((← get).isReturn id) behind
            pure (id :: others)

/-- Reads statements up to the closing brace, which is left.  `closed` tells that the statement
before was a `return`. -/
def statementsFrom (closed : Bool) (scope : ScopeId) : ParseM (List StmtId) := fun s =>
  statementsUpTo g s.rest.length closed scope s

def statements (scope : ScopeId) : ParseM (List StmtId) := statementsFrom g false scope

/-- Reads a statement.  The answer holds the scope in which a list goes on behind it. -/
def statement (scope : ScopeId) : ParseM (StmtId × ScopeId) := statementOf g (statements g) scope

def block (scope : ScopeId) : ParseM Block := blockOf (statements g) scope

end Rules

end FrontEnd.Parser
