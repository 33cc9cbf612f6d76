/-
**Checking programs.**

A function is checked statement by statement against the types of its results: values have the
types of the variables they go to, conditions are truth values, arithmetic changes integers, and
every `return` gives what the signature promises.  A function with results ends in a `return`.
A program is its functions in order, and starts in the function `main`.

Conditions and arithmetic are compared with two built-in types, which are looked up before the first
function is checked.

Main definitions:

* `FrontEnd.Checker`, `FrontEnd.Program.checker` — what statements are checked with;
* `FrontEnd.Program.checkStatement`, `FrontEnd.Program.checkFunction` — one statement, one function;
* `FrontEnd.Program.check` — all functions of the file;
* `FrontEnd.Program.findMain` — the function that the program starts in;
* `FrontEnd.Program.analyze` — the check, then the start.

Main results:

* `FrontEnd.Program.checker_eq` — every program has what its statements are checked with.
-/

import FrontEnd.Typing

set_option relaxedAutoImplicit false
set_option autoImplicit false

namespace FrontEnd

/-- What the statements of a program are checked with. -/
structure Checker where
  /-- The type of integers. -/
  int : DeclId
  /-- The type of truth values. -/
  bool : DeclId

/-- Checks against the built-in types. -/
def Checker.builtIn : Checker := ⟨BasicType.int.declaration, BasicType.bool.declaration⟩

namespace Program

/-- What the statements are checked with, looked up in the program. -/
def checker (p : Program) : Except Error Checker :=
  match p.builtInType .int with
  | .error e => .error e
  | .ok int =>
      match p.builtInType .bool with
      | .error e => .error e
      | .ok bool => .ok ⟨int, bool⟩

theorem checker_eq (p : Program) : p.checker = .ok .builtIn := by
  rw [checker, builtInType_eq, builtInType_eq]
  rfl

/-- Asking for what statements are checked with never fails. -/
theorem ask_checker : ask checker = (pure .builtIn : ProgramM Checker) := by
  funext p
  rw [ask, checker_eq]
  rfl

/-! ### Statements -/

/-- The type of the variable behind a reference. -/
def targetType (p : Program) (target : Reference) : Except Error DeclId :=
  match target.target with
  | .error e => .error e
  | .ok id => p.variableType id

/-- The refusal of a value of the wrong type. -/
def mismatch (p : Program) (expected received : DeclId) (place : Position) : Error :=
  (Cause.typeMismatch (p.typeName expected) (p.typeName received)).at place

def getStatement (p : Program) (id : StmtId) : Except Error Statement :=
  match p.statement? id with
  | some s => .ok s
  | none => .error (Cause.internal "missing statement").nowhere

section Checks

variable (c : Checker)

/-- Refuses a condition that is no truth value. -/
def checkCondition (condition : ExprId) : ProgramM Unit := do
  let e ← ask (·.getExpression condition)
  let type ← typeOf condition
  require (type = c.bool) (Cause.conditionNotBool.at e.position)

/-- Refuses an operation on a variable that is no integer. -/
def checkIntegerTarget (target : Reference) (operation : String) (place : Position) :
    ProgramM Unit := do
  let type ← ask (·.targetType target)
  let p ← get
  require (type = c.int) ((Cause.integerOnly operation (p.typeName type)).at place)

/-- Refuses a value that is no integer. -/
def checkIntegerValue (value : ExprId) : ProgramM Unit := do
  let e ← ask (·.getExpression value)
  let type ← typeOf value
  let p ← get
  require (type = c.int) (p.mismatch c.int type e.position)

/-- Refuses a change of a variable that does not fit its type. -/
def checkChange (target : Reference) (change : Change) (place : Position) : ProgramM Unit :=
  match change with
  | .assign value => do
      let expected ← ask (·.targetType target)
      let received ← typeOf value
      let p ← get
      require (expected = received) (p.mismatch expected received place)
  | .add value => do
      checkIntegerTarget c target "add to" place
      checkIntegerValue c value
  | .subtract value => do
      checkIntegerTarget c target "subtract from" place
      checkIntegerValue c value
  | .increment => checkIntegerTarget c target "increment" place
  | .decrement => checkIntegerTarget c target "decrement" place

/-- Compares returned values with the types of the results, one by one. -/
def checkResults : List DeclId → List ExprId → ProgramM Unit
  | expected :: results, id :: values => do
      let value ← ask (·.getExpression id)
      let received ← typeOf id
      let p ← get
      require (received = expected)
        ((Cause.returnMismatch (p.typeName expected) (p.typeName received)).at value.position)
      checkResults results values
  | _, _ => pure ()

/-- Refuses a `return` that does not give what the function promises. -/
def checkReturn (results : List DeclId) (values : List ExprId) (place : Position) :
    ProgramM Unit := do
  require (values.length = results.length)
    ((Cause.returnCount results.length values.length).at place)
  checkResults results values

/-- Checks a statement of a function with the given results, given the check of its parts. -/
def checkForm (results : List DeclId) (part : StmtId → ProgramM Unit) (s : Statement) :
    ProgramM Unit :=
  match s.form with
  | .declare decl => discard (ask (·.variableType decl))
  | .change target change => checkChange c target change s.position
  | .call call => discard (typesOf call)
  | .branch condition thenBlock elseBlock? => do
      checkCondition c condition
      thenBlock.statements.forM part
      match elseBlock? with
      | some elseBlock => elseBlock.statements.forM part
      | none => pure ()
  | .whileLoop condition body => do
      checkCondition c condition
      body.statements.forM part
  | .forLoop init? condition action? body => do
      init?.forM part
      checkCondition c condition
      action?.forM part
      body.statements.forM part
  | .result values => checkReturn results values s.position

/-- Checks a statement of a function with the given results, down to depth `n`. -/
def checkUpTo (results : List DeclId) : Nat → StmtId → ProgramM Unit
  | 0, _ => throw (Cause.internal "statement inside itself").nowhere
  | n + 1, id => do
      let s ← ask (·.getStatement id)
      checkForm c results (checkUpTo results n) s

/-- Checks a statement of a function with the given results.  Statements refer to their parts by
number; no statement of a program is nested deeper than there are statements. -/
def checkStatement (results : List DeclId) (id : StmtId) : ProgramM Unit := fun p =>
  checkUpTo c results p.statements.size id p

/-! ### Functions -/

/-- Whether the last of the statements is a `return`. -/
def endsInReturn (p : Program) (statements : List StmtId) : Bool :=
  match statements.getLast? with
  | some last => (p.statement? last).any Statement.isReturn
  | none => false

/-- Checks the statements of a function, and that results are returned at its end. -/
def checkBody (f : Function) : ProgramM Unit := do
  let results ← ask (·.resultTypes f)
  f.body.forM (checkStatement c results)
  let p ← get
  require (results = [] ∨ p.endsInReturn f.body) (Cause.missingReturn.at f.position)

/-- Checks what a declaration declares, if it is a function. -/
def checkDeclaration (id : DeclId) : ProgramM Unit := do
  match (← get).function? id with
  | some f => checkBody c f
  | none => pure ()

end Checks

/-- Checks a function on its own. -/
def checkFunction (f : Function) : ProgramM Unit := do
  let c ← ask checker
  checkBody c f

/-- Checks the functions of the file in order. -/
def check : ProgramM Unit := do
  let c ← ask checker
  (← get).topLevel.forM (checkDeclaration c)

def mainName : String := "main"

/-- The function that the program starts in. -/
def findMain (p : Program) : Except Error DeclId :=
  match p.scopes.search .file .func mainName with
  | some entry => .ok entry.declaration
  | none => .error Cause.missingMain.nowhere

/-- Checks the program and finds the function that it starts in. -/
def analyze : ProgramM DeclId := do
  check
  ask findMain

end Program

end FrontEnd
