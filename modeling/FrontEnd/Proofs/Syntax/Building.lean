/-
**Making programs from trees.**

The parser does two things at once: it reads tokens and it makes nodes.  Here is the second alone:
a tree is turned into nodes, scopes and pending references, in the order in which the parser makes
them, and the only thing that can fail is a declaration whose name is taken.

Main definitions:

* `FrontEnd.Draft`, `FrontEnd.BuildM` — a program with the places of its pending references, and
  computations on it;
* `FrontEnd.Syntax.Expr.build`, `FrontEnd.Syntax.Stmt.build`, `FrontEnd.Syntax.Func.build`,
  `FrontEnd.Syntax.buildFile` — the nodes of a tree.
-/

import FrontEnd.Deferred
import FrontEnd.Proofs.Syntax.Tree

set_option relaxedAutoImplicit false
set_option autoImplicit false

namespace FrontEnd

/-! ### Drafts -/

/-- A program that is being built, and the places of its pending references. -/
structure Draft where
  /-- The program built so far. -/
  program : Program := .initial
  /-- The places of the pending references. -/
  deferred : Deferred := {}
  deriving DecidableEq, Repr

/-- Computations that build a program and may fail. -/
abbrev BuildM := EStateM Error Draft

namespace Draft

/-- A computation on the program that is being built. -/
def onProgram {α : Type} (action : ProgramM α) : BuildM α := fun d =>
  match action d.program with
  | .ok a program => .ok a { d with program }
  | .error e program => .error e { d with program }

def addDeclaration (declaration : Declaration) : BuildM DeclId := fun d =>
  .ok d.program.nextDecl { d with program := d.program.addDeclaration declaration }

def addExpression (e : Expression) : BuildM ExprId := fun d =>
  .ok d.program.nextExpr { d with program := d.program.addExpression e }

def addStatement (form : StmtForm) (place : Position) : BuildM StmtId := fun d =>
  .ok d.program.nextStmt { d with program := d.program.addStatement ⟨form, place⟩ }

def deferIf (ref : Reference) (change : Deferred → Deferred) : BuildM Unit := fun d =>
  .ok () (if ref.isPending then { d with deferred := change d.deferred } else d)

/-- Noting a pending reference leaves the program as it is. -/
theorem program_of_deferIf {ref : Reference} {change : Deferred → Deferred} {d d' : Draft}
    {u : Unit} (h : deferIf ref change d = .ok u d') : d'.program = d.program := by
  cases h
  split <;> rfl

theorem expression?_of_addExpression {node : Expression} {d d' : Draft} {id : ExprId}
    (h : addExpression node d = .ok id d') : d'.program.expression? id = some node := by
  cases h
  simp [Program.expression?_addExpression]

theorem statement?_of_addStatement {form : StmtForm} {place : Position} {d d' : Draft}
    {id : StmtId} (h : addStatement form place d = .ok id d') :
    d'.program.statement? id = some ⟨form, place⟩ := by
  cases h
  simp [Program.statement?_addStatement]

end Draft

namespace Syntax

open Draft

/-! ### Expressions -/

/-- The node of a name, which stands for a variable or a function. -/
def Name.build (scope : ScopeId) (name : Name) : BuildM ExprId := do
  let ref := (← get).program.valueReference scope name.text name.position
  let id ← addExpression { form := .identifier name.text ref, position := name.position }
  deferIf ref (·.addIdentifier id)
  pure id

namespace Expr

mutual

/-- The nodes of an expression. -/
def build (scope : ScopeId) : Expr → BuildM ExprId
  | literal value place =>
      addExpression
        { form := value.form, position := place, types? := some [value.type.declaration] }
  | name n => n.build scope
  | not place operand => do
      let operand ← operand.build scope
      addExpression { form := .not operand, position := place }
  | binary operator place left right => do
      let left ← left.build scope
      let right ← right.build scope
      addExpression { form := .binary operator left right, position := place }
  | call callee arguments => do
      let called ← callee.build scope
      let arguments ← buildAll scope arguments
      addExpression { form := .call called arguments, position := callee.position }

def buildAll (scope : ScopeId) : List Expr → BuildM (List ExprId)
  | [] => pure []
  | e :: others => do
      let id ← e.build scope
      let ids ← buildAll scope others
      pure (id :: ids)

end

end Expr

/-! ### Statements -/

def Update.build (scope : ScopeId) : Update → BuildM Change
  | assign value => Change.assign <$> value.build scope
  | add value => Change.add <$> value.build scope
  | subtract value => Change.subtract <$> value.build scope
  | increment => pure .increment
  | decrement => pure .decrement

def Simple.build (scope : ScopeId) : Simple → BuildM StmtId
  | call place e => do
      let id ← e.build scope
      addStatement (.call id) place
  | change name update => do
      let target := (← get).program.variableReference scope name.text name.position
      let change ← update.build scope
      let id ← addStatement (.change target change) name.position
      deferIf target (·.addStatement id)
      pure id

def Simple.buildMaybe (scope : ScopeId) : Option Simple → BuildM (Option StmtId)
  | none => pure none
  | some s => some <$> s.build scope

/-- The nodes of a declaration of a variable, and the scope in which the variable is visible. -/
def Stmt.buildDeclare (scope : ScopeId) (place : Position) (name type : Name) :
    BuildM (StmtId × ScopeId) := do
  let type := (← get).program.typeReference scope type.text type.position
  let decl ← addDeclaration (.var { name? := some name.text, position := name.position, type })
  let behind ← onProgram (Program.extend scope name.text decl name.position)
  let id ← addStatement (.declare decl) place
  deferIf type (·.addStatement id)
  pure (id, behind)

/-- The nodes of statements in braces, in a new scope. -/
def Stmt.buildBlock (list : ScopeId → BuildM (List StmtId)) (scope : ScopeId) : BuildM Block := do
  let inner ← onProgram (Program.newScope .block scope)
  let statements ← list inner
  pure { statements, scope := inner }

namespace Stmt

mutual

/-- The nodes of a statement, and the scope in which a list goes on behind it. -/
def build (scope : ScopeId) : Stmt → BuildM (StmtId × ScopeId)
  | declare place name type => buildDeclare scope place name type
  | simple s => do
      let id ← s.build scope
      pure (id, scope)
  | branch place condition thenBlock none => do
      let condition ← condition.build scope
      let thenBlock ← buildBlock (fun inner => buildAll inner thenBlock) scope
      let id ← addStatement (.branch condition thenBlock none) place
      pure (id, scope)
  | branch place condition thenBlock (some elseBlock) => do
      let condition ← condition.build scope
      let thenBlock ← buildBlock (fun inner => buildAll inner thenBlock) scope
      let elseBlock ← buildBlock (fun inner => buildAll inner elseBlock) scope
      let id ← addStatement (.branch condition thenBlock (some elseBlock)) place
      pure (id, scope)
  | whileLoop place condition body => do
      let condition ← condition.build scope
      let body ← buildBlock (fun inner => buildAll inner body) scope
      let id ← addStatement (.whileLoop condition body) place
      pure (id, scope)
  | forLoop place init? condition action? body => do
      let init? ← Simple.buildMaybe scope init?
      let condition ← condition.build scope
      let action? ← Simple.buildMaybe scope action?
      let body ← buildBlock (fun inner => buildAll inner body) scope
      let id ← addStatement (.forLoop init? condition action? body) place
      pure (id, scope)
  | result place values => do
      let values ← Expr.buildAll scope values
      let id ← addStatement (.result values) place
      pure (id, scope)

def buildAll (scope : ScopeId) : List Stmt → BuildM (List StmtId)
  | [] => pure []
  | s :: others => do
      let (id, behind) ← s.build scope
      let ids ← buildAll behind others
      pure (id :: ids)

end

end Stmt

/-! ### Functions -/

/-- The variable behind a parameter or a result. -/
def buildField (name? : Option String) (type : Reference) (place : Position) : BuildM Field := do
  let decl ← addDeclaration (.var { name?, position := place, type })
  deferIf type (·.addField decl)
  pure { name?, decl }

/-- The variable behind a parameter, declared in the scope. -/
def Param.build (scope : ScopeId) (p : Param) : BuildM Field := do
  let type := (← get).program.typeReference scope p.type.text p.type.position
  let field ← buildField (some p.name.text) type p.name.position
  onProgram (Program.declare scope .var p.name.text field.decl p.name.position)
  pure field

def Name.buildResult (scope : ScopeId) (name : Name) : BuildM Field := do
  let type := (← get).program.typeReference scope name.text name.position
  buildField none type name.position

/-- Some items, one after the other. -/
def buildItems {α β : Type} (item : α → BuildM β) : List α → BuildM (List β)
  | [] => pure []
  | x :: others => do
      let y ← item x
      let ys ← buildItems item others
      pure (y :: ys)

/-- The nodes of a function, which is declared in the scope before its body is made. -/
def Func.build (scope : ScopeId) (f : Func) : BuildM DeclId := do
  let inner ← onProgram (Program.newScope .function scope)
  let parameters ← buildItems (Param.build inner) f.parameters
  let results ← buildItems (Name.buildResult inner) f.results
  let decl ← addDeclaration
    (.func { name := f.name.text, position := f.name.position, parameters, results, body := [],
             scope := inner })
  onProgram (Program.declare scope .func f.name.text decl f.name.position)
  let body ← Stmt.buildAll inner f.body
  modify fun d => { d with program := d.program.setBody decl body }
  pure decl

def buildFile : List Func → BuildM Unit
  | [] => pure ()
  | f :: others => do
      let decl ← f.build .file
      modify fun d => { d with program := d.program.addTopLevel decl }
      buildFile others

end Syntax

end FrontEnd
