/-
**Programs.**

A program owns its nodes: declarations, expressions and statements, numbered in the order in which
they are created, and the scopes.  The first declarations are the built-in types.

Main definitions:

* `FrontEnd.Program`, `FrontEnd.Program.initial` — programs, and the one without any source text;
* `FrontEnd.Program.addDeclaration` and the like — creating nodes;
* `FrontEnd.Program.variableType`, `FrontEnd.Program.parameterTypes`,
  `FrontEnd.Program.resultTypes` — the types that declarations give;
* `FrontEnd.Program.findType?`, `FrontEnd.Program.findVariable?`, `FrontEnd.Program.findValue?` —
  the declarations that names stand for;
* `FrontEnd.Program.builtInType` — the declaration of a built-in type;
* `FrontEnd.ProgramM` — computations that change a program and may fail; what they have changed
  before they fail stays changed.

Main results:

* `FrontEnd.Program.builtInType_eq` — the built-in types are found in every program.
-/

import FrontEnd.Statement

set_option relaxedAutoImplicit false
set_option autoImplicit false

namespace FrontEnd

/-- The nodes and scopes that a source text gives rise to. -/
structure Program where
  /-- The declarations by number. -/
  declarations : Array Declaration
  /-- The expressions by number. -/
  expressions : Array Expression
  /-- The statements by number. -/
  statements : Array Statement
  /-- The scopes. -/
  scopes : ScopeTree
  /-- The functions of the file in order. -/
  topLevel : List DeclId
  deriving DecidableEq, Repr

/-- Computations on a program that may fail; a failure keeps the program as it was left. -/
abbrev ProgramM := EStateM Error Program

namespace Program

/-- The program of the empty source text: the built-in types and nothing else. -/
def initial : Program where
  declarations := (BasicType.all.map fun b => .type ⟨b.name, none, b⟩).toArray
  expressions := #[]
  statements := #[]
  scopes := .initial
  topLevel := []

/-! ### Nodes -/

/-- The declaration with the given number. -/
def declaration? (p : Program) (id : DeclId) : Option Declaration := p.declarations[id.index]?

def expression? (p : Program) (id : ExprId) : Option Expression := p.expressions[id.index]?

def statement? (p : Program) (id : StmtId) : Option Statement := p.statements[id.index]?

/-- The function with the given number, if it is one. -/
def function? (p : Program) (id : DeclId) : Option Function :=
  match p.declaration? id with
  | some (.func f) => some f
  | _ => none

/-- The number of the next declaration. -/
def nextDecl (p : Program) : DeclId := ⟨p.declarations.size⟩

def nextExpr (p : Program) : ExprId := ⟨p.expressions.size⟩

def nextStmt (p : Program) : StmtId := ⟨p.statements.size⟩

/-- The program with a further declaration. -/
def addDeclaration (p : Program) (d : Declaration) : Program :=
  { p with declarations := p.declarations.push d }

def addExpression (p : Program) (e : Expression) : Program :=
  { p with expressions := p.expressions.push e }

def addStatement (p : Program) (s : Statement) : Program :=
  { p with statements := p.statements.push s }

/-- The program with a further function of the file. -/
def addTopLevel (p : Program) (id : DeclId) : Program := { p with topLevel := p.topLevel ++ [id] }

/-- The program with one declaration changed. -/
def modifyDeclaration (p : Program) (id : DeclId) (change : Declaration → Declaration) : Program :=
  { p with declarations := p.declarations.modify id.index change }

def modifyExpression (p : Program) (id : ExprId) (change : Expression → Expression) : Program :=
  { p with expressions := p.expressions.modify id.index change }

def modifyStatement (p : Program) (id : StmtId) (change : Statement → Statement) : Program :=
  { p with statements := p.statements.modify id.index change }

/-- The program with another type for a variable. -/
def setType (p : Program) (id : DeclId) (type : Reference) : Program :=
  p.modifyDeclaration id fun
    | .var v => .var { v with type }
    | other => other

def setBody (p : Program) (id : DeclId) (body : List StmtId) : Program :=
  p.modifyDeclaration id fun
    | .func f => .func { f with body }
    | other => other

def setTypes (p : Program) (id : ExprId) (types : List DeclId) : Program :=
  p.modifyExpression id fun e => { e with types? := some types }

theorem declaration?_addDeclaration (p : Program) (d : Declaration) (id : DeclId) :
    (p.addDeclaration d).declaration? id =
      if id = p.nextDecl then some d else p.declaration? id := by
  cases id with
  | mk i => simp [declaration?, addDeclaration, nextDecl, Array.getElem?_push]

theorem expression?_addExpression (p : Program) (e : Expression) (id : ExprId) :
    (p.addExpression e).expression? id =
      if id = p.nextExpr then some e else p.expression? id := by
  cases id with
  | mk i => simp [expression?, addExpression, nextExpr, Array.getElem?_push]

theorem statement?_addStatement (p : Program) (s : Statement) (id : StmtId) :
    (p.addStatement s).statement? id =
      if id = p.nextStmt then some s else p.statement? id := by
  cases id with
  | mk i => simp [statement?, addStatement, nextStmt, Array.getElem?_push]

theorem declaration?_modifyDeclaration (p : Program) (target : DeclId)
    (change : Declaration → Declaration) (id : DeclId) :
    (p.modifyDeclaration target change).declaration? id =
      if target = id then (p.declaration? id).map change else p.declaration? id := by
  cases target with
  | mk i =>
      cases id with
      | mk j => simp [declaration?, modifyDeclaration, Array.getElem?_modify]

theorem expression?_modifyExpression (p : Program) (target : ExprId)
    (change : Expression → Expression) (id : ExprId) :
    (p.modifyExpression target change).expression? id =
      if target = id then (p.expression? id).map change else p.expression? id := by
  cases target with
  | mk i =>
      cases id with
      | mk j => simp [expression?, modifyExpression, Array.getElem?_modify]

theorem statement?_modifyStatement (p : Program) (target : StmtId)
    (change : Statement → Statement) (id : StmtId) :
    (p.modifyStatement target change).statement? id =
      if target = id then (p.statement? id).map change else p.statement? id := by
  cases target with
  | mk i =>
      cases id with
      | mk j => simp [statement?, modifyStatement, Array.getElem?_modify]

/-! ### Types of declarations -/

/-- The type of a variable. -/
def variableType (p : Program) (id : DeclId) : Except Error DeclId :=
  match p.declaration? id with
  | some (.var v) => v.type.target
  | some other =>
      .error (Cause.internal
        s!"expected a variable declaration, found a {other.kind.describe}").nowhere
  | none => .error (Cause.internal "missing declaration").nowhere

/-- The types of the variables behind some fields. -/
def fieldTypes (p : Program) : List Field → Except Error (List DeclId)
  | [] => .ok []
  | field :: others =>
      match p.variableType field.decl with
      | .error e => .error e
      | .ok type =>
          match p.fieldTypes others with
          | .error e => .error e
          | .ok types => .ok (type :: types)

theorem variableType_ok_iff {p : Program} {id type : DeclId} : p.variableType id = .ok type ↔
    ∃ v, p.declaration? id = some (.var v) ∧ v.type = .resolved type := by
  unfold variableType
  cases p.declaration? id with
  | none => simp
  | some d => cases d <;> simp [Reference.target_eq_ok_iff]

theorem fieldTypes_cons_ok_iff {p : Program} {field : Field} {fields : List Field}
    {types : List DeclId} : p.fieldTypes (field :: fields) = .ok types ↔
      ∃ type others, p.variableType field.decl = .ok type ∧ p.fieldTypes fields = .ok others ∧
        types = type :: others := by
  rw [fieldTypes]
  cases p.variableType field.decl with
  | error e => simp
  | ok type => cases p.fieldTypes fields <;> simp [eq_comm]

def parameterTypes (p : Program) (f : Function) : Except Error (List DeclId) :=
  p.fieldTypes f.parameters

def resultTypes (p : Program) (f : Function) : Except Error (List DeclId) := p.fieldTypes f.results

/-- The name of a type as messages show it. -/
def typeName (p : Program) (id : DeclId) : String :=
  match p.declaration? id with
  | some (.type t) => t.name
  | some other => s!"<{other.kind.describe}>"
  | none => "<missing>"

def typeNames (p : Program) (ids : List DeclId) : String := ", ".intercalate (ids.map p.typeName)

/-! ### Meanings of names -/

/-- The type that a name stands for in a scope. -/
def findType? (p : Program) (scope : ScopeId) (name : String) : Option DeclId :=
  (p.scopes.search scope .type name).map Entry.declaration

def findVariable? (p : Program) (scope : ScopeId) (name : String) : Option DeclId :=
  (p.scopes.search scope .var name).map Entry.declaration

/-- The variable, or else the function, that a name stands for in a scope. -/
def findValue? (p : Program) (scope : ScopeId) (name : String) : Option DeclId :=
  match p.findVariable? scope name with
  | some id => some id
  | none => (p.scopes.search scope .func name).map Entry.declaration

/-- The declaration of a built-in type, which is looked up by its name like any other. -/
def builtInType (p : Program) (b : BasicType) : Except Error DeclId :=
  match p.findType? .builtIn b.name with
  | some id => .ok id
  | none => .error (Cause.internal s!"built-in type '{b.name}' is missing").nowhere

/-- The built-in types are found in every program: their scope is never changed. -/
@[simp] theorem builtInType_eq (p : Program) (b : BasicType) : p.builtInType b = .ok b.declaration := by
  have hfound : p.findType? .builtIn b.name = some b.declaration := by
    rw [findType?, ScopeTree.search_builtIn]
    cases b <;> rfl
  rw [builtInType, hfound]

/-- A reference to a type by its name. -/
def typeReference (p : Program) (scope : ScopeId) (name : String) (place : Position) : Reference :=
  .ofFound (p.findType? scope name) name scope place

def variableReference (p : Program) (scope : ScopeId) (name : String) (place : Position) :
    Reference :=
  .ofFound (p.findVariable? scope name) name scope place

/-- A reference to a variable or a function by its name. -/
def valueReference (p : Program) (scope : ScopeId) (name : String) (place : Position) : Reference :=
  .ofFound (p.findValue? scope name) name scope place

/-! ### Scopes of a program -/

/-- A new, empty scope below the given one. -/
def newScope (kind : ScopeKind) (parent : ScopeId) : ProgramM ScopeId := fun p =>
  match p.scopes.nest kind parent with
  | (id, scopes) => .ok id { p with scopes }

/-- Give a name its meaning in a scope. -/
def declare (scope : ScopeId) (kind : DeclKind) (name : String) (decl : DeclId)
    (place : Position) : ProgramM Unit := fun p =>
  match p.scopes.declare scope kind name decl place with
  | .error e => .error e p
  | .ok scopes => .ok () { p with scopes }

/-- A new scope that holds all that the given one holds, and the variable. -/
def extend (scope : ScopeId) (name : String) (decl : DeclId) (place : Position) :
    ProgramM ScopeId := fun p =>
  match ScopeTree.extend scope name decl place p.scopes with
  | .error e scopes => .error e { p with scopes }
  | .ok id scopes => .ok id { p with scopes }

end Program

end FrontEnd
