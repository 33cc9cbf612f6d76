/-
**Deferred references.**

While a file is read, a name may stand for something that is declared only later.  Such a reference
stays pending and its place is kept in a list, by the sort of node that holds it: variables behind
parameters and results, identifiers, and statements.  When the whole file is known the lists are
worked through, and the first name that still cannot be found is an error.

Main definitions:

* `FrontEnd.Deferred` — the places of the pending references;
* `FrontEnd.Program.resolve` — finding what they refer to.
-/

import FrontEnd.Program

set_option relaxedAutoImplicit false
set_option autoImplicit false

namespace FrontEnd

/-- The places of references that are to be resolved later. -/
structure Deferred where
  /-- Parameters and results whose type is pending. -/
  fields : List DeclId := []
  /-- Identifiers that are pending. -/
  identifiers : List ExprId := []
  /-- Declarations of a variable with a pending type, and changes of a pending variable. -/
  statements : List StmtId := []
  deriving DecidableEq, Repr

namespace Deferred

def isEmpty (d : Deferred) : Bool :=
  d.fields.isEmpty && d.identifiers.isEmpty && d.statements.isEmpty

/-- The lists with a further variable. -/
def addField (d : Deferred) (id : DeclId) : Deferred := { d with fields := d.fields ++ [id] }

def addIdentifier (d : Deferred) (id : ExprId) : Deferred :=
  { d with identifiers := d.identifiers ++ [id] }

def addStatement (d : Deferred) (id : StmtId) : Deferred :=
  { d with statements := d.statements ++ [id] }

end Deferred

namespace Program

/-- What a name is found to stand for; the cause says what was looked for in vain. -/
def found (found? : Option DeclId) (cause : Cause) (place : Position) : Except Error DeclId :=
  match found? with
  | some id => .ok id
  | none => .error (cause.at place)

def resolveType (id : DeclId) : ProgramM Unit := fun p =>
  match p.declaration? id with
  | some (.var v) =>
      match v.type with
      | .resolved _ => .ok () p
      | .pending name scope place =>
          match found (p.findType? scope name) (.typeNotFound name) place with
          | .error e => .error e p
          | .ok type => .ok () (p.setType id (.resolved type))
  | _ => .error (Cause.internal "deferred field is not a variable declaration").nowhere p

def resolveIdentifier (id : ExprId) : ProgramM Unit := fun p =>
  match (p.expression? id).bind Expression.reference? with
  | some (.pending name scope place) =>
      match found (p.findValue? scope name) (.valueNotFound name) place with
      | .error e => .error e p
      | .ok value => .ok () (p.modifyExpression id (·.withReference (.resolved value)))
  | _ => .ok () p

/-- Resolves the variable that a statement changes. -/
def resolveTarget (id : StmtId) (s : Statement) : ProgramM Unit := fun p =>
  match s.target? with
  | some (.pending name scope place) =>
      match found (p.findVariable? scope name) (.variableNotFound name) place with
      | .error e => .error e p
      | .ok value => .ok () (p.modifyStatement id (·.withTarget (.resolved value)))
  | _ => .ok () p

/-- Resolves the reference of a statement: the type of the variable that it declares, or the
variable that it changes. -/
def resolveStatement (id : StmtId) : ProgramM Unit := fun p =>
  match p.statement? id with
  | none => .ok () p
  | some s =>
      match s.form with
      | .declare decl => resolveType decl p
      | _ => resolveTarget id s p

/-- Resolves the deferred references: variables first, then identifiers, then statements. -/
def resolve (d : Deferred) : ProgramM Unit := do
  d.fields.forM resolveType
  d.identifiers.forM resolveIdentifier
  d.statements.forM resolveStatement

end Program

end FrontEnd
