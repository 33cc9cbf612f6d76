/-
**Reading signatures.**

A signature lists the parameters of a function with their types, then the types of its results:
none, a single one, or several in parentheses.  A type is written as its name.

Main definitions:

* `FrontEnd.Parser.typeName` — the name of a type;
* `FrontEnd.Parser.parameters`, `FrontEnd.Parser.results` — the two lists of a signature.
-/

import FrontEnd.Parser.Basic

set_option relaxedAutoImplicit false
set_option autoImplicit false

namespace FrontEnd.Parser

/-- Reads the name of a type, and says where it stands. -/
def typeName (scope : ScopeId) : ParseM (Reference × Position) := do
  let (t, name) ← expectName
  pure ((← get).program.typeReference scope name t.position, t.position)

/-- Adds the variable behind a parameter or a result. -/
def addField (name? : Option String) (type : Reference) (place : Position) : ParseM Field := do
  let decl ← addDeclaration (.var { name?, position := place, type })
  deferIf type (·.addField decl)
  pure { name?, decl }

/-- Reads a parameter and declares it in the scope. -/
def parameter (scope : ScopeId) : ParseM Field := do
  let (t, name) ← expectName
  let (type, _) ← typeName scope
  let field ← addField (some name) type t.position
  onProgram (Program.declare scope .var name field.decl t.position)
  pure field

def parameters (scope : ScopeId) : ParseM (List Field) := do
  discard (expect .leftParenthesis)
  let fields ← separated .rightParenthesis (parameter scope)
  discard (expect .rightParenthesis)
  pure fields

def resultField (scope : ScopeId) : ParseM Field := do
  let (type, place) ← typeName scope
  addField none type place

def results (scope : ScopeId) : ParseM (List Field) := do
  match (← get).kind? with
  | some .identifier => do
      let field ← resultField scope
      pure [field]
  | some .leftParenthesis => do
      discard advance
      let fields ← separated .rightParenthesis (resultField scope)
      discard (expect .rightParenthesis)
      pure fields
  | _ => pure []

end FrontEnd.Parser
