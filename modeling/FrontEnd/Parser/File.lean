/-
**Reading files.**

A file is a sequence of functions.  A function is declared before its body is read, so that it can
call itself; functions that are declared further down are found when the whole file is read.

Main definitions:

* `FrontEnd.Parser.function` — a function;
* `FrontEnd.Parser.file` — the functions of a file;
* `FrontEnd.parseFile` — the program of some tokens, with the places of its pending references;
* `FrontEnd.parse` — the program of some tokens with all references resolved.
-/

import FrontEnd.Parser.Statement

set_option relaxedAutoImplicit false
set_option autoImplicit false

namespace FrontEnd

namespace Parser

variable (g : Grammar)

/-- Reads a function behind its first word, and declares it in the scope. -/
def functionRest (scope : ScopeId) : ParseM DeclId := do
  let (t, name) ← expectName
  let inner ← onProgram (Program.newScope .function scope)
  let parameters ← parameters inner
  let results ← results inner
  let decl ← addDeclaration
    (.func { name, position := t.position, parameters, results, body := [], scope := inner })
  onProgram (Program.declare scope .func name decl t.position)
  let body ← braced (statements g) inner
  modify fun s => { s with program := s.program.setBody decl body }
  pure decl

def function (scope : ScopeId) : ParseM DeclId := do
  let first ← expect .funcWord
  within s!"could not parse function declaration at {first.position.describe}"
    (functionRest g scope)

/-- Reads at most `n` functions, up to the end of the tokens. -/
def functionsUpTo : Nat → ParseM Unit
  | 0 => pure ()
  | n + 1 => do
      match (← get).kind? with
      | none => pure ()
      | some kind =>
          if kind = .funcWord then
            let decl ← function g .file
            modify fun s => { s with program := s.program.addTopLevel decl }
            functionsUpTo n
          else refuse "'func'"

/-- Reads the functions of a file.  Every function takes a token. -/
def file : ParseM Unit := fun s => functionsUpTo g s.rest.length s

end Parser

/-- The program of some tokens, and the places of the references that are pending in it. -/
def parseFile (tokens : List Token) : Except Error (Program × Deferred) :=
  match Parser.file .standard (.ofTokens tokens) with
  | .ok _ s => .ok (s.program, s.deferred)
  | .error e _ => .error e

/-- The program of some tokens with all references resolved. -/
def parse (tokens : List Token) : Except Error Program :=
  match parseFile tokens with
  | .error e => .error e
  | .ok (program, deferred) =>
      match Program.resolve deferred program with
      | .ok _ program => .ok program
      | .error e _ => .error e

end FrontEnd
