/-
**The front end.**

Source text becomes tokens, tokens become a program, and the program is checked.  The first error
ends the work.

Main definitions:

* `FrontEnd.compile` — the checked program of a source text, and the function that it starts in.
-/

import FrontEnd.Check
import FrontEnd.Parser.File
import FrontEnd.Token.Lexer

set_option relaxedAutoImplicit false
set_option autoImplicit false

namespace FrontEnd

/-- A program that has passed all checks, and the function that it starts in. -/
structure CheckedProgram where
  /-- The program. -/
  program : Program
  /-- The function that it starts in. -/
  entryPoint : DeclId
  deriving DecidableEq, Repr

/-- The checked program of a source text. -/
def compile (source : String) : Except Error CheckedProgram :=
  match tokenize source with
  | .error e => .error e
  | .ok tokens =>
      match parse tokens with
      | .error e => .error e
      | .ok program =>
          match Program.analyze program with
          | .ok entryPoint program => .ok { program, entryPoint }
          | .error e _ => .error e

end FrontEnd
