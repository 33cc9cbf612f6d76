/-
**The built-in types.**

There are four types, and a program can name no others.  Their declarations are the first ones of
every program, so each has a fixed number.

Main definitions:

* `FrontEnd.BasicType`, `FrontEnd.BasicType.name` — the types and their names;
* `FrontEnd.BasicType.declaration` — the number of a type's declaration.
-/

import FrontEnd.Id

set_option relaxedAutoImplicit false
set_option autoImplicit false

namespace FrontEnd

/-- The built-in types. -/
inductive BasicType where
  | int
  | byte
  | string
  | bool
  deriving DecidableEq, Repr

namespace BasicType

/-- The built-in types in the order of their declarations. -/
def all : List BasicType := [int, byte, string, bool]

def name : BasicType → String
  | int => "Int"
  | byte => "Byte"
  | string => "String"
  | bool => "Bool"

/-- The number of a type's declaration. -/
def declaration : BasicType → DeclId
  | int => ⟨0⟩
  | byte => ⟨1⟩
  | string => ⟨2⟩
  | bool => ⟨3⟩

end BasicType

end FrontEnd
