/-
**Numbers of nodes.**

The nodes of a program and its scopes are numbered in the order in which they are created, each
sort on its own, from zero.  A number is how one node refers to another.

Main definitions:

* `FrontEnd.DeclId`, `FrontEnd.ExprId`, `FrontEnd.StmtId`, `FrontEnd.ScopeId` — the numbers of
  declarations, expressions, statements and scopes.
-/

set_option relaxedAutoImplicit false
set_option autoImplicit false

namespace FrontEnd

/-- The number of a declaration. -/
structure DeclId where
  /-- Its place in the order of creation. -/
  index : Nat
  deriving DecidableEq, Repr

structure ExprId where
  /-- Its place in the order of creation. -/
  index : Nat
  deriving DecidableEq, Repr

structure StmtId where
  /-- Its place in the order of creation. -/
  index : Nat
  deriving DecidableEq, Repr

structure ScopeId where
  /-- Its place in the order of creation. -/
  index : Nat
  deriving DecidableEq, Repr

/-- The scope of the built-in types, which encloses every other one. -/
def ScopeId.builtIn : ScopeId := ⟨0⟩

/-- The scope of the file. -/
def ScopeId.file : ScopeId := ⟨1⟩

end FrontEnd
