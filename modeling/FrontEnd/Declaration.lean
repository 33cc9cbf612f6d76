/-
**Declarations and references.**

A declaration introduces a variable, a type or a function.  Parameters and the results of a
function are variables too; results have no name.  A reference leads from the program to a
declaration, or, while the declaration is not known, keeps the name and the scope to search it in.

Main definitions:

* `FrontEnd.Reference` — a declaration, or a name that is still to be found;
* `FrontEnd.Variable`, `FrontEnd.NamedType`, `FrontEnd.Function`, `FrontEnd.Declaration` — what can
  be declared.
-/

import FrontEnd.Scope

set_option relaxedAutoImplicit false
set_option autoImplicit false

namespace FrontEnd

/-! ### References -/

/-- The way from a use to a declaration. -/
inductive Reference where
  /-- The declaration is known. -/
  | resolved (id : DeclId)
  /-- The name is still to be searched for, in the scope in which it was written. -/
  | pending (name : String) (scope : ScopeId) (position : Position)
  deriving DecidableEq, Repr

namespace Reference

def isPending : Reference → Bool
  | resolved _ => false
  | pending _ _ _ => true

def target? : Reference → Option DeclId
  | resolved id => some id
  | pending _ _ _ => none

/-- The declaration, which has to be known. -/
def target : Reference → Except Error DeclId
  | resolved id => .ok id
  | pending name _ p => .error ((Cause.internal s!"reference to '{name}' was never resolved").at p)

/-- The reference to what was found for a name, or else to the name itself. -/
def ofFound (found? : Option DeclId) (name : String) (scope : ScopeId) (p : Position) :
    Reference :=
  match found? with
  | some id => resolved id
  | none => pending name scope p

@[simp] theorem isPending_resolved (id : DeclId) : (resolved id).isPending = false := rfl

@[simp] theorem isPending_pending (name : String) (scope : ScopeId) (p : Position) :
    (pending name scope p).isPending = true := rfl

@[simp] theorem ofFound_some (id : DeclId) (name : String) (scope : ScopeId) (p : Position) :
    ofFound (some id) name scope p = resolved id := rfl

@[simp] theorem ofFound_none (name : String) (scope : ScopeId) (p : Position) :
    ofFound none name scope p = pending name scope p := rfl

/-- A reference has a known declaration exactly if it is not pending. -/
theorem target_eq_ok_iff {ref : Reference} {id : DeclId} :
    ref.target = .ok id ↔ ref = resolved id := by
  cases ref with
  | resolved other =>
      constructor
      · intro h
        exact congrArg resolved (Except.ok.inj h)
      · intro h
        exact congrArg Except.ok (Reference.resolved.inj h)
  | pending name scope p =>
      constructor
      · intro h
        cases h
      · intro h
        cases h

end Reference

/-! ### Declarations -/

/-- A variable, a parameter or a result; results have no name. -/
structure Variable where
  /-- The name, if the variable has one. -/
  name? : Option String
  /-- Where it is declared. -/
  position : Position
  /-- Its type. -/
  type : Reference
  deriving DecidableEq, Repr

/-- A name for a built-in type. -/
structure NamedType where
  /-- The name. -/
  name : String
  /-- Where it is declared; nowhere, for the built-in names. -/
  position? : Option Position
  /-- What it stands for. -/
  basic : BasicType
  deriving DecidableEq, Repr

/-- A parameter or a result of a function. -/
structure Field where
  /-- The name, if the field has one. -/
  name? : Option String
  /-- The variable behind the field. -/
  decl : DeclId
  deriving DecidableEq, Repr

/-- A function. -/
structure Function where
  /-- The name. -/
  name : String
  /-- Where it is declared. -/
  position : Position
  /-- What it takes. -/
  parameters : List Field
  /-- What it returns. -/
  results : List Field
  /-- The statements of its body. -/
  body : List StmtId
  /-- The scope of its parameters, in which the body starts. -/
  scope : ScopeId
  deriving DecidableEq, Repr

/-- What the symbols of functions start with, so that they meet no symbol of the host. -/
def Function.symbolStart : String := "__basalt_"

/-- The symbol that stands for the function outside of the program. -/
def Function.symbol (f : Function) : String := symbolStart ++ f.name

/-- What can be declared. -/
inductive Declaration where
  | var (v : Variable)
  | type (t : NamedType)
  | func (f : Function)
  deriving DecidableEq, Repr

namespace Declaration

def kind : Declaration → DeclKind
  | var _ => .var
  | type _ => .type
  | func _ => .func

/-- Where a declaration stands; built-in types stand nowhere. -/
def position? : Declaration → Option Position
  | var v => some v.position
  | type t => t.position?
  | func f => some f.position

end Declaration

end FrontEnd
