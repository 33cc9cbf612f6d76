/-
**Reading tokens.**

A parser holds the tokens that are left, the program that has been built so far, and the places of
the references that are still pending.  A parser that fails keeps what it has read and built.

Main definitions:

* `FrontEnd.Parser`, `FrontEnd.ParseM` — the state of reading, and computations on it;
* `FrontEnd.Parser.unexpected` — the error that the next token is not what the grammar asks for;
* `FrontEnd.Parser.advance`, `FrontEnd.Parser.expect`, `FrontEnd.Parser.expectOneOf` — taking the
  next token;
* `FrontEnd.Parser.separated` — items with commas between them, up to a closing token.
-/

import FrontEnd.Deferred
import FrontEnd.Grammar

set_option relaxedAutoImplicit false
set_option autoImplicit false

namespace FrontEnd

/-- The state of reading tokens. -/
structure Parser where
  /-- The tokens that are left. -/
  rest : List Token
  /-- The last of all tokens, read or not. -/
  last? : Option Token
  /-- The program built so far. -/
  program : Program := .initial
  /-- The places of the pending references. -/
  deferred : Deferred := {}
  deriving DecidableEq, Repr

/-- Computations that read tokens and may fail; a failure keeps what was read and built. -/
abbrev ParseM := EStateM Error Parser

namespace Parser

/-- The parser in front of some tokens. -/
def ofTokens (tokens : List Token) : Parser := { rest := tokens, last? := tokens.getLast? }

/-! ### Looking ahead -/

def current? (s : Parser) : Option Token := s.rest.head?

/-- The kind of the token that follows the given number of tokens. -/
def peek? (s : Parser) (offset : Nat) : Option TokenKind := s.rest[offset]?.map Token.kind

def kind? (s : Parser) : Option TokenKind := s.current?.map Token.kind

/-- What follows a look at the state is given that state. -/
theorem get_bind_apply {α : Type} (f : Parser → ParseM α) (s : Parser) :
    (MonadState.get >>= f) s = f s s := rfl

def hasTokens (s : Parser) : Bool := !s.rest.isEmpty

/-- The place of the next token, or of the last one when none is left. -/
def position (s : Parser) : Position :=
  match s.current?.or s.last? with
  | some t => t.position
  | none => .start

/-- The error that the grammar asks for something else here. -/
def unexpected (s : Parser) (expected : String) : Error :=
  match s.current? with
  | some t => (Cause.unexpectedToken t.describe expected).at t.position
  | none => { cause := .unexpectedEnd expected, position? := s.last?.map Token.position }

/-- Fails because the grammar asks for something else here. -/
def refuse {α : Type} (expected : String) : ParseM α := fun s => .error (s.unexpected expected) s

/-! ### Taking tokens -/

def advance : ParseM Token := fun s =>
  match s.rest with
  | [] => .error (s.unexpected "<token>") s
  | t :: rest => .ok t { s with rest }

/-- The kinds as a message lists them. -/
def alternatives (kinds : List TokenKind) : String :=
  ", ".intercalate (kinds.map fun kind => s!"'{kind.spelling}'")

/-- Takes the next token, which has to be of one of the kinds. -/
def expectOneOf (kinds : List TokenKind) : ParseM Token := fun s =>
  match s.rest with
  | t :: rest =>
      if t.isOneOf kinds then .ok t { s with rest }
      else .error (s.unexpected (alternatives kinds)) s
  | [] => .error (s.unexpected (alternatives kinds)) s

def expect (kind : TokenKind) : ParseM Token := expectOneOf [kind]

/-- Takes an identifier: the token and its name. -/
def expectName : ParseM (Token × String) := do
  let t ← expect .identifier
  let name ← ofExcept t.identifier
  pure (t, name)

/-- Takes the comma before an item, unless it is the first one. -/
def comma (isFirst : Bool) : ParseM Unit :=
  if isFirst then pure () else discard (expect .comma)

/-- Items with commas between them, up to the closing token, which is left; at most `n` of them.
`isFirst` tells that no comma stands before the first item. -/
def separatedUpTo {α : Type} (close : TokenKind) (item : ParseM α) : Nat → Bool → ParseM (List α)
  | 0, _ => pure []
  | n + 1, isFirst => do
      if (← get).kind? = some close then pure []
      else
        comma isFirst
        let x ← item
        let others ← separatedUpTo close item n false
        pure (x :: others)

/-- Items with commas between them, up to the closing token, which is left.  Every item takes a
token, so there are no more items than tokens. -/
def separatedFrom {α : Type} (close : TokenKind) (item : ParseM α) (isFirst : Bool) :
    ParseM (List α) := fun s =>
  separatedUpTo close item (s.rest.length + 1) isFirst s

/-- Items with commas between them, up to the closing token, which is left. -/
def separated {α : Type} (close : TokenKind) (item : ParseM α) : ParseM (List α) :=
  separatedFrom close item true

/-! ### Building the program -/

/-- A computation on the program that is being built. -/
def onProgram {α : Type} (action : ProgramM α) : ParseM α := fun s =>
  match action s.program with
  | .ok a program => .ok a { s with program }
  | .error e program => .error e { s with program }

def addDeclaration (d : Declaration) : ParseM DeclId := fun s =>
  .ok s.program.nextDecl { s with program := s.program.addDeclaration d }

def addExpression (e : Expression) : ParseM ExprId := fun s =>
  .ok s.program.nextExpr { s with program := s.program.addExpression e }

def addStatement (form : StmtForm) (place : Position) : ParseM StmtId := fun s =>
  .ok s.program.nextStmt { s with program := s.program.addStatement ⟨form, place⟩ }

/-- Changes the places of the pending references if the reference is pending. -/
def deferIf (ref : Reference) (change : Deferred → Deferred) : ParseM Unit := fun s =>
  .ok () (if ref.isPending then { s with deferred := change s.deferred } else s)

/-- Names the context in which a computation fails. -/
def within {α : Type} (context : String) (action : ParseM α) : ParseM α := fun s =>
  match action s with
  | .ok a s => .ok a s
  | .error e s => .error (e.within context) s

end Parser

end FrontEnd
