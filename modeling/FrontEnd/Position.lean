/-
**Positions in a source text.**

A position is a pair of 0-based numbers: the line, and the column counted in bytes of the line's
UTF-8 encoding.  Users count from one, so the written form adds one to both.

Main definitions:

* `FrontEnd.Position` — a line and a byte column;
* `FrontEnd.Position.describe` — the written form, `line 3 column 9`;
* `FrontEnd.byteLength` — the number of bytes that encode a text.
-/

set_option relaxedAutoImplicit false
set_option autoImplicit false

namespace FrontEnd

/-- The number of bytes that encode a text. -/
def byteLength : List Char → Nat
  | [] => 0
  | c :: text => c.utf8Size + byteLength text

@[simp] theorem byteLength_nil : byteLength [] = 0 := rfl

@[simp] theorem byteLength_cons (c : Char) (text : List Char) :
    byteLength (c :: text) = c.utf8Size + byteLength text := rfl

@[simp] theorem byteLength_append (s t : List Char) :
    byteLength (s ++ t) = byteLength s + byteLength t := by
  induction s with
  | nil => simp
  | cons c s ih => simp [ih, Nat.add_assoc]

/-- A place in the source text: a 0-based line and a 0-based byte column. -/
structure Position where
  /-- The 0-based line. -/
  line : Nat
  /-- The 0-based column, in bytes. -/
  column : Nat
  deriving DecidableEq, Repr, Inhabited

namespace Position

def start : Position := ⟨0, 0⟩

/-- The line as a user counts it, from one. -/
def userLine (p : Position) : Nat := p.line + 1

def userColumn (p : Position) : Nat := p.column + 1

def describe (p : Position) : String := s!"line {p.userLine} column {p.userColumn}"

/-- The position behind `text`, when `text` starts at `p` and stays on the line. -/
def advance (p : Position) (text : List Char) : Position := ⟨p.line, p.column + byteLength text⟩

@[simp] theorem advance_line (p : Position) (text : List Char) :
    (p.advance text).line = p.line := rfl

@[simp] theorem advance_column (p : Position) (text : List Char) :
    (p.advance text).column = p.column + byteLength text := rfl

end Position

end FrontEnd
