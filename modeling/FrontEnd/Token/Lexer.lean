/-
**Tokens of a text.**

A line is read from left to right, lexeme by lexeme; a cursor holds the place on the line and what
is left of it.  A token never spans two lines, and line ends carry no meaning.  The first lexeme
that cannot be read ends the reading with its fault, placed where the lexeme starts.

Main definitions:

* `FrontEnd.LineCursor` — a place on a line, and the rest of the line from there;
* `FrontEnd.LineCursor.tokens` — the tokens of the rest of a line;
* `FrontEnd.tokenizeLines`, `FrontEnd.tokenize` — the tokens of some lines and of a text.

Main results:

* `FrontEnd.LineCursor.advance_append` — behind a piece of its line a cursor stands at the rest;
* `FrontEnd.LineCursor.tokensUpTo_of_le` — the bound on the number of lexemes makes no difference.
-/

import FrontEnd.Text.Lines
import FrontEnd.Token.Lexeme

set_option relaxedAutoImplicit false
set_option autoImplicit false

namespace FrontEnd

/-! ### A place on a line -/

/-- A place on a line, and the rest of the line from there on. -/
structure LineCursor where
  /-- The place. -/
  position : Position
  /-- The rest of the line. -/
  rest : List Char
  deriving DecidableEq, Repr

namespace LineCursor

/-- The beginning of a line. -/
def ofLine (number : Nat) (text : List Char) : LineCursor := ⟨⟨number, 0⟩, text⟩

def atEnd (cursor : LineCursor) : Bool := cursor.rest.isEmpty

/-- The text without its first characters, as many as the number of bytes covers. -/
def dropBytes : Nat → List Char → List Char
  | _, [] => []
  | n, c :: text => if n = 0 then c :: text else dropBytes (n - c.utf8Size) text

/-- The cursor moved on by a number of bytes. -/
def advance (cursor : LineCursor) (bytes : Nat) : LineCursor where
  position := ⟨cursor.position.line, cursor.position.column + bytes⟩
  rest := dropBytes bytes cursor.rest

theorem dropBytes_append (text rest : List Char) :
    dropBytes (byteLength text) (text ++ rest) = rest := by
  induction text with
  | nil => cases rest <;> rfl
  | cons c text ih =>
      have hc : 0 < c.utf8Size := c.utf8Size_pos
      have hne : byteLength (c :: text) ≠ 0 := by rw [byteLength_cons]; omega
      rw [List.cons_append, dropBytes, if_neg hne, byteLength_cons, Nat.add_sub_cancel_left, ih]

/-- Behind a piece of its line a cursor stands at the rest of it. -/
theorem advance_append (p : Position) (text rest : List Char) :
    (⟨p, text ++ rest⟩ : LineCursor).advance (byteLength text) = ⟨p.advance text, rest⟩ := by
  simp [advance, dropBytes_append, Position.advance]

/-! ### The tokens of a line -/

/-- The token of a lexeme that starts at the cursor, if it is one. -/
def token? (cursor : LineCursor) (lexeme : Lexeme) : Option Token :=
  lexeme.content?.map fun (kind, payload) => ⟨kind, payload, cursor.position⟩

/-- The tokens of at most `n` lexemes from the cursor on. -/
def tokensUpTo : Nat → LineCursor → Except Error (List Token)
  | 0, _ => .ok []
  | n + 1, cursor =>
      match cursor.rest with
      | [] => .ok []
      | c :: rest =>
          match Lexeme.read c rest with
          | .error cause => .error (cause.at cursor.position)
          | .ok lexeme =>
              match tokensUpTo n (cursor.advance (byteLength lexeme.text)) with
              | .error e => .error e
              | .ok tokens => .ok ((cursor.token? lexeme).toList ++ tokens)

/-- The tokens of the rest of the line.  There are at most as many lexemes as characters. -/
def tokens (cursor : LineCursor) : Except Error (List Token) :=
  tokensUpTo cursor.rest.length cursor

/-- A lexeme that is read shortens the rest of the line. -/
theorem length_rest_advance_lt {cursor : LineCursor} {c : Char} {rest : List Char}
    {lexeme : Lexeme} (hrest : cursor.rest = c :: rest) (hread : Lexeme.read c rest = .ok lexeme) :
    (cursor.advance (byteLength lexeme.text)).rest.length < cursor.rest.length := by
  obtain ⟨tail, htail⟩ := Lexeme.read_isPrefixOf hread
  have hpos : 0 < lexeme.text.length :=
    List.length_pos_iff.2 (Lexeme.read_text_ne_nil hread)
  simp only [advance]
  rw [hrest, ← htail, dropBytes_append, List.length_append]
  omega

/-- A bound that covers the rest of the line makes no difference. -/
theorem tokensUpTo_of_le {n : Nat} {cursor : LineCursor} (h : cursor.rest.length ≤ n) :
    tokensUpTo n cursor = cursor.tokens := by
  suffices ∀ m n (cursor : LineCursor), cursor.rest.length ≤ m → cursor.rest.length ≤ n →
      tokensUpTo m cursor = tokensUpTo n cursor from this _ _ _ h (Nat.le_refl _)
  intro m
  induction m with
  | zero =>
      intro n cursor hm _
      have hnil : cursor.rest = [] := List.length_eq_zero_iff.1 (Nat.le_zero.1 hm)
      cases n with
      | zero => rfl
      | succ n => simp [tokensUpTo, hnil]
  | succ m ih =>
      intro n cursor hm hn
      cases n with
      | zero =>
          have hnil : cursor.rest = [] := List.length_eq_zero_iff.1 (Nat.le_zero.1 hn)
          simp [tokensUpTo, hnil]
      | succ n =>
          cases hrest : cursor.rest with
          | nil => simp [tokensUpTo, hrest]
          | cons c rest =>
              cases hread : Lexeme.read c rest with
              | error cause => simp [tokensUpTo, hrest, hread]
              | ok lexeme =>
                  have hlt := length_rest_advance_lt hrest hread
                  simp only [tokensUpTo, hrest, hread]
                  rw [ih n _ (by omega) (by omega)]

end LineCursor

/-! ### The tokens of a text -/

/-- The tokens of the lines from number `first` on. -/
def tokenizeFrom : Nat → List (List Char) → Except Error (List Token)
  | _, [] => .ok []
  | first, line :: others =>
      match (LineCursor.ofLine first line).tokens with
      | .error e => .error e
      | .ok here =>
          match tokenizeFrom (first + 1) others with
          | .error e => .error e
          | .ok later => .ok (here ++ later)

/-- The tokens of the given lines. -/
def tokenizeLines (lines : List String) : Except Error (List Token) :=
  tokenizeFrom 0 (lines.map String.toList)

/-- The tokens of a text. -/
def tokenize (source : String) : Except Error (List Token) :=
  tokenizeFrom 0 (Text.lines source.toList)

end FrontEnd
