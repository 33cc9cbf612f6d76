/-
**Lines of a text.**

A line ends at a line feed, or at a carriage return followed by a line feed; the terminator is no
part of the line.  The last line may lack a terminator, and a terminator at the very end opens no
further line, so the empty text has no lines.

Main definitions:

* `FrontEnd.Text.lines` — the lines of a text;
* `FrontEnd.Text.lineAt?` — one line by its number, without any carriage return at its end.
-/

set_option relaxedAutoImplicit false
set_option autoImplicit false

namespace FrontEnd.Text

/-- The lines of a text, without their terminators. -/
def lines : List Char → List (List Char)
  | [] => []
  | '\n' :: rest => [] :: lines rest
  | '\r' :: '\n' :: rest => [] :: lines rest
  | c :: rest =>
      match lines rest with
      | [] => [[c]]
      | line :: others => (c :: line) :: others

@[simp] theorem lines_nil : lines [] = [] := rfl

@[simp] theorem lines_newline (rest : List Char) : lines ('\n' :: rest) = [] :: lines rest := by
  rw [lines]

/-- The text without the run of characters at its end that satisfy `p`. -/
def dropEndWhile (p : Char → Bool) (text : List Char) : List Char :=
  (text.reverse.dropWhile p).reverse

/-- The line with the given 0-based number, without the carriage returns at its end. -/
def lineAt? (text : List Char) (line : Nat) : Option (List Char) :=
  (lines text)[line]?.map (dropEndWhile (· == '\r'))

end FrontEnd.Text
