/-
**Places on lines.**

A text is read line by line, and an error is shown on its line later, when the text is taken apart
into lines again.  Then the carriage returns at the end of the line are left out.  No lexeme starts
with one unless it is blank, so the places of tokens and of faulty lexemes are on the line as it is
shown, too.

Main definitions:

* `FrontEnd.PointsInto` — places inside of a line as it is shown.

Main results:

* `FrontEnd.pointsInto_of_mem` — tokens start at such places;
* `FrontEnd.pointsInto_of_tokenize_error` — so does a lexeme that cannot be read.
-/

import FrontEnd.Proofs.Lexing.Lossless

set_option relaxedAutoImplicit false
set_option autoImplicit false

namespace FrontEnd

variable {c : Char} {before after : List Char} {source : String} {place : Position}

/-! ### Lines as they are shown -/

/-- The place is inside of a line of the source text, as it is shown: a character of the line starts
there. -/
def PointsInto (source : String) (place : Position) : Prop :=
  ∃ before c after, Text.lineAt? source.toList place.line = some (before ++ c :: after) ∧
    place.column = byteLength before

/-- What is left out at the end of a text is behind every other character. -/
theorem Text.dropEndWhile_append_cons (p : Char → Bool) (before after : List Char)
    (hc : p c = false) :
    dropEndWhile p (before ++ c :: after) = before ++ c :: dropEndWhile p after := by
  have hbefore : (c :: before.reverse).dropWhile p = c :: before.reverse := by
    rw [List.dropWhile_cons, hc]
    rfl
  rw [dropEndWhile, List.reverse_append, List.reverse_cons, List.append_assoc,
    List.singleton_append, List.dropWhile_append, hbefore, dropEndWhile]
  split
  · next hnil => rw [List.isEmpty_iff.1 hnil, List.reverse_cons, List.reverse_reverse]; rfl
  · simp

/-- The place of a character that is not blank is on the line as it is shown. -/
theorem pointsInto_of_line
    (hline : (Text.lines source.toList)[place.line]? = some (before ++ c :: after))
    (hcolumn : place.column = byteLength before) (hc : ¬ Lexeme.isGap c) :
    PointsInto source place := by
  have hreturn : (c == '\r') = false := by
    simp only [Lexeme.isGap, Bool.or_eq_true, not_or] at hc
    exact Bool.eq_false_iff.2 hc.2
  have hshown : Text.lineAt? source.toList place.line =
      some (before ++ c :: Text.dropEndWhile (· == '\r') after) := by
    rw [Text.lineAt?, hline, Option.map_some,
      Text.dropEndWhile_append_cons (· == '\r') before after hreturn]
  exact ⟨before, c, _, hshown, hcolumn⟩

/-! ### Tokens and faults -/

/-- Blanks are read as such. -/
theorem Lexeme.exists_read_of_isGap (hc : isGap c) (rest : List Char) :
    ∃ text, read c rest = .ok ⟨text, none⟩ := by
  rw [read_eq, if_pos hc]
  exact ⟨_, rfl⟩

/-- **The tokens of a text start inside of its lines.** -/
theorem pointsInto_of_mem {tokens : List Token} {t : Token} (h : tokenize source = .ok tokens)
    (ht : t ∈ tokens) : PointsInto source t.position := by
  obtain ⟨before, text, after, hline, hcolumn, hwritten, hstops⟩ := exists_written_of_mem h ht
  obtain ⟨c, tail, rfl⟩ := List.exists_cons_of_ne_nil hwritten.text_ne_nil
  rw [List.append_assoc, List.cons_append] at hline
  refine pointsInto_of_line hline hcolumn fun hc => ?_
  have hread := Lexeme.read_of_written hwritten hstops (List.cons_append ..).symm
  obtain ⟨blanks, hblanks⟩ := Lexeme.exists_read_of_isGap hc (tail ++ after)
  rw [hread] at hblanks
  cases hblanks

/-- **A lexeme that cannot be read starts inside of a line.** -/
theorem pointsInto_of_tokenize_error {e : Error} (h : tokenize source = .error e) :
    ∃ place, e.position? = some place ∧ PointsInto source place := by
  obtain ⟨n, line, hline, herror⟩ := tokenizeFrom_error h
  rw [Nat.zero_add] at herror
  obtain ⟨xs, c, tail, cause, hlexed, hread, rfl⟩ := LineCursor.tokens_error_iff.1 herror
  refine ⟨_, rfl, pointsInto_of_line (hlexed.text_eq ▸ hline) (Nat.zero_add _) fun hc => ?_⟩
  obtain ⟨blanks, hblanks⟩ := Lexeme.exists_read_of_isGap hc tail
  rw [hread] at hblanks
  cases hblanks

end FrontEnd
