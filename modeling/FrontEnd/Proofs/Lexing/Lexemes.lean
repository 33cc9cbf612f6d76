/-
**Lines as sequences of lexemes.**

A line is read lexeme by lexeme, and what is read of it is told by its characters alone: the lexemes
one behind the other, up to the end of the line or up to a place where none can be read.  Where a
token stands is then a matter of adding up the lengths of the lexemes before it.

Main definitions:

* `FrontEnd.Lexed` — a text that starts with the given lexemes;
* `FrontEnd.placed`, `FrontEnd.placedFrom` — the tokens of the lexemes of a line, and of some lines.

Main results:

* `FrontEnd.LineCursor.tokens_lexed` — behind lexemes that were read, reading goes on with the rest;
* `FrontEnd.exists_lexed` — the lexemes of a line, up to its end or up to a fault;
* `FrontEnd.LineCursor.tokens_ok_iff`, `FrontEnd.LineCursor.tokens_error_iff` — reading a line;
* `FrontEnd.tokenizeFrom_ok_iff`, `FrontEnd.tokenizeFrom_error` — reading some lines.
-/

import FrontEnd.Token.Lexer
import Mathlib.Data.List.Forall2

set_option relaxedAutoImplicit false
set_option autoImplicit false

namespace FrontEnd

variable {c : Char} {text more rest : List Char} {x : Lexeme} {xs : List Lexeme} {p : Position}
  {ts : List Token}

/-! ### Lexemes of a line -/

/-- The text starts with the given lexemes, each of them read where the one before ends, and goes on
with the given rest. -/
inductive Lexed : List Char → List Lexeme → List Char → Prop where
  | done (text : List Char) : Lexed text [] text
  | next {c : Char} {text more rest : List Char} {x : Lexeme} {xs : List Lexeme}
      (hread : Lexeme.read c text = .ok x) (htext : c :: text = x.text ++ more)
      (hmore : Lexed more xs rest) : Lexed (c :: text) (x :: xs) rest

/-- The pieces of a line that some lexemes are, one behind the other. -/
def textOf (xs : List Lexeme) : List Char := xs.flatMap Lexeme.text

@[simp] theorem textOf_nil : textOf [] = [] := rfl

@[simp] theorem textOf_cons (x : Lexeme) (xs : List Lexeme) :
    textOf (x :: xs) = x.text ++ textOf xs := rfl

@[simp] theorem textOf_append (xs ys : List Lexeme) :
    textOf (xs ++ ys) = textOf xs ++ textOf ys := List.flatMap_append

theorem Position.advance_advance (p : Position) (s t : List Char) :
    (p.advance s).advance t = p.advance (s ++ t) := by
  simp [Position.advance, Nat.add_assoc]

/-- Nothing of the text is lost. -/
theorem Lexed.text_eq (h : Lexed text xs rest) : text = textOf xs ++ rest := by
  induction h with
  | done text => rfl
  | next hread htext _ ih => rw [htext, ih, textOf_cons, List.append_assoc]

/-- Reading can be taken apart between lexemes. -/
theorem Lexed.split {ys : List Lexeme} (h : Lexed text (xs ++ ys) rest) :
    ∃ mid, Lexed text xs mid ∧ Lexed mid ys rest := by
  induction xs generalizing text with
  | nil => exact ⟨text, .done text, h⟩
  | cons x xs ih =>
      cases h with
      | next hread htext hmore =>
          obtain ⟨mid, hfirst, hsecond⟩ := ih hmore
          exact ⟨mid, .next hread htext hfirst, hsecond⟩

/-- No lexeme of a line is empty. -/
theorem Lexed.text_ne_nil (h : Lexed text xs rest) : ∀ x ∈ xs, x.text ≠ [] := by
  induction h with
  | done text => simp
  | next hread _ _ ih => exact List.forall_mem_cons.2 ⟨Lexeme.read_text_ne_nil hread, ih⟩

/-- **Every text starts with lexemes**, up to its end or up to a place where none can be read. -/
theorem exists_lexed (text : List Char) : ∃ xs rest, Lexed text xs rest ∧
    (rest = [] ∨ ∃ c tail cause, rest = c :: tail ∧ Lexeme.read c tail = .error cause) := by
  induction hn : text.length using Nat.strongRecOn generalizing text with
  | ind n ih =>
      cases text with
      | nil => exact ⟨[], [], .done [], .inl rfl⟩
      | cons c text =>
          cases hread : Lexeme.read c text with
          | error cause => exact ⟨[], c :: text, .done _, .inr ⟨c, text, cause, rfl, hread⟩⟩
          | ok x =>
              obtain ⟨more, hmore⟩ := Lexeme.read_isPrefixOf hread
              have hpos := List.length_pos_iff.2 (Lexeme.read_text_ne_nil hread)
              have hlength := congrArg List.length hmore
              rw [List.length_append] at hlength
              obtain ⟨xs, rest, hlexed, hrest⟩ := ih more.length (by omega) more rfl
              exact ⟨x :: xs, rest, .next hread hmore.symm hlexed, hrest⟩

/-! ### Tokens of a line -/

/-- The tokens of lexemes that stand one behind the other from a place on. -/
def placed : Position → List Lexeme → List Token
  | _, [] => []
  | p, x :: xs => (LineCursor.token? ⟨p, x.text⟩ x).toList ++ placed (p.advance x.text) xs

namespace LineCursor

theorem tokens_nil (p : Position) : tokens ⟨p, []⟩ = .ok [] := rfl

theorem tokens_of_read_error {cause : Cause} (h : Lexeme.read c text = .error cause)
    (p : Position) : tokens ⟨p, c :: text⟩ = .error (cause.at p) := by
  simp [tokens, tokensUpTo, h]

/-- Reading goes on behind the first lexeme. -/
theorem tokens_of_read_ok (hread : Lexeme.read c text = .ok x) (htext : c :: text = x.text ++ more)
    (p : Position) : tokens ⟨p, c :: text⟩ =
      (tokens ⟨p.advance x.text, more⟩).map ((token? ⟨p, x.text⟩ x).toList ++ ·) := by
  have hadvance : advance ⟨p, c :: text⟩ (byteLength x.text) = ⟨p.advance x.text, more⟩ := by
    rw [htext, advance_append]
  have hpos := List.length_pos_iff.2 (Lexeme.read_text_ne_nil hread)
  have hlength : (c :: text).length = x.text.length + more.length := by
    rw [htext, List.length_append]
  have hbound : (⟨p.advance x.text, more⟩ : LineCursor).rest.length ≤ text.length := by
    simp only [List.length_cons] at hlength ⊢
    omega
  rw [tokens, List.length_cons, tokensUpTo]
  simp only [hread]
  rw [hadvance, tokensUpTo_of_le hbound]
  cases tokens ⟨p.advance x.text, more⟩ <;> rfl

/-- **Behind lexemes that were read, reading goes on with the rest.** -/
theorem tokens_lexed (h : Lexed text xs rest) (p : Position) :
    tokens ⟨p, text⟩ = (tokens ⟨p.advance (textOf xs), rest⟩).map (placed p xs ++ ·) := by
  induction h generalizing p with
  | done text =>
      have hp : p.advance [] = p := rfl
      rw [textOf_nil, hp]
      cases tokens ⟨p, text⟩ <;> rfl
  | @next c text more rest x xs hread htext _ ih =>
      rw [tokens_of_read_ok hread htext, ih, Position.advance_advance, textOf_cons, placed]
      cases tokens ⟨p.advance (x.text ++ textOf xs), rest⟩ with
      | error e => rfl
      | ok ts => simp [Except.map]

/-- **A line is read if it consists of lexemes**, and then as their tokens. -/
theorem tokens_ok_iff : tokens ⟨p, text⟩ = .ok ts ↔ ∃ xs, Lexed text xs [] ∧ ts = placed p xs := by
  constructor
  · intro h
    obtain ⟨xs, rest, hlexed, hrest⟩ := exists_lexed text
    rw [tokens_lexed hlexed] at h
    rcases hrest with rfl | ⟨c, tail, cause, rfl, hread⟩
    · refine ⟨xs, hlexed, ?_⟩
      simpa [tokens_nil, Except.map, eq_comm] using h
    · rw [tokens_of_read_error hread] at h
      cases h
  · rintro ⟨xs, hlexed, rfl⟩
    rw [tokens_lexed hlexed, tokens_nil]
    simp [Except.map]

/-- **A line is refused if a lexeme cannot be read**, and then at the place of the first one. -/
theorem tokens_error_iff {e : Error} : tokens ⟨p, text⟩ = .error e ↔
    ∃ xs c tail cause, Lexed text xs (c :: tail) ∧ Lexeme.read c tail = .error cause ∧
      e = cause.at (p.advance (textOf xs)) := by
  constructor
  · intro h
    obtain ⟨xs, rest, hlexed, hrest⟩ := exists_lexed text
    rw [tokens_lexed hlexed] at h
    rcases hrest with rfl | ⟨c, tail, cause, rfl, hread⟩
    · rw [tokens_nil] at h
      cases h
    · rw [tokens_of_read_error hread] at h
      cases h
      exact ⟨xs, c, tail, cause, hlexed, hread, rfl⟩
  · rintro ⟨xs, c, tail, cause, hlexed, hread, rfl⟩
    rw [tokens_lexed hlexed, tokens_of_read_error hread]
    rfl

end LineCursor

/-! ### Tokens of some lines -/

/-- The tokens of the lexemes of some lines, from the line of the given number on. -/
def placedFrom : Nat → List (List Lexeme) → List Token
  | _, [] => []
  | first, xs :: others => placed ⟨first, 0⟩ xs ++ placedFrom (first + 1) others

/-- Every line consists of its lexemes. -/
abbrev LinesLexed (lines : List (List Char)) (xss : List (List Lexeme)) : Prop :=
  List.Forall₂ (fun line xs => Lexed line xs []) lines xss

theorem LinesLexed.lexed {lines : List (List Char)} {xss : List (List Lexeme)} {n : Nat}
    {line : List Char} (h : LinesLexed lines xss) (hline : lines[n]? = some line)
    (hxs : xss[n]? = some xs) : Lexed line xs [] := by
  obtain ⟨hn, rfl⟩ := List.getElem?_eq_some_iff.1 hline
  obtain ⟨hn', rfl⟩ := List.getElem?_eq_some_iff.1 hxs
  exact List.Forall₂.get h hn hn'

/-- **Some lines are read if each of them consists of lexemes**, and then as their tokens. -/
theorem tokenizeFrom_ok_iff {first : Nat} {lines : List (List Char)} :
    tokenizeFrom first lines = .ok ts ↔
      ∃ xss, LinesLexed lines xss ∧ ts = placedFrom first xss := by
  induction lines generalizing first ts with
  | nil =>
      simp only [tokenizeFrom, List.forall₂_nil_left_iff, exists_eq_left, placedFrom,
        Except.ok.injEq, eq_comm]
  | cons line others ih =>
      rw [tokenizeFrom, LineCursor.ofLine]
      constructor
      · intro h
        split at h
        · cases h
        · next here hhere =>
            obtain ⟨xs, hxs, rfl⟩ := LineCursor.tokens_ok_iff.1 hhere
            split at h
            · cases h
            · next later hlater =>
                obtain ⟨xss, hxss, rfl⟩ := ih.1 hlater
                cases h
                exact ⟨xs :: xss, .cons hxs hxss, rfl⟩
      · rintro ⟨_, hlexed, rfl⟩
        obtain ⟨xs, xss, hxs, hxss, rfl⟩ := List.forall₂_cons_left_iff.1 hlexed
        rw [LineCursor.tokens_ok_iff.2 ⟨xs, hxs, rfl⟩]
        simp only
        rw [ih.2 ⟨xss, hxss, rfl⟩]
        rfl

/-- **Some lines are refused because of a line of theirs**: the first of the lexemes of this line
that cannot be read. -/
theorem tokenizeFrom_error {first : Nat} {lines : List (List Char)} {e : Error}
    (h : tokenizeFrom first lines = .error e) :
    ∃ n line, lines[n]? = some line ∧
      (LineCursor.ofLine (first + n) line).tokens = .error e := by
  induction lines generalizing first with
  | nil => cases h
  | cons line others ih =>
      rw [tokenizeFrom] at h
      split at h
      · next e' he =>
          cases h
          exact ⟨0, line, rfl, he⟩
      · split at h
        · next e' he =>
            cases h
            obtain ⟨n, other, hn, herror⟩ := ih he
            refine ⟨n + 1, other, hn, ?_⟩
            rwa [Nat.add_right_comm, Nat.add_assoc] at herror
        · cases h

end FrontEnd
