/-
**Tokens that come from text.**

Nothing in the data ties the payload of a token to its kind, but the tokens of a text always carry
the payload of their kind: identifiers a name, literals a value.  A text that has no tokens has none
because of a fault in one of its lexemes.  The defects that reading a lexeme provides for, a pattern
without a match and a reserved word without a kind, are never met, since what is asked for a second
time is there.

Main definitions:

* `FrontEnd.Token.Fits` — tokens with the payload of their kind.

Main results:

* `FrontEnd.Token.identifier_error` and the like — a payload that fits is read without an error;
* `FrontEnd.tokenize_fits` — the tokens of a text fit;
* `FrontEnd.tokenize_error` — the errors of reading a text are lexical.
-/

import FrontEnd.Token.Lexer

set_option relaxedAutoImplicit false
set_option autoImplicit false

namespace FrontEnd

/-! ### Payloads that fit -/

/-- The payload is one of the kind. -/
def TokenKind.Carries : TokenKind → Payload → Prop
  | .identifier, payload => ∃ text, payload = .name text
  | .integer, payload => ∃ value, payload = .integer value
  | .character, payload => ∃ byte, payload = .character byte
  | .string, payload => ∃ text, payload = .string text
  | _, _ => True

namespace Token

variable {t : Token} {e : Error}

/-- The token has the payload of its kind. -/
def Fits (t : Token) : Prop := t.kind.Carries t.payload

/-- An identifier that fits has a name. -/
theorem identifier_error (h : t.identifier = .error e) (hkind : t.kind = .identifier) :
    ¬ t.Fits := by
  obtain ⟨kind, payload, place⟩ := t
  subst hkind
  rintro ⟨text, rfl⟩
  cases h

/-- An integer literal that fits has a value. -/
theorem integer_error (h : t.integer = .error e) (hkind : t.kind = .integer) : ¬ t.Fits := by
  obtain ⟨kind, payload, place⟩ := t
  subst hkind
  rintro ⟨value, rfl⟩
  cases h

/-- A character literal that fits has a value. -/
theorem character_error (h : t.character = .error e) (hkind : t.kind = .character) :
    ¬ t.Fits := by
  obtain ⟨kind, payload, place⟩ := t
  subst hkind
  rintro ⟨byte, rfl⟩
  cases h

/-- A string literal that fits has a value. -/
theorem string_error (h : t.string = .error e) (hkind : t.kind = .string) : ¬ t.Fits := by
  obtain ⟨kind, payload, place⟩ := t
  subst hkind
  rintro ⟨text, rfl⟩
  cases h

end Token

/-! ### Lexemes -/

namespace Lexeme

variable {c : Char} {text rest : List Char} {lexeme : Lexeme} {kind : TokenKind}
  {payload : Payload} {cause : Cause}

theorem carries_of_symbol? (h : symbol? text = some kind) : kind.Carries payload := by
  unfold symbol? at h
  split at h <;> cases h <;> trivial

theorem carries_of_ofWord? {word : String} (h : TokenKind.ofWord? word = some kind) :
    kind.Carries payload := by
  have hmem := List.mem_of_find?_eq_some h
  simp only [TokenKind.words, List.mem_cons, List.not_mem_nil, or_false] at hmem
  rcases hmem with rfl | rfl | rfl | rfl | rfl | rfl | rfl | rfl | rfl | rfl | rfl <;> trivial

/-- The outcome of reading a lexeme is as it should be: what makes a token fits, and what is wrong
is lexical. -/
def Sound (outcome : Except Cause Lexeme) : Prop :=
  match outcome with
  | .ok lexeme => ∀ content ∈ lexeme.content?, content.1.Carries content.2
  | .error cause => cause.stage = .lexing

theorem sound_ofDigits (digits : List Char) : Sound (ofDigits digits) := by
  simp only [ofDigits]
  split
  · rintro content ⟨⟩
    exact ⟨_, rfl⟩
  · rfl

theorem sound_character (text : List Char) : Sound (character text) := by
  unfold character
  repeat' split
  · rfl
  · rfl
  · rfl
  · rfl
  · rintro content ⟨⟩
    exact ⟨_, rfl⟩
  · rfl

theorem sound_string (text : List Char) : Sound (string text) := by
  simp only [string]
  split
  · rfl
  · rintro content ⟨⟩
    exact ⟨_, rfl⟩

theorem sound_word (c : Char) (rest : List Char) : Sound (word c rest) := by
  simp only [word]
  split
  · next kind hkind =>
      rintro content ⟨⟩
      exact carries_of_ofWord? hkind
  · split
    · rintro content ⟨⟩
      exact ⟨_, rfl⟩
    · rfl

/-- **What is read as a lexeme fits, and what cannot be read is a lexical fault.** -/
theorem sound_read (c : Char) (rest : List Char) : Sound (read c rest) := by
  -- the defects are out of the way with this equation
  rw [read_eq]
  split
  · rintro content ⟨⟩
  · split
    · next kind hkind =>
        rintro content ⟨⟩
        exact carries_of_symbol? hkind
    · split
      · exact sound_ofDigits _
      · split
        · exact sound_character rest
        · split
          · exact sound_string rest
          · exact sound_word c rest

end Lexeme

/-! ### Texts -/

/-- The outcome of reading a text is as it should be: its tokens fit, and what is wrong is
lexical. -/
def SoundTokens (outcome : Except Error (List Token)) : Prop :=
  match outcome with
  | .ok tokens => ∀ t ∈ tokens, t.Fits
  | .error e => e.cause.stage = .lexing

theorem LineCursor.fits_of_token? {cursor : LineCursor} {lexeme : Lexeme} {t : Token}
    (h : ∀ content ∈ lexeme.content?, content.1.Carries content.2)
    (ht : t ∈ (cursor.token? lexeme).toList) : t.Fits := by
  obtain ⟨content, hcontent, rfl⟩ := Option.map_eq_some_iff.1 (Option.mem_toList.1 ht)
  exact h content hcontent

/-- The tokens of a line fit, and what is wrong is lexical, by induction on the rounds. -/
theorem LineCursor.soundTokens_tokensUpTo (n : Nat) (cursor : LineCursor) :
    SoundTokens (tokensUpTo n cursor) := by
  induction n generalizing cursor with
  | zero => simp [tokensUpTo, SoundTokens]
  | succ n ih =>
      unfold tokensUpTo
      split
      · simp [SoundTokens]
      · next c rest _ =>
          have hread := Lexeme.sound_read c rest
          split
          · next cause hcause =>
              rw [hcause] at hread
              exact hread
          · next lexeme hlexeme =>
              rw [hlexeme] at hread
              have hlater := ih (cursor.advance (byteLength lexeme.text))
              split
              · next e he =>
                  rw [he] at hlater
                  exact hlater
              · next tokens htokens =>
                  rw [htokens] at hlater
                  intro t ht
                  rcases List.mem_append.1 ht with ht | ht
                  · exact fits_of_token? hread ht
                  · exact hlater t ht

theorem LineCursor.soundTokens_tokens (cursor : LineCursor) : SoundTokens cursor.tokens :=
  soundTokens_tokensUpTo cursor.rest.length cursor

/-- The tokens of some lines fit, and what is wrong is lexical, by induction on the lines. -/
theorem soundTokens_tokenizeFrom (first : Nat) (lines : List (List Char)) :
    SoundTokens (tokenizeFrom first lines) := by
  induction lines generalizing first with
  | nil => simp [tokenizeFrom, SoundTokens]
  | cons line others ih =>
      have hhere := (LineCursor.ofLine first line).soundTokens_tokens
      have hothers := ih (first + 1)
      unfold tokenizeFrom
      split
      · next e he =>
          rw [he] at hhere
          exact hhere
      · next here hok =>
          rw [hok] at hhere
          split
          · next e he =>
              rw [he] at hothers
              exact hothers
          · next later hlater =>
              rw [hlater] at hothers
              intro t ht
              rcases List.mem_append.1 ht with ht | ht
              · exact hhere t ht
              · exact hothers t ht

variable {source : String}

/-- **The tokens of a text fit.** -/
theorem tokenize_fits {tokens : List Token} (h : tokenize source = .ok tokens) :
    ∀ t ∈ tokens, t.Fits := by
  have hsound := soundTokens_tokenizeFrom 0 (Text.lines source.toList)
  rw [tokenize] at h
  rwa [h] at hsound

/-- **The errors of reading a text are lexical.** -/
theorem tokenize_error {e : Error} (h : tokenize source = .error e) :
    e.cause.stage = .lexing := by
  have hsound := soundTokens_tokenizeFrom 0 (Text.lines source.toList)
  rw [tokenize] at h
  rwa [h] at hsound

end FrontEnd
