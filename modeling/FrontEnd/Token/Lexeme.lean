/-
**Lexemes.**

A lexeme is the piece of a line that makes up one token, or one run of blanks between tokens.
Which lexeme comes next depends only on the text from there on.  Two-character operators win over
one-character ones, and a run of small letters that is a reserved word wins over an identifier, even
when characters follow that could continue an identifier.

Blanks, integers, reserved words and identifiers are found by patterns.  A pattern is first asked
whether the text starts with it, and what then reads the lexeme asks it once more for the piece that
it matches; should there be none, that is a defect of the front end.  Asked about the same text a
pattern gives the same answer, and the words that are recognised are those of the table, so there is
always such a piece.

Main definitions:

* `FrontEnd.Lexeme` — a piece of text with the kind and payload of its token, if it is one;
* `FrontEnd.Lexeme.Pattern`, `FrontEnd.Lexeme.Pattern.matched` — patterns, and what they match in a
  text that starts with them;
* `FrontEnd.Lexeme.read` — the lexeme that a text starts with.

Main results:

* `FrontEnd.Lexeme.read_eq` — the pieces that are asked for a second time are always there;
* `FrontEnd.Lexeme.read_text_ne_nil` — no lexeme is empty;
* `FrontEnd.Lexeme.read_isPrefixOf` — a lexeme is a piece of the text it is read from.
-/

import FrontEnd.Token

set_option relaxedAutoImplicit false
set_option autoImplicit false

namespace FrontEnd

/-- A piece of a line: one token, or a run of blanks. -/
structure Lexeme where
  /-- The piece of the line. -/
  text : List Char
  /-- The kind and payload of the token; `none` for blanks. -/
  content? : Option (TokenKind × Payload)
  deriving DecidableEq, Repr

namespace Lexeme

/-- Blanks between tokens are spaces, tabs and carriage returns. -/
def isGap (c : Char) : Bool := c == ' ' || c == '\t' || c == '\r'

def isNameStart (c : Char) : Bool := c.isAlpha || c == '_'

def isNamePart (c : Char) : Bool := c.isAlphanum || c == '_'

/-- The operator or delimiter that a text starts with. -/
def symbol? : List Char → Option TokenKind
  | '+' :: '=' :: _ => some .addAssign
  | '-' :: '=' :: _ => some .subtractAssign
  | '=' :: '=' :: _ => some .equal
  | '!' :: '=' :: _ => some .notEqual
  | '<' :: '=' :: _ => some .lessOrEqual
  | '>' :: '=' :: _ => some .greaterOrEqual
  | '+' :: '+' :: _ => some .increment
  | '-' :: '-' :: _ => some .decrement
  | '&' :: '&' :: _ => some .and
  | '|' :: '|' :: _ => some .or
  | '+' :: _ => some .add
  | '-' :: _ => some .subtract
  | '*' :: _ => some .multiply
  | '/' :: _ => some .divide
  | '=' :: _ => some .assign
  | '<' :: _ => some .less
  | '>' :: _ => some .greater
  | '!' :: _ => some .not
  | '(' :: _ => some .leftParenthesis
  | ')' :: _ => some .rightParenthesis
  | '\x7b' :: _ => some .leftBrace
  | '\x7d' :: _ => some .rightBrace
  | '[' :: _ => some .leftBracket
  | ']' :: _ => some .rightBracket
  | ',' :: _ => some .comma
  | '.' :: _ => some .period
  | ';' :: _ => some .semicolon
  | _ => none

/-- The largest integer that a literal can denote: integers have 64 bits, one of them for the
sign. -/
def maxInteger : Nat := 9223372036854775807

/-- The integer literal with the given digits. -/
def ofDigits (digits : List Char) : Except Cause Lexeme :=
  let value := Nat.ofDigitChars 10 digits 0
  if value ≤ maxInteger then .ok ⟨digits, some (.integer, .integer value)⟩
  else .error (.integerTooLarge (String.ofList digits))

/-- The character literal whose opening quote stands before the text: one byte, then a quote. -/
def character : List Char → Except Cause Lexeme
  | [] => .error .unterminatedCharacter
  | c :: rest =>
      if c = '\'' then .error .emptyCharacter
      else if 128 ≤ c.toNat then .error .characterTooLong
      else
        match rest with
        | [] => .error .unterminatedCharacter
        | close :: _ =>
            if close = '\'' then .ok ⟨['\'', c, '\''], some (.character, .character c.toUInt8)⟩
            else .error .characterTooLong

/-- The string literal whose opening quote stands before the text: all up to the next quote. -/
def string (text : List Char) : Except Cause Lexeme :=
  let body := text.takeWhile (· != '"')
  if body.length = text.length then .error .unterminatedString
  else .ok ⟨'"' :: body ++ ['"'], some (.string, .string (String.ofList body))⟩

/-! ### Patterns -/

/-- A pattern: how it is written, and the piece of a text that starts with it. -/
structure Pattern where
  /-- The regular expression. -/
  source : String
  /-- The longest piece at the start of a text that the expression describes. -/
  find? : List Char → Option (List Char)

/-- A character of one sort at the start of a text, with all those of another behind it. -/
def run? (first others : Char → Bool) : List Char → Option (List Char)
  | [] => none
  | c :: rest => if first c then some (c :: rest.takeWhile others) else none

namespace Pattern

def blanks : Pattern := ⟨"^[ \t\r]+", run? isGap isGap⟩

def digits : Pattern := ⟨"^[0-9]+", run? Char.isDigit Char.isDigit⟩

def name : Pattern := ⟨"^[a-zA-Z_][a-zA-Z0-9_]*", run? isNameStart isNamePart⟩

/-- Whether a text starts with the pattern. -/
def isMatch (pattern : Pattern) (text : List Char) : Bool := (pattern.find? text).isSome

/-- The piece of a text that has been seen to start with the pattern. -/
def matched (pattern : Pattern) (text : List Char) : Except Cause (List Char) :=
  match pattern.find? text with
  | some piece => .ok piece
  | none => .error (.internal s!"pattern `{pattern.source}` did not match")

end Pattern

/-- The reserved word that a text starts with, if no small letter follows it.  No two of the words
can, so it makes no difference in which order they are tried. -/
def keyword? (text : List Char) : Option (List Char) :=
  (TokenKind.words.map (·.spelling.toList)).find? fun word =>
    word.isPrefixOf text && !(text.drop word.length).head?.any Char.isLower

/-! ### Reading -/

def blanks (text : List Char) : Except Cause Lexeme := do
  let piece ← Pattern.blanks.matched text
  pure ⟨piece, none⟩

def integer (text : List Char) : Except Cause Lexeme := do
  let digits ← Pattern.digits.matched text
  ofDigits digits

def identifier (text : List Char) : Except Cause Lexeme := do
  let name ← Pattern.name.matched text
  pure ⟨name, some (.identifier, .name (String.ofList name))⟩

/-- The reserved word at the start of a text that starts with one.  Its kind is looked up in the
table of words. -/
def reserved (text : List Char) : Except Cause Lexeme :=
  let word := (keyword? text).getD []
  match TokenKind.ofWord? (String.ofList word) with
  | some kind => .ok ⟨word, some (kind, .none)⟩
  | none => .error (.internal s!"'{String.ofList word}' is not a keyword")

/-- The lexeme at the start of the text `c :: rest`. -/
def read (c : Char) (rest : List Char) : Except Cause Lexeme :=
  if Pattern.blanks.isMatch (c :: rest) then blanks (c :: rest)
  else
    match symbol? (c :: rest) with
    | some kind => .ok ⟨kind.spelling.toList, some (kind, .none)⟩
    | none =>
        if Pattern.digits.isMatch (c :: rest) then integer (c :: rest)
        else if c = '\'' then character rest
        else if c = '"' then string rest
        else if (keyword? (c :: rest)).isSome then reserved (c :: rest)
        else if Pattern.name.isMatch (c :: rest) then identifier (c :: rest)
        else .error (.unrecognisedToken (String.singleton c))

/-! ### What is asked for a second time is there -/

section Patterns

variable {c : Char} {text rest piece : List Char} {kind : TokenKind}

/-- Up to where it is followed by something else, a run of characters is the whole of it. -/
theorem takeWhile_append {p : Char → Bool} {more : List Char} (htext : ∀ c ∈ text, p c)
    (hmore : ∀ c ∈ more.head?, p c = false) : (text ++ more).takeWhile p = text := by
  rw [List.takeWhile_append_of_pos htext]
  cases more with
  | nil => exact List.append_nil text
  | cons c more =>
      rw [List.takeWhile_cons, hmore c rfl]
      exact List.append_nil text

theorem isSome_run? (first others : Char → Bool) (c : Char) (rest : List Char) :
    (run? first others (c :: rest)).isSome = first c := by
  rw [run?]
  cases first c <;> rfl

theorem Pattern.matched_of_find? {pattern : Pattern} (h : pattern.find? text = some piece) :
    pattern.matched text = .ok piece := by
  rw [matched, h]

theorem blanks_eq (h : isGap c) : blanks (c :: rest) = .ok ⟨c :: rest.takeWhile isGap, none⟩ := by
  have hfind : Pattern.blanks.find? (c :: rest) = some (c :: rest.takeWhile isGap) := if_pos h
  rw [blanks, Pattern.matched_of_find? hfind]
  rfl

theorem integer_eq (h : c.isDigit) :
    integer (c :: rest) = ofDigits (c :: rest.takeWhile Char.isDigit) := by
  have hfind : Pattern.digits.find? (c :: rest) = some (c :: rest.takeWhile Char.isDigit) :=
    if_pos h
  rw [integer, Pattern.matched_of_find? hfind]
  rfl

theorem identifier_eq (h : isNameStart c) : identifier (c :: rest) =
    .ok ⟨c :: rest.takeWhile isNamePart,
      some (.identifier, .name (String.ofList (c :: rest.takeWhile isNamePart)))⟩ := by
  have hfind : Pattern.name.find? (c :: rest) = some (c :: rest.takeWhile isNamePart) := if_pos h
  rw [identifier, Pattern.matched_of_find? hfind]
  rfl

/-- What is recognised as a reserved word is in the table, and is the run of small letters at the
start of the text. -/
theorem exists_of_keyword? (h : keyword? text = some piece) :
    ∃ kind ∈ TokenKind.words, piece = kind.spelling.toList ∧
      text.takeWhile Char.isLower = piece := by
  obtain ⟨kind, hkind, rfl⟩ := List.mem_map.1 (List.mem_of_find?_eq_some h)
  refine ⟨kind, hkind, rfl, ?_⟩
  have hfound := List.find?_some h
  obtain ⟨hstart, hmore⟩ := (Bool.and_eq_true _ _).mp hfound
  obtain ⟨more, rfl⟩ := List.isPrefixOf_iff_prefix.1 hstart
  rw [List.drop_left] at hmore
  refine takeWhile_append (TokenKind.isLower_of_mem_words hkind) fun d hd => ?_
  rw [Option.mem_def.1 hd] at hmore
  simpa using hmore

/-- A run of small letters that is in the table is recognised as a reserved word. -/
theorem keyword?_of_ofWord?
    (h : TokenKind.ofWord? (String.ofList (text.takeWhile Char.isLower)) = some kind) :
    keyword? text = some (text.takeWhile Char.isLower) := by
  have hspelling : text.takeWhile Char.isLower = kind.spelling.toList := by
    rw [TokenKind.spelling_of_ofWord? h, String.toList_ofList]
  have hsplit : text = kind.spelling.toList ++ text.dropWhile Char.isLower := by
    rw [← hspelling, List.takeWhile_append_dropWhile]
  have hsome : (keyword? text).isSome = true := by
    refine List.find?_isSome.2 ⟨kind.spelling.toList, List.mem_map_of_mem
      (List.mem_of_find?_eq_some h), ?_⟩
    have hmore : text.drop kind.spelling.toList.length = text.dropWhile Char.isLower :=
      (congrArg (List.drop _) hsplit).trans List.drop_left
    rw [Bool.and_eq_true, hmore]
    refine ⟨List.isPrefixOf_iff_prefix.2 ⟨_, hsplit.symm⟩, ?_⟩
    have hhead := List.head?_dropWhile_not Char.isLower text
    cases hd : (text.dropWhile Char.isLower).head? with
    | none => rfl
    | some d =>
        rw [hd] at hhead
        simpa using hhead
  obtain ⟨piece, hpiece⟩ := Option.isSome_iff_exists.1 hsome
  obtain ⟨-, -, -, hsmall⟩ := exists_of_keyword? hpiece
  rw [hpiece, hsmall]

/-- **What is recognised as a reserved word has a kind.** -/
theorem reserved_eq
    (h : TokenKind.ofWord? (String.ofList (text.takeWhile Char.isLower)) = some kind) :
    reserved text = .ok ⟨text.takeWhile Char.isLower, some (kind, .none)⟩ := by
  rw [reserved, keyword?_of_ofWord? h]
  simp only [Option.getD_some, h]

theorem keyword?_eq_none
    (h : TokenKind.ofWord? (String.ofList (text.takeWhile Char.isLower)) = none) :
    keyword? text = none := by
  rw [Option.eq_none_iff_forall_ne_some]
  intro piece hpiece
  obtain ⟨kind, hkind, rfl, hsmall⟩ := exists_of_keyword? hpiece
  rw [hsmall, String.ofList_toList, TokenKind.ofWord?_spelling hkind] at h
  cases h

/-- The reserved word or identifier at the start of a text that begins with `c`, told by its run of
small letters. -/
def word (c : Char) (rest : List Char) : Except Cause Lexeme :=
  let small := (c :: rest).takeWhile Char.isLower
  match TokenKind.ofWord? (String.ofList small) with
  | some kind => .ok ⟨small, some (kind, .none)⟩
  | none =>
      if isNameStart c then
        let name := c :: rest.takeWhile isNamePart
        .ok ⟨name, some (.identifier, .name (String.ofList name))⟩
      else .error (.unrecognisedToken (String.singleton c))

/-- The run of small letters tells what matching the reserved words one after the other, and then
the pattern of names, would tell. -/
theorem word_eq (c : Char) (rest : List Char) : word c rest =
    if (keyword? (c :: rest)).isSome then reserved (c :: rest)
    else if Pattern.name.isMatch (c :: rest) then identifier (c :: rest)
    else .error (.unrecognisedToken (String.singleton c)) := by
  have hname : Pattern.name.isMatch (c :: rest) = isNameStart c := isSome_run? _ _ _ _
  simp only [word]
  split
  · next kind hkind =>
      rw [keyword?_of_ofWord? hkind, reserved_eq hkind]
      rfl
  · next hnone =>
      rw [keyword?_eq_none hnone, hname]
      simp only [Option.isSome_none, Bool.false_eq_true, if_false]
      split
      · next hstart => rw [identifier_eq hstart]
      · rfl

/-- **What is asked for a second time is always there.**  Reading a lexeme therefore comes to
telling it by its first character and taking the run that it starts. -/
theorem read_eq (c : Char) (rest : List Char) : read c rest =
    if isGap c then .ok ⟨c :: rest.takeWhile isGap, none⟩
    else
      match symbol? (c :: rest) with
      | some kind => .ok ⟨kind.spelling.toList, some (kind, .none)⟩
      | none =>
          if c.isDigit then ofDigits (c :: rest.takeWhile Char.isDigit)
          else if c = '\'' then character rest
          else if c = '"' then string rest
          else word c rest := by
  have hblanks : Pattern.blanks.isMatch (c :: rest) = isGap c := isSome_run? _ _ _ _
  have hdigits : Pattern.digits.isMatch (c :: rest) = c.isDigit := isSome_run? _ _ _ _
  rw [read, hblanks, hdigits, ← word_eq]
  by_cases hgap : isGap c
  · rw [if_pos hgap, if_pos hgap, blanks_eq hgap]
  · rw [if_neg hgap, if_neg hgap]
    cases symbol? (c :: rest) with
    | some kind => rfl
    | none =>
        by_cases hdigit : c.isDigit
        · simp only [if_pos hdigit, integer_eq hdigit]
        · simp only [if_neg hdigit]

end Patterns

/-! ### A lexeme is a non-empty piece of the text -/

theorem spelling_isPrefixOf_of_symbol? {text : List Char} {kind : TokenKind}
    (h : symbol? text = some kind) : kind.spelling.toList <+: text := by
  unfold symbol? at h
  split at h <;> cases h <;> simp [TokenKind.spelling]

theorem spelling_ne_nil (kind : TokenKind) : kind.spelling.toList ≠ [] := by
  cases kind <;> decide

private theorem character_text {text : List Char} {lexeme : Lexeme}
    (h : character text = .ok lexeme) : lexeme.text ≠ [] ∧ lexeme.text <+: '\'' :: text := by
  unfold character at h
  repeat' split at h
  all_goals cases h
  rename_i hclose
  subst hclose
  simp

private theorem string_text {text : List Char} {lexeme : Lexeme} (h : string text = .ok lexeme) :
    lexeme.text ≠ [] ∧ lexeme.text <+: '"' :: text := by
  simp only [string] at h
  split at h
  · cases h
  · rename_i hlen
    cases h
    refine ⟨by simp, ?_⟩
    have hsplit := List.takeWhile_append_dropWhile (p := (· != '"')) (l := text)
    cases hdrop : text.dropWhile (· != '"') with
    | nil =>
        rw [hdrop, List.append_nil] at hsplit
        exact absurd (congrArg List.length hsplit) hlen
    | cons d tail =>
        have hd : d = '"' := by
          have := List.head?_dropWhile_not (· != '"') text
          rw [hdrop] at this
          simpa using this
        subst hd
        refine ⟨tail, ?_⟩
        rw [hdrop] at hsplit
        simp [hsplit]

private theorem word_text {c : Char} {rest : List Char} {lexeme : Lexeme}
    (h : word c rest = .ok lexeme) : lexeme.text ≠ [] ∧ lexeme.text <+: c :: rest := by
  simp only [word] at h
  split at h
  · rename_i kind hkind
    cases h
    refine ⟨?_, List.takeWhile_prefix _⟩
    intro hnil
    simp only at hnil
    have hnone : TokenKind.ofWord? (String.ofList []) = none := by decide
    rw [hnil, hnone] at hkind
    cases hkind
  · split at h
    · cases h
      exact ⟨by simp, by simpa using List.takeWhile_prefix _⟩
    · cases h

private theorem read_text {c : Char} {rest : List Char} {lexeme : Lexeme}
    (h : read c rest = .ok lexeme) : lexeme.text ≠ [] ∧ lexeme.text <+: c :: rest := by
  rw [read_eq] at h
  split at h
  · cases h
    exact ⟨by simp, by simpa using List.takeWhile_prefix _⟩
  · split at h
    · rename_i kind hkind
      cases h
      exact ⟨spelling_ne_nil kind, spelling_isPrefixOf_of_symbol? hkind⟩
    · repeat' split at h
      · simp only [ofDigits] at h
        split at h
        · cases h
          exact ⟨by simp, by simpa using List.takeWhile_prefix _⟩
        · cases h
      · rename_i hc
        subst hc
        exact character_text h
      · rename_i hc
        subst hc
        exact string_text h
      · exact word_text h

/-- No lexeme is empty. -/
theorem read_text_ne_nil {c : Char} {rest : List Char} {lexeme : Lexeme}
    (h : read c rest = .ok lexeme) : lexeme.text ≠ [] := (read_text h).1

/-- A lexeme is what the text it is read from starts with. -/
theorem read_isPrefixOf {c : Char} {rest : List Char} {lexeme : Lexeme}
    (h : read c rest = .ok lexeme) : lexeme.text <+: c :: rest := (read_text h).2

end Lexeme

end FrontEnd
