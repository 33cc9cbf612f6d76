/-
**How tokens are written.**

A token is written in one way, except for integers, which may start with zeros.  Whether a text that
starts with a way to write a token is read as this token depends on the next character only: a
letter behind a name or a reserved word, a digit behind an integer or a second half behind an
operator would make it something else.

Main definitions:

* `FrontEnd.Written` — the ways to write a token of a kind with a payload;
* `FrontEnd.TokenKind.goesOn`, `FrontEnd.Stops` — what cannot, and what can stand behind it.

Main results:

* `FrontEnd.Lexeme.endsBefore_of_read` — what is read as a token is a way to write it, and what
  follows can stand behind it;
* `FrontEnd.Lexeme.read_of_written` — a way to write a token is read as this token;
* `FrontEnd.Lexeme.read_ok_iff` — the two as an equivalence, gaps included.
-/

import FrontEnd.Token.Lexeme
import Mathlib.Data.List.TakeWhile

set_option relaxedAutoImplicit false
set_option autoImplicit false

namespace FrontEnd

open Lexeme (isGap isNameStart isNamePart symbol? maxInteger)

variable {c : Char} {text rest more body : List Char} {x : Lexeme} {kind : TokenKind}
  {payload : Payload}

/-! ### Ways to write a token -/

/-- The operators and delimiters. -/
def TokenKind.symbols : List TokenKind :=
  [add, subtract, multiply, divide, assign, addAssign, subtractAssign, increment, decrement, equal,
    notEqual, less, lessOrEqual, greater, greaterOrEqual, and, or, not, leftParenthesis,
    rightParenthesis, leftBrace, rightBrace, leftBracket, rightBracket, comma, period, semicolon]

/-- The text is a way to write a token of the kind with the payload. -/
inductive Written : TokenKind → Payload → List Char → Prop where
  | symbol {kind : TokenKind} (hkind : kind ∈ TokenKind.symbols) :
      Written kind .none kind.spelling.toList
  | word {kind : TokenKind} (hkind : kind ∈ TokenKind.words) :
      Written kind .none kind.spelling.toList
  | integer {digits : List Char} (hne : digits ≠ []) (hdigits : ∀ d ∈ digits, d.isDigit)
      (hmax : Nat.ofDigitChars 10 digits 0 ≤ maxInteger) :
      Written .integer (.integer (Nat.ofDigitChars 10 digits 0)) digits
  | character {c : Char} (hquote : c ≠ '\'') (hascii : c.toNat < 128) :
      Written .character (.character c.toUInt8) ['\'', c, '\'']
  | string {body : List Char} (hquote : '"' ∉ body) :
      Written .string (.string (String.ofList body)) ('"' :: body ++ ['"'])
  | name {c : Char} {rest : List Char} (hstart : isNameStart c) (hparts : ∀ d ∈ rest, isNamePart d)
      (hword : TokenKind.ofWord? (String.ofList ((c :: rest).takeWhile Char.isLower)) = none) :
      Written .identifier (.name (String.ofList (c :: rest))) (c :: rest)

/-- The character right behind a token of the kind would belong to it, or with it to another
token. -/
def TokenKind.goesOn : TokenKind → Char → Bool
  | integer, c => c.isDigit
  | identifier, c => isNamePart c
  | add, c => c == '+' || c == '='
  | subtract, c => c == '-' || c == '='
  | assign, c | less, c | greater, c | not, c => c == '='
  | kind, c => words.contains kind && c.isLower

/-- A token of the kind ends before the text. -/
def Stops (kind : TokenKind) (more : List Char) : Prop := ∀ c ∈ more.head?, kind.goesOn c = false

theorem Written.text_ne_nil (h : Written kind payload text) : text ≠ [] := by
  cases h with
  | symbol => exact Lexeme.spelling_ne_nil _
  | word => exact Lexeme.spelling_ne_nil _
  | integer hne => exact hne
  | character => exact List.cons_ne_nil _ _
  | string => exact List.cons_ne_nil _ _
  | name => exact List.cons_ne_nil _ _

/-- Blanks end every token. -/
theorem TokenKind.goesOn_of_isGap (h : isGap c) (kind : TokenKind) : kind.goesOn c = false := by
  simp only [isGap, Bool.or_eq_true, beq_iff_eq] at h
  rcases h with (rfl | rfl) | rfl <;> cases kind <;> rfl

theorem TokenKind.goesOn_of_mem_words (h : kind ∈ words) (c : Char) :
    kind.goesOn c = c.isLower := by
  simp only [words, List.mem_cons, List.not_mem_nil, or_false] at h
  rcases h with rfl | rfl | rfl | rfl | rfl | rfl | rfl | rfl | rfl | rfl | rfl <;> rfl

/-- What follows does not change a run of characters that it does not continue. -/
theorem takeWhile_append_of_head? {p : Char → Bool} (h : ∀ c ∈ more.head?, p c = false) :
    (text ++ more).takeWhile p = text.takeWhile p := by
  induction text with
  | nil =>
      cases more with
      | nil => rfl
      | cons c more => simp [h c rfl]
  | cons c text ih => rw [List.cons_append, List.takeWhile_cons, List.takeWhile_cons, ih]

/-- What follows a run of characters does not continue it. -/
theorem head?_of_takeWhile {p : Char → Bool} (h : text = text.takeWhile p ++ more) :
    ∀ c ∈ more.head?, p c = false := by
  have hmore : more = text.dropWhile p :=
    List.append_cancel_left (h.symm.trans List.takeWhile_append_dropWhile.symm)
  intro c hc
  have := List.head?_dropWhile_not p text
  rw [← hmore, hc] at this
  simpa using this

theorem exists_tail (hne : text ≠ []) (htext : c :: rest = text ++ more) :
    ∃ tail, text = c :: tail ∧ rest = tail ++ more :=
  (List.cons_eq_append_iff.1 htext).resolve_left fun h => hne h.1

/-! ### Operators, delimiters and reserved words -/

/-- A kind is found exactly where its spelling stands and no character follows that would make it
longer. -/
theorem symbol?_eq_some_iff : symbol? text = some kind ↔
    ∃ more, text = kind.spelling.toList ++ more ∧ kind ∈ TokenKind.symbols ∧ Stops kind more := by
  constructor
  · intro h
    unfold symbol? at h
    split at h
    all_goals cases h
    all_goals refine ⟨_, rfl, by decide, ?_⟩
    all_goals intro c hc
    -- Only the first halves of longer symbols ask for anything, and those have been tried before.
    all_goals try rfl
    all_goals obtain ⟨tail, rfl⟩ := List.head?_eq_some_iff.1 hc
    all_goals simp_all [TokenKind.goesOn]
  · rintro ⟨more, rfl, hkind, hstops⟩
    simp only [TokenKind.symbols, List.mem_cons, List.not_mem_nil, or_false] at hkind
    rcases hkind with rfl | rfl | rfl | rfl | rfl | rfl | rfl | rfl | rfl | rfl | rfl | rfl | rfl |
      rfl | rfl | rfl | rfl | rfl | rfl | rfl | rfl | rfl | rfl | rfl | rfl | rfl | rfl
    -- Only a first half of a longer symbol asks for anything of the text behind it.
    all_goals first
      | rfl
      | cases more <;> simp_all [symbol?, TokenKind.spelling, Stops, TokenKind.goesOn]

/-- No symbol starts like a name, a number or a quoted literal. -/
theorem symbol?_eq_none (h : isNameStart c ∨ c.isDigit ∨ c = '\'' ∨ c = '"') :
    symbol? (c :: rest) = none := by
  rw [Option.eq_none_iff_forall_ne_some]
  intro kind hkind
  obtain ⟨more, htext, hmem, -⟩ := symbol?_eq_some_iff.1 hkind
  obtain ⟨tail, hspelling, -⟩ := exists_tail (Lexeme.spelling_ne_nil kind) htext
  have hall : (TokenKind.symbols.all fun kind => kind.spelling.toList.all fun d =>
      !(isNameStart d || d.isDigit || d == '\'' || d == '"')) = true := by decide +kernel
  have hnone := TokenKind.forall_mem_spelling hall hmem c (hspelling ▸ List.mem_cons_self)
  simp only [Bool.not_eq_true', Bool.or_eq_false_iff, beq_eq_false_iff_ne] at hnone
  obtain ⟨⟨⟨hstart, hdigit⟩, hquote⟩, hdouble⟩ := hnone
  simp [hstart, hdigit, hquote, hdouble] at h

theorem TokenKind.not_isGap_of_mem_symbols (hkind : kind ∈ symbols) :
    ∀ d ∈ kind.spelling.toList, ¬ isGap d := by
  have hall : (symbols.all fun kind => kind.spelling.toList.all (!isGap ·)) = true := by
    decide +kernel
  intro d hd
  simpa using forall_mem_spelling hall hkind d hd

/-! ### Reading and writing -/

namespace Lexeme

/-- The lexeme is blank or a way to write its token, and it ends where the text follows. -/
def EndsBefore (x : Lexeme) (more : List Char) : Prop :=
  match x.content? with
  | none => x.text ≠ [] ∧ (∀ d ∈ x.text, isGap d) ∧ ∀ d ∈ more.head?, isGap d = false
  | some (kind, payload) => Written kind payload x.text ∧ Stops kind more

/-- Digits end where no digit follows. -/
theorem endsBefore_of_ofDigits {digits : List Char} (hne : digits ≠ [])
    (hdigits : ∀ d ∈ digits, d.isDigit) (hmore : ∀ d ∈ more.head?, d.isDigit = false)
    (h : ofDigits digits = .ok x) : x.EndsBefore more := by
  simp only [ofDigits] at h
  split at h
  · next hmax =>
      cases h
      exact ⟨.integer hne hdigits hmax, hmore⟩
  · cases h

theorem text_of_ofDigits {digits : List Char} (h : ofDigits digits = .ok x) : x.text = digits := by
  simp only [ofDigits] at h
  split at h
  · cases h
    rfl
  · cases h

/-- A character literal ends at its second quote. -/
theorem endsBefore_of_character (h : character rest = .ok x) : x.EndsBefore more := by
  unfold character at h
  split at h
  · cases h
  · split at h
    · cases h
    · next hquote =>
        split at h
        · cases h
        · next hascii =>
            repeat' split at h
            all_goals cases h
            exact ⟨.character hquote (by omega), fun _ _ => rfl⟩

theorem endsBefore_of_string (h : string rest = .ok x) : x.EndsBefore more := by
  simp only [string] at h
  split at h
  · cases h
  · cases h
    refine ⟨.string ?_, fun _ _ => rfl⟩
    intro hquote
    simpa using List.mem_takeWhile_imp hquote

theorem isNameStart_eq (c : Char) : isNameStart c = (c.isUpper || c.isLower || c == '_') := rfl

theorem isNamePart_eq (c : Char) :
    isNamePart c = (c.isUpper || c.isLower || c.isDigit || c == '_') := rfl

/-- What does not continue a name starts with no small letter. -/
theorem head?_not_isLower (h : ∀ d ∈ more.head?, isNamePart d = false) :
    ∀ d ∈ more.head?, d.isLower = false := by
  intro d hd
  have hpart := h d hd
  simp only [isNamePart_eq, Bool.or_eq_false_iff] at hpart
  exact hpart.1.1.2

/-- A word ends where no character follows that can be part of it. -/
theorem endsBefore_of_word (h : word c rest = .ok x) (htext : c :: rest = x.text ++ more) :
    x.EndsBefore more := by
  simp only [word] at h
  split at h
  · next kind hword =>
      cases h
      have hmem := List.mem_of_find?_eq_some hword
      have hspelling := congrArg String.toList (TokenKind.spelling_of_ofWord? hword)
      rw [String.toList_ofList] at hspelling
      have hstops : Stops kind more := by
        intro d hd
        rw [TokenKind.goesOn_of_mem_words hmem]
        exact head?_of_takeWhile htext d hd
      exact ⟨hspelling ▸ .word hmem, hstops⟩
  · next hword =>
      split at h
      · next hstart =>
          cases h
          have hmore := head?_of_takeWhile (List.cons.inj htext).2
          refine ⟨.name hstart (fun _ => List.mem_takeWhile_imp) ?_, hmore⟩
          rwa [htext, takeWhile_append_of_head? (head?_not_isLower hmore)] at hword
      · cases h

/-- **What is read is a lexeme that ends there.** -/
theorem endsBefore_of_read (h : read c rest = .ok x) (htext : c :: rest = x.text ++ more) :
    x.EndsBefore more := by
  rw [read_eq] at h
  split at h
  · next hgap =>
      cases h
      exact ⟨List.cons_ne_nil _ _, List.forall_mem_cons.2 ⟨hgap, fun _ => List.mem_takeWhile_imp⟩,
        head?_of_takeWhile (List.cons.inj htext).2⟩
  · split at h
    · next kind hsymbol =>
        cases h
        obtain ⟨more', htext', hmem, hstops⟩ := symbol?_eq_some_iff.1 hsymbol
        cases List.append_cancel_left (htext.symm.trans htext')
        exact ⟨.symbol hmem, hstops⟩
    · split at h
      · next hdigit =>
          rw [text_of_ofDigits h] at htext
          exact endsBefore_of_ofDigits (List.cons_ne_nil _ _)
            (List.forall_mem_cons.2 ⟨hdigit, fun _ => List.mem_takeWhile_imp⟩)
            (head?_of_takeWhile (List.cons.inj htext).2) h
      · split at h
        · exact endsBefore_of_character h
        · split at h
          · exact endsBefore_of_string h
          · exact endsBefore_of_word h htext

theorem read_of_isGap (hne : text ≠ []) (hgap : ∀ d ∈ text, isGap d)
    (hmore : ∀ d ∈ more.head?, isGap d = false) (htext : c :: rest = text ++ more) :
    read c rest = .ok ⟨text, none⟩ := by
  obtain ⟨tail, rfl, rfl⟩ := exists_tail hne htext
  obtain ⟨hd, htail⟩ := List.forall_mem_cons.1 hgap
  rw [read_eq, if_pos hd, takeWhile_append htail hmore]

/-- Names, reserved words and literals are told apart by their first characters. -/
theorem read_of_start (h : isNameStart c ∨ c.isDigit ∨ c = '\'' ∨ c = '"') :
    read c rest =
      if c.isDigit then ofDigits (c :: rest.takeWhile Char.isDigit)
      else if c = '\'' then character rest
      else if c = '"' then string rest
      else word c rest := by
  have hgap : ¬ isGap c := by
    simp only [isGap, Bool.or_eq_true, beq_iff_eq]
    rintro ((rfl | rfl) | rfl) <;> revert h <;> decide
  rw [read_eq, if_neg hgap, symbol?_eq_none h]

/-- Letters and the underscore are no digits. -/
theorem not_isDigit_of_isNameStart (h : isNameStart c) : ¬ c.isDigit := by
  have hupper : c.isUpper = decide (c.val ≥ 'A'.val ∧ c.val ≤ 'Z'.val) := rfl
  have hlower : c.isLower = (decide (c.val ≥ 'a'.val) && decide (c.val ≤ 'z'.val)) := rfl
  simp only [isNameStart_eq, hupper, hlower, Bool.or_eq_true, Bool.and_eq_true, decide_eq_true_eq,
    beq_iff_eq] at h
  simp only [Char.isDigit, Bool.and_eq_true, decide_eq_true_eq]
  rcases h with (h | h) | rfl
  · grind
  · grind
  · decide

theorem read_of_isNameStart (h : isNameStart c) : read c rest = word c rest := by
  have hquotes : c ≠ '\'' ∧ c ≠ '"' := by
    constructor <;> rintro rfl <;> revert h <;> decide
  rw [read_of_start (.inl h), if_neg (not_isDigit_of_isNameStart h), if_neg hquotes.1,
    if_neg hquotes.2]

/-- **A way to write a token is read as this token** if what follows does not go on with it. -/
theorem read_of_written (h : Written kind payload text) (hstops : Stops kind more)
    (htext : c :: rest = text ++ more) : read c rest = .ok ⟨text, some (kind, payload)⟩ := by
  cases h with
  | @symbol kind hkind =>
      have hsymbol : symbol? (c :: rest) = some kind :=
        symbol?_eq_some_iff.2 ⟨more, htext, hkind, hstops⟩
      obtain ⟨tail, hspelling, -⟩ := exists_tail (spelling_ne_nil kind) htext
      have hgap : ¬ isGap c :=
        TokenKind.not_isGap_of_mem_symbols hkind c (hspelling ▸ List.mem_cons_self)
      rw [read_eq, if_neg hgap, hsymbol]
  | @word kind hkind =>
      have hlower := TokenKind.isLower_of_mem_words hkind
      have hsmall : (c :: rest).takeWhile Char.isLower = kind.spelling.toList := by
        rw [htext, takeWhile_append hlower]
        intro d hd
        rw [← TokenKind.goesOn_of_mem_words hkind, hstops d hd]
      obtain ⟨tail, hspelling, -⟩ := exists_tail (spelling_ne_nil kind) htext
      have hstart : isNameStart c := by
        have hc := hlower c (hspelling ▸ List.mem_cons_self)
        simp [isNameStart_eq, hc]
      rw [read_of_isNameStart hstart]
      simp only [Lexeme.word, hsmall, String.ofList_toList, TokenKind.ofWord?_spelling hkind]
  | @integer digits hne hdigits hmax =>
      obtain ⟨tail, rfl, rfl⟩ := exists_tail hne htext
      obtain ⟨hd, htail⟩ := List.forall_mem_cons.1 hdigits
      rw [read_of_start (.inr (.inl hd)), if_pos hd, takeWhile_append htail hstops, ofDigits]
      simp only [hmax, if_true]
  | @character d hquote hascii =>
      cases htext
      rw [read_of_start (by simp)]
      simp [character, hquote, Nat.not_le.2 hascii]
  | @string body hquote =>
      simp only [List.cons_append, List.append_assoc, List.nil_append] at htext
      obtain ⟨rfl, rfl⟩ := List.cons.inj htext
      have hbody : (body ++ '"' :: more).takeWhile (· != '"') = body := by
        refine takeWhile_append ?_ ?_
        · intro d hd
          simpa using ne_of_mem_of_not_mem hd hquote
        · simp
      rw [read_of_start (by simp)]
      simp [string, hbody]
  | @name d tail hstart hparts hword =>
      rw [List.cons_append] at htext
      obtain ⟨rfl, rfl⟩ := List.cons.inj htext
      have hsmall : (c :: (tail ++ more)).takeWhile Char.isLower =
          (c :: tail).takeWhile Char.isLower := by
        rw [← List.cons_append, takeWhile_append_of_head? (head?_not_isLower hstops)]
      rw [read_of_isNameStart hstart]
      simp only [Lexeme.word, hsmall, hword, hstart, if_true, takeWhile_append hparts hstops]

/-- **What is read depends on what follows only in that it has to end there.** -/
theorem read_ok_iff (htext : c :: rest = x.text ++ more) :
    read c rest = .ok x ↔ x.EndsBefore more := by
  constructor
  · intro h
    exact endsBefore_of_read h htext
  · obtain ⟨text, content?⟩ := x
    cases content? with
    | none =>
        rintro ⟨hne, hgap, hmore⟩
        exact read_of_isGap hne hgap hmore htext
    | some content =>
        rintro ⟨hwritten, hstops⟩
        exact read_of_written hwritten hstops htext

end Lexeme

/-! ### Digits -/

/-- Integers are written in digits. -/
theorem Written.isDigit (h : Written .integer payload text) : ∀ d ∈ text, d.isDigit := by
  cases h with
  | symbol hkind => exact absurd hkind (by decide)
  | word hkind => exact absurd hkind (by decide)
  | integer _ hdigits _ => exact hdigits

/-- A digit that does not go on with a token does not stand behind a digit of it. -/
theorem Written.not_isDigit {d : Char} (h : Written kind payload text)
    (hgoes : kind.goesOn d = false) (hd : d.isDigit) : ∀ e ∈ text.getLast?, e.isDigit = false := by
  have hall : ((TokenKind.symbols ++ TokenKind.words).all fun kind =>
      kind.spelling.toList.all (!Char.isDigit ·)) = true := by decide +kernel
  have hfixed : ∀ kind ∈ TokenKind.symbols ++ TokenKind.words,
      ∀ e ∈ kind.spelling.toList.getLast?, e.isDigit = false := by
    intro kind hkind e he
    simpa using TokenKind.forall_mem_spelling hall hkind e (List.mem_of_mem_getLast? he)
  cases h with
  | symbol hkind => exact hfixed _ (List.mem_append_left _ hkind)
  | word hkind => exact hfixed _ (List.mem_append_right _ hkind)
  | integer => exact absurd hd (Bool.eq_false_iff.1 hgoes)
  | character =>
      rintro e ⟨⟩
      rfl
  | string =>
      intro e he
      rw [List.getLast?_concat] at he
      cases he
      rfl
  | name =>
      have hpart : isNamePart d := by
        simp [Lexeme.isNamePart_eq, hd]
      exact absurd hpart (Bool.eq_false_iff.1 hgoes)

/-- Digits behind a lexeme that ends there do not stand behind a digit. -/
theorem Lexeme.EndsBefore.not_isDigit {d : Char} (h : x.EndsBefore (d :: more)) (hd : d.isDigit) :
    ∀ e ∈ x.text.getLast?, e.isDigit = false := by
  obtain ⟨text, content?⟩ := x
  cases content? with
  | none =>
      obtain ⟨-, hgap, -⟩ := h
      intro e he
      have he' := hgap e (List.mem_of_mem_getLast? he)
      simp only [isGap, Bool.or_eq_true, beq_iff_eq] at he'
      rcases he' with (rfl | rfl) | rfl <;> rfl
  | some content => exact h.1.not_isDigit (h.2 d rfl) hd

end FrontEnd
