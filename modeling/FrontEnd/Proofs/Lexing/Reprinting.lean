/-
**Reading what was printed.**

The tokens of a text can be written one behind the other, with blanks or line ends between them, and
are read again as the same tokens.  Written in their usual way they have no line feed in them and
end in no carriage return, so the ends of lines are where the blanks between them have one.  And
blanks end every token, whatever stood behind it in the text.

Main definitions:

* `FrontEnd.spaced` — tokens with blanks between them;
* `FrontEnd.Reads` — a text that is read as some words.

Main results:

* `FrontEnd.Written.describe` — the written form of a token is a way to write it;
* `FrontEnd.Reads.blank`, `FrontEnd.Reads.word` — blanks, and a word in front of a text;
* `FrontEnd.tokenize_spaced` — **printing tokens and reading them gives the same tokens**.
-/

import FrontEnd.Proofs.Lexing.Lossless
import FrontEnd.Proofs.Printing.Printer

set_option relaxedAutoImplicit false
set_option autoImplicit false

namespace FrontEnd

variable {c : Char} {text rest line w : List Char} {x : Lexeme} {xs : List Lexeme}
  {kind : TokenKind} {payload : Payload} {ws : List Word}

/-! ### Lines -/

/-- The characters that may stand between tokens. -/
def separators : List Char := [' ', '\t', '\r', '\n']

/-- A character that ends no line starts the first line. -/
theorem lines_cons (hc : c ≠ '\n') (hreturn : c = '\r' → ∀ d ∈ text.head?, d ≠ '\n') :
    Text.lines (c :: text) = (c :: (Text.lines text).headD []) :: (Text.lines text).tail := by
  rw [Text.lines.eq_4]
  · cases Text.lines text <;> rfl
  · exact hc
  · intro rest heq hnewline
    rw [hnewline] at hreturn
    exact hreturn heq '\n' rfl rfl

/-- A line feed ends a line, together with a carriage return before it. -/
theorem lines_return (text : List Char) :
    Text.lines ('\r' :: '\n' :: text) = Text.lines ('\n' :: text) := by
  rw [Text.lines.eq_3, Text.lines_newline]

/-- What a character adds to the lines of a text: the end of a line, nothing in front of the line
feed that it belongs to, or a character of the first line. -/
theorem lines_cons_cases (c : Char) (text : List Char) :
    (c = '\n' ∧ Text.lines (c :: text) = [] :: Text.lines text) ∨
      (c = '\r' ∧ (Text.lines text).headD [] = [] ∧ Text.lines (c :: text) = Text.lines text) ∨
      (c ≠ '\n' ∧
        Text.lines (c :: text) = (c :: (Text.lines text).headD []) :: (Text.lines text).tail) := by
  rcases eq_or_ne c '\n' with rfl | hc
  · exact .inl ⟨rfl, Text.lines_newline text⟩
  · by_cases hreturn : c = '\r' ∧ ∃ rest, text = '\n' :: rest
    · obtain ⟨rfl, rest, rfl⟩ := hreturn
      exact .inr (.inl ⟨rfl, by rw [Text.lines_newline]; rfl, lines_return rest⟩)
    · refine .inr (.inr ⟨hc, lines_cons hc ?_⟩)
      rintro rfl d hd rfl
      obtain ⟨rest, rfl⟩ := List.head?_eq_some_iff.1 hd
      exact hreturn ⟨rfl, rest, rfl⟩

/-- No line has a line feed in it. -/
theorem not_mem_of_mem_lines (text : List Char) : ∀ line ∈ Text.lines text, '\n' ∉ line := by
  induction text with
  | nil => simp
  | cons c text ih =>
      rcases lines_cons_cases c text with ⟨-, heq⟩ | ⟨-, -, heq⟩ | ⟨hc, heq⟩
      · rw [heq]
        exact List.forall_mem_cons.2 ⟨List.not_mem_nil, ih⟩
      · rw [heq]
        exact ih
      · rw [heq]
        refine List.forall_mem_cons.2 ⟨?_, fun line hline => ih line (List.mem_of_mem_tail hline)⟩
        rw [List.mem_cons, not_or]
        refine ⟨Ne.symm hc, ?_⟩
        cases hlines : Text.lines text with
        | nil => exact List.not_mem_nil
        | cons line others => exact ih line (hlines ▸ List.mem_cons_self)

/-- A piece of a line in front of a text lengthens the first line, unless it ends in a carriage
return. -/
theorem lines_append (text : List Char) (hne : w ≠ []) (hnewline : '\n' ∉ w)
    (hreturn : ∀ d ∈ w.getLast?, d ≠ '\r') :
    Text.lines (w ++ text) = (w ++ (Text.lines text).headD []) :: (Text.lines text).tail := by
  induction w with
  | nil => exact absurd rfl hne
  | cons c w ih =>
      rw [List.mem_cons, not_or] at hnewline
      rw [List.cons_append]
      cases w with
      | nil =>
          have hc : c ≠ '\r' := hreturn c rfl
          rw [List.nil_append, lines_cons (Ne.symm hnewline.1) fun h => absurd h hc]
          rfl
      | cons d w =>
          have hd : ∀ d' ∈ (d :: w ++ text).head?, d' ≠ '\n' := by
            rintro d' ⟨⟩ rfl
            exact hnewline.2 List.mem_cons_self
          rw [lines_cons (Ne.symm hnewline.1) fun _ => hd,
            ih (List.cons_ne_nil _ _) hnewline.2 hreturn]
          rfl

theorem isGap_of_mem_separators (h : c ∈ separators) (hnewline : c ≠ '\n') : Lexeme.isGap c := by
  simp only [separators, List.mem_cons, List.not_mem_nil, or_false] at h
  rcases h with rfl | rfl | rfl | rfl
  · rfl
  · rfl
  · rfl
  · exact absurd rfl hnewline

/-- The first line of a text that starts with a separator is empty or starts with a blank. -/
theorem isGap_of_mem_head? (h : ∀ d ∈ text.head?, d ∈ separators) :
    ∀ d ∈ ((Text.lines text).headD []).head?, Lexeme.isGap d := by
  cases text with
  | nil => simp
  | cons c text =>
      have hc := h c rfl
      rcases lines_cons_cases c text with ⟨-, heq⟩ | ⟨-, hempty, heq⟩ | ⟨hnewline, heq⟩
      · simp [heq]
      · rw [heq, hempty]
        simp
      · rw [heq]
        rintro d ⟨⟩
        exact isGap_of_mem_separators hc hnewline

/-! ### Words and blanks on a line -/

/-- A token does not end in a carriage return. -/
theorem Written.getLast?_ne_return (h : Written kind payload w) : ∀ d ∈ w.getLast?, d ≠ '\r' := by
  have hall : ((TokenKind.symbols ++ TokenKind.words).all fun kind =>
      kind.spelling.toList.all (· != '\r')) = true := by decide +kernel
  have hfixed : ∀ kind ∈ TokenKind.symbols ++ TokenKind.words,
      ∀ d ∈ kind.spelling.toList.getLast?, d ≠ '\r' := by
    intro kind hkind d hd
    simpa using TokenKind.forall_mem_spelling hall hkind d (List.mem_of_mem_getLast? hd)
  cases h with
  | symbol hkind => exact hfixed _ (List.mem_append_left _ hkind)
  | word hkind => exact hfixed _ (List.mem_append_right _ hkind)
  | integer hne hdigits =>
      rintro d hd rfl
      exact absurd (hdigits _ (List.mem_of_mem_getLast? hd)) (by decide)
  | @character c =>
      intro d hd
      have hlast : ['\'', c, '\''].getLast? = some '\'' := rfl
      rw [hlast] at hd
      cases hd
      decide
  | string =>
      intro d hd
      rw [List.getLast?_concat] at hd
      cases hd
      decide
  | name hstart hparts =>
      rintro d hd rfl
      rcases List.mem_cons.1 (List.mem_of_mem_getLast? hd) with rfl | hd
      · exact absurd hstart (by decide)
      · exact absurd (hparts _ hd) (by decide)

/-- A word in front of a line comes before its words. -/
theorem Lexed.word (h : Lexed line xs []) (hw : Written kind payload w)
    (hgap : ∀ d ∈ line.head?, Lexeme.isGap d) :
    Lexed (w ++ line) (⟨w, some (kind, payload)⟩ :: xs) [] := by
  obtain ⟨c, tail, rfl⟩ := List.exists_cons_of_ne_nil hw.text_ne_nil
  refine .next (Lexeme.read_of_written hw ?_ rfl) rfl h
  intro d hd
  exact kind.goesOn_of_isGap (hgap d hd)

/-- Blanks in front of a line that starts with no blank are a lexeme of their own. -/
theorem Lexed.gap (h : Lexed line xs []) (hne : w ≠ []) (hgap : ∀ d ∈ w, Lexeme.isGap d)
    (hline : ∀ d ∈ line.head?, Lexeme.isGap d = false) :
    Lexed (w ++ line) (⟨w, none⟩ :: xs) [] := by
  obtain ⟨c, tail, rfl⟩ := List.exists_cons_of_ne_nil hne
  exact .next (Lexeme.read_of_isGap hne hgap hline rfl) rfl h

/-! ### The words of a text -/

/-- The word that a lexeme is, if it is one. -/
def Lexeme.word? (x : Lexeme) : Option Word := x.content?.map fun content => ⟨content.1, content.2⟩

/-- Every line of the text consists of lexemes, and these are the given words. -/
def Reads (text : List Char) (ws : List Word) : Prop :=
  ∃ xss, LinesLexed (Text.lines text) xss ∧ xss.flatten.filterMap Lexeme.word? = ws

theorem map_word_placed (p : Position) (xs : List Lexeme) :
    (placed p xs).map Token.word = xs.filterMap Lexeme.word? := by
  induction xs generalizing p with
  | nil => rfl
  | cons x xs ih =>
      rw [placed, List.map_append, ih]
      cases hcontent : x.content? <;>
        simp [Lexeme.word?, LineCursor.token?, hcontent, Token.word]

theorem map_word_placedFrom (first : Nat) (xss : List (List Lexeme)) :
    (placedFrom first xss).map Token.word = xss.flatten.filterMap Lexeme.word? := by
  induction xss generalizing first with
  | nil => rfl
  | cons xs xss ih =>
      rw [placedFrom, List.map_append, map_word_placed, ih, List.flatten_cons,
        List.filterMap_append]

/-- A text is read as some words if its lines are. -/
theorem reads_iff {source : String} :
    Reads source.toList ws ↔
      ∃ tokens, tokenize source = .ok tokens ∧ tokens.map Token.word = ws := by
  constructor
  · rintro ⟨xss, hlexed, rfl⟩
    exact ⟨_, tokenizeFrom_ok_iff.2 ⟨xss, hlexed, rfl⟩, map_word_placedFrom 0 xss⟩
  · rintro ⟨tokens, htokens, rfl⟩
    obtain ⟨xss, hlexed, rfl⟩ := tokenizeFrom_ok_iff.1 htokens
    exact ⟨xss, hlexed, (map_word_placedFrom 0 xss).symm⟩

theorem reads_nil : Reads [] [] := ⟨[], .nil, rfl⟩

/-- A blank in front of a line makes no difference to its words. -/
theorem Lexed.blank (h : Lexed line xs []) (hc : Lexeme.isGap c) : ∃ ys, Lexed (c :: line) ys [] ∧
    ys.filterMap Lexeme.word? = xs.filterMap Lexeme.word? := by
  by_cases hline : ∀ d ∈ line.head?, Lexeme.isGap d = false
  · exact ⟨_, h.gap (w := [c]) (List.cons_ne_nil _ _) (by simpa using hc) hline, rfl⟩
  · cases h with
    | done => simp at hline
    | @next d text more _ x xs hread htext hmore =>
        -- The line starts with blanks already: the first lexeme gets longer.
        have hd : Lexeme.isGap d := by simpa using hline
        have hends := Lexeme.endsBefore_of_read hread htext
        rw [Lexeme.read_eq, if_pos hd, Except.ok.injEq] at hread
        subst hread
        obtain ⟨-, hgap, hstops⟩ := hends
        rw [htext, ← List.cons_append]
        exact ⟨_, hmore.gap (List.cons_ne_nil _ _) (List.forall_mem_cons.2 ⟨hc, hgap⟩) hstops, rfl⟩

/-- What lengthens the first line adds to its words. -/
theorem Reads.lengthen (h : Reads text ws) (added : List Word)
    (hlines : Text.lines (w ++ text) =
      (w ++ (Text.lines text).headD []) :: (Text.lines text).tail)
    (hline : ∀ xs, Lexed ((Text.lines text).headD []) xs [] →
      ∃ ys, Lexed (w ++ (Text.lines text).headD []) ys [] ∧
        ys.filterMap Lexeme.word? = added ++ xs.filterMap Lexeme.word?) :
    Reads (w ++ text) (added ++ ws) := by
  obtain ⟨xss, hlexed, rfl⟩ := h
  cases hold : Text.lines text with
  | nil =>
      rw [hold] at hlexed hlines hline
      cases hlexed
      obtain ⟨ys, hys, hwords⟩ := hline [] (.done [])
      refine ⟨[ys], ?_, by simpa using hwords⟩
      rw [hlines]
      exact .cons hys .nil
  | cons line others =>
      rw [hold] at hlexed hlines hline
      cases hlexed with
      | @cons _ xs _ xss hxs hxss =>
          obtain ⟨ys, hys, hwords⟩ := hline xs hxs
          refine ⟨ys :: xss, ?_, by simp [hwords]⟩
          rw [hlines]
          exact .cons hys hxss

/-- **Blanks and line ends in front of a text** make no difference to its words. -/
theorem Reads.blank (h : Reads text ws) (hc : c ∈ separators) : Reads (c :: text) ws := by
  rcases lines_cons_cases c text with ⟨-, heq⟩ | ⟨-, -, heq⟩ | ⟨hnewline, heq⟩
  · obtain ⟨xss, hlexed, hwords⟩ := h
    exact ⟨[] :: xss, heq ▸ .cons (.done []) hlexed, hwords⟩
  · obtain ⟨xss, hlexed, hwords⟩ := h
    exact ⟨xss, heq ▸ hlexed, hwords⟩
  · refine h.lengthen (w := [c]) [] heq ?_
    intro xs hxs
    exact hxs.blank (isGap_of_mem_separators hc hnewline)

/-- **A word in front of a text** comes before its words, if blanks or line ends are between. -/
theorem Reads.word (h : Reads text ws) (hw : Written kind payload w) (hnewline : '\n' ∉ w)
    (hblank : ∀ d ∈ text.head?, d ∈ separators) : Reads (w ++ text) (⟨kind, payload⟩ :: ws) := by
  have hlines := lines_append text hw.text_ne_nil hnewline hw.getLast?_ne_return
  refine h.lengthen [⟨kind, payload⟩] hlines ?_
  intro xs hxs
  refine ⟨_, hxs.word hw (isGap_of_mem_head? hblank), ?_⟩
  rfl

/-! ### Printed tokens -/

theorem ofNat_toUInt8 (h : c.toNat < 128) : Char.ofNat c.toUInt8.toNat = c := by
  have hbyte : c.toUInt8.toNat = c.toNat := by
    change c.val.toUInt8.toNat = c.val.toNat
    have hc : c.val.toNat < 128 := h
    rw [UInt32.toNat_toUInt8]
    omega
  rw [hbyte, Char.ofNat_toNat]

/-- **The written form of a token is a way to write it**, on one line if it was written on one. -/
theorem Written.describe (h : Written kind payload w) (hnewline : '\n' ∉ w) (p : Position) :
    Written kind payload (Token.describe ⟨kind, payload, p⟩).toList ∧
      '\n' ∉ (Token.describe ⟨kind, payload, p⟩).toList := by
  cases h with
  | symbol hkind => exact ⟨.symbol hkind, hnewline⟩
  | word hkind => exact ⟨.word hkind, hnewline⟩
  | integer _ _ hmax =>
      have hdescribe : (Token.describe
          ⟨.integer, .integer (Nat.ofDigitChars 10 w 0 : Nat), p⟩).toList =
          Nat.toDigits 10 (Nat.ofDigitChars 10 w 0) := by
        change (Nat.repr _).toList = _
        rw [Nat.repr_eq_ofList_toDigits, String.toList_ofList]
      have hdecimal : ∀ d ∈ Nat.toDigits 10 (Nat.ofDigitChars 10 w 0), d.isDigit :=
        fun _ hd => Nat.isDigit_of_mem_toDigits (by decide) (by decide) hd
      have hwritten := Written.integer Nat.toDigits_ne_nil hdecimal
        (Nat.ofDigitChars_ten_toDigits.trans_le hmax)
      rw [Nat.ofDigitChars_ten_toDigits] at hwritten
      rw [hdescribe]
      refine ⟨hwritten, ?_⟩
      intro hmem
      exact absurd (hdecimal _ hmem) (by decide)
  | @character c hquote hascii =>
      have hdescribe : (Token.describe ⟨.character, .character c.toUInt8, p⟩).toList =
          ['\'', c, '\''] := by
        change ("'" ++ String.singleton (Char.ofNat c.toUInt8.toNat) ++ "'").toList = _
        simp [ofNat_toUInt8 hascii]
      rw [hdescribe]
      exact ⟨.character hquote hascii, hnewline⟩
  | @string body hquote =>
      have hdescribe : (Token.describe ⟨.string, .string (String.ofList body), p⟩).toList =
          '"' :: body ++ ['"'] := by
        change ("\"" ++ String.ofList body ++ "\"").toList = _
        simp
      rw [hdescribe]
      exact ⟨.string hquote, hnewline⟩
  | @name c rest hstart hparts hword =>
      have hdescribe : (Token.describe ⟨.identifier, .name (String.ofList (c :: rest)), p⟩).toList =
          c :: rest := String.toList_ofList
      rw [hdescribe]
      exact ⟨.name hstart hparts hword, hnewline⟩

/-- The written forms of tokens, with separators between them: the first one behind the first
token, and so on. -/
def spaced : (Nat → String) → List Token → String
  | _, [] => ""
  | _, [t] => t.describe
  | separator, t :: u :: others =>
      t.describe ++ separator 0 ++ spaced (fun n => separator (n + 1)) (u :: others)

theorem Reads.blanks {blanks : List Char} (h : Reads text ws)
    (hblanks : ∀ c ∈ blanks, c ∈ separators) : Reads (blanks ++ text) ws := by
  induction blanks with
  | nil => exact h
  | cons c blanks ih =>
      obtain ⟨hc, hblanks⟩ := List.forall_mem_cons.1 hblanks
      exact (ih hblanks).blank hc

/-- **Tokens that can be written on a line are read off their written forms.** -/
theorem reads_spaced {tokens : List Token} {separator : Nat → String}
    (htokens : ∀ t ∈ tokens, ∃ w, Written t.kind t.payload w ∧ '\n' ∉ w)
    (hseparator : ∀ n, separator n ≠ "" ∧ ∀ c ∈ (separator n).toList, c ∈ separators) :
    Reads (spaced separator tokens).toList (tokens.map Token.word) := by
  induction tokens generalizing separator with
  | nil => exact reads_nil
  | cons t tokens ih =>
      obtain ⟨⟨w, hw, hnewline⟩, htokens⟩ := List.forall_mem_cons.1 htokens
      obtain ⟨hwritten, hline⟩ := hw.describe hnewline t.position
      cases tokens with
      | nil =>
          have hread := reads_nil.word hwritten hline (by simp)
          rwa [List.append_nil] at hread
      | cons u others =>
          obtain ⟨hne, hblanks⟩ := hseparator 0
          have hrest := (ih htokens fun n => hseparator (n + 1)).blanks hblanks
          have hread := hrest.word hwritten hline ?_
          · rw [spaced, String.toList_append, String.toList_append, List.append_assoc]
            exact hread
          · intro d hd
            have hnil : (separator 0).toList ≠ [] := by simpa using hne
            rw [List.head?_append_of_ne_nil _ hnil] at hd
            exact hblanks d (List.mem_of_mem_head? hd)

/-- **Reading undoes printing.**  The tokens of a text, printed with any blanks and line ends
between them, are read as the same tokens. -/
theorem tokenize_spaced {source : String} {tokens : List Token} {separator : Nat → String}
    (h : tokenize source = .ok tokens)
    (hseparator : ∀ n, separator n ≠ "" ∧
      ∀ c ∈ (separator n).toList, c = ' ' ∨ c = '\t' ∨ c = '\r' ∨ c = '\n') :
    ∃ again, tokenize (spaced separator tokens) = .ok again ∧
      again.map Token.word = tokens.map Token.word := by
  refine reads_iff.1 (reads_spaced ?_ ?_)
  · intro t ht
    obtain ⟨before, text, after, hline, -, hwritten, -⟩ := exists_written_of_mem h ht
    have hnewline := not_mem_of_mem_lines _ _ (List.mem_of_getElem? hline)
    refine ⟨text, hwritten, fun hmem => hnewline ?_⟩
    exact List.mem_append_left _ (List.mem_append_right _ hmem)
  · simpa [separators] using hseparator

/-- Symbols, reserved words, names and literals that were not apart, with a line end between each
two of them. -/
theorem tokenize_spaced_onePerLine : ∃ tokens, tokenize "ifX==007+'a'" = .ok tokens ∧
    spaced (fun _ => "\r\n") tokens = "if\r\nX\r\n==\r\n7\r\n+\r\n'a'" ∧
    ∃ again, tokenize (spaced (fun _ => "\r\n") tokens) = .ok again ∧
      again.map Token.word = tokens.map Token.word := by
  have hread : tokenize "ifX==007+'a'" = .ok [⟨.ifWord, .none, ⟨0, 0⟩⟩,
      ⟨.identifier, .name "X", ⟨0, 2⟩⟩, ⟨.equal, .none, ⟨0, 3⟩⟩, ⟨.integer, .integer 7, ⟨0, 5⟩⟩,
      ⟨.add, .none, ⟨0, 8⟩⟩, ⟨.character, .character 97, ⟨0, 9⟩⟩] := by decide +kernel
  refine ⟨_, hread, by decide +kernel, ?_⟩
  exact tokenize_spaced hread fun _ => ⟨by decide, by simp⟩

end FrontEnd
