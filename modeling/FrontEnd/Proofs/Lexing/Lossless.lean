/-
**Reading a text loses nothing.**

Every token is written at its place, no two of them overlap, and what lies between them is blank.
Places are counted in bytes, so all of this is said about the bytes of a line.

Main definitions:

* `FrontEnd.utf8` — the bytes of a text;
* `FrontEnd.WrittenToken` — a token and the text it is written as;
* `FrontEnd.Tiles` — written tokens that make up a line, blanks aside.

Main results:

* `FrontEnd.tiles_pieces` — the tokens of the lexemes of a line make it up;
* `FrontEnd.tokenizeLines_lossless` — so do the tokens that are read of some lines, and they come in
  the order of their places.
-/

import FrontEnd.Proofs.Lexing.Lexemes
import FrontEnd.Proofs.Lexing.Written

set_option relaxedAutoImplicit false
set_option autoImplicit false

namespace FrontEnd

variable {c : Char} {b : UInt8} {text rest more line : List Char} {x : Lexeme} {xs : List Lexeme}
  {p : Position}

/-! ### Bytes -/

/-- The bytes that encode a text. -/
def utf8 (text : List Char) : List UInt8 := text.flatMap String.utf8EncodeChar

@[simp] theorem utf8_cons (c : Char) (text : List Char) :
    utf8 (c :: text) = String.utf8EncodeChar c ++ utf8 text := rfl

@[simp] theorem utf8_append (s t : List Char) : utf8 (s ++ t) = utf8 s ++ utf8 t :=
  List.flatMap_append

@[simp] theorem length_utf8 (text : List Char) : (utf8 text).length = byteLength text := by
  induction text with
  | nil => rfl
  | cons c text ih => simp [ih]

/-- A byte of ASCII encodes a character on its own. -/
theorem toNat_of_mem_utf8EncodeChar (h : b ∈ String.utf8EncodeChar c) (hb : b.toNat < 128) :
    c.toNat = b.toNat := by
  have hc : c.val.toNat = c.toNat := rfl
  simp only [String.utf8EncodeChar, hc] at h
  -- All bytes of the longer encodings are at least 128.
  repeat' split at h
  all_goals simp only [List.mem_cons, List.not_mem_nil, or_false, ← UInt8.toNat_inj,
    UInt8.toNat_ofNat'] at h
  all_goals omega

def IsDigitByte (b : UInt8) : Prop := 0x30 ≤ b ∧ b ≤ 0x39

/-- Only the digits of ASCII have a byte of a digit in their encoding, since all bytes of longer
encodings are larger. -/
theorem isDigit_of_isDigitByte (h : b ∈ String.utf8EncodeChar c) (hb : IsDigitByte b) :
    c.isDigit := by
  obtain ⟨hlow, hhigh⟩ := hb
  rw [UInt8.le_iff_toNat_le] at hlow hhigh
  have hlow' : 48 ≤ b.toNat := hlow
  have hhigh' : b.toNat ≤ 57 := hhigh
  have hc := toNat_of_mem_utf8EncodeChar h (by omega)
  simp only [Char.isDigit, Bool.and_eq_true, decide_eq_true_eq, ge_iff_le, UInt32.le_iff_toNat_le]
  change 48 ≤ c.toNat ∧ c.toNat ≤ 57
  omega

/-- The byte before a place belongs to the character before it. -/
theorem exists_getLast?_of_getElem? {s t : List Char} {n : Nat}
    (h : (utf8 (s ++ t))[n]? = some b) (hn : n + 1 = byteLength s) :
    ∃ e ∈ s.getLast?, b ∈ String.utf8EncodeChar e := by
  rcases List.eq_nil_or_concat s with rfl | ⟨s, e, rfl⟩
  · cases hn
  · rw [List.concat_eq_append] at h hn ⊢
    rw [byteLength_append, byteLength_cons, byteLength_nil] at hn
    have he := e.utf8Size_pos
    rw [List.append_assoc, utf8_append, List.getElem?_append_right (by simp; omega),
      List.singleton_append, utf8_cons, List.getElem?_append_left (by simp; omega)] at h
    exact ⟨e, List.getLast?_concat, List.mem_of_getElem? h⟩

/-- The byte at a place belongs to the character there. -/
theorem exists_head?_of_getElem? {s t : List Char} {n : Nat}
    (h : (utf8 (s ++ t))[n]? = some b) (hn : n = byteLength s) :
    ∃ d ∈ t.head?, b ∈ String.utf8EncodeChar d := by
  rw [utf8_append, List.getElem?_append_right (by simp [hn]), length_utf8, hn, Nat.sub_self] at h
  cases t with
  | nil => cases h
  | cons d t =>
      have hd := d.utf8Size_pos
      rw [utf8_cons, List.getElem?_append_left (by simp; omega)] at h
      exact ⟨d, rfl, List.mem_of_getElem? h⟩

/-! ### Written tokens -/

/-- A token and the text it is written as. -/
structure WrittenToken where
  /-- The token. -/
  token : Token
  /-- The text. -/
  text : List Char

namespace WrittenToken

/-- The column of the first byte of the token. -/
def start (w : WrittenToken) : Nat := w.token.position.column

/-- The column behind the last byte of the token. -/
def stop (w : WrittenToken) : Nat := w.start + (utf8 w.text).length

/-- The byte of the given column belongs to the token. -/
def Covers (w : WrittenToken) (column : Nat) : Prop := w.start ≤ column ∧ column < w.stop

end WrittenToken

/-- The written tokens make up the line of the given number, blanks aside. -/
structure Tiles (number : Nat) (line : List Char) (ws : List WrittenToken) : Prop where
  /-- All tokens are on the line. -/
  onLine : ∀ w ∈ ws, w.token.position.line = number
  /-- All tokens are written as they should be. -/
  written : ∀ w ∈ ws, Written w.token.kind w.token.payload w.text
  /-- The writing of a token is what stands on the line at its place. -/
  there : ∀ w ∈ ws, utf8 w.text <+: (utf8 line).drop w.start
  /-- A token ends before the next one starts. -/
  apart : ws.Pairwise fun v w => v.stop ≤ w.start
  /-- The digits of an integer are not next to other digits. -/
  maximal : ∀ w ∈ ws, w.token.kind = .integer → ∀ column b, (utf8 line)[column]? = some b →
    column + 1 = w.start ∨ column = w.stop → ¬ IsDigitByte b
  /-- What belongs to no token is a space, a tab or a carriage return. -/
  blank : ∀ column b, (utf8 line)[column]? = some b → (∀ w ∈ ws, ¬ w.Covers column) →
    b = 0x20 ∨ b = 0x9 ∨ b = 0xD

/-! ### The tokens of a line -/

/-- The written tokens of lexemes that stand one behind the other from a place on. -/
def pieces : Position → List Lexeme → List WrittenToken
  | _, [] => []
  | p, x :: xs =>
      (LineCursor.token? ⟨p, x.text⟩ x).toList.map (⟨·, x.text⟩) ++ pieces (p.advance x.text) xs

theorem map_token_pieces (p : Position) (xs : List Lexeme) :
    (pieces p xs).map WrittenToken.token = placed p xs := by
  induction xs generalizing p with
  | nil => rfl
  | cons x xs ih => simp [pieces, placed, ih, Function.comp_def]

/-- Every written token is one of the lexemes, placed behind those before it. -/
theorem exists_of_mem_pieces {w : WrittenToken} (h : w ∈ pieces p xs) :
    ∃ before x after, xs = before ++ x :: after ∧
      x.content? = some (w.token.kind, w.token.payload) ∧
      w.token.position = p.advance (textOf before) ∧ w.text = x.text := by
  induction xs generalizing p with
  | nil => cases h
  | cons x xs ih =>
      rw [pieces, List.mem_append, List.mem_map] at h
      rcases h with ⟨t, ht, rfl⟩ | h
      · obtain ⟨⟨kind, payload⟩, hcontent, rfl⟩ := Option.map_eq_some_iff.1 (Option.mem_toList.1 ht)
        exact ⟨[], x, xs, rfl, hcontent, rfl, rfl⟩
      · obtain ⟨before, y, after, rfl, hcontent, hposition, htext⟩ := ih h
        refine ⟨x :: before, y, after, rfl, hcontent, ?_, htext⟩
        rw [hposition, Position.advance_advance, textOf_cons]

/-- A lexeme on a line ends where the rest of the line follows. -/
theorem Lexed.endsBefore {before after : List Lexeme} (h : Lexed text (before ++ x :: after) rest) :
    x.EndsBefore (textOf after ++ rest) := by
  obtain ⟨mid, -, hmid⟩ := h.split
  cases hmid with
  | next hread htext hmore => exact Lexeme.endsBefore_of_read hread (hmore.text_eq ▸ htext)

/-- An integer on a line does not stand behind a digit. -/
theorem Lexed.not_isDigit {before after : List Lexeme}
    (h : Lexed text (before ++ x :: after) rest) (hdigits : ∀ d ∈ x.text, d.isDigit) :
    ∀ e ∈ (textOf before).getLast?, e.isDigit = false := by
  rcases List.eq_nil_or_concat before with rfl | ⟨before, y, rfl⟩
  · simp
  · have hx : x.text ≠ [] := h.text_ne_nil x (by simp)
    have hy : y.text ≠ [] := h.text_ne_nil y (by simp)
    rw [List.concat_eq_append, List.append_assoc, List.singleton_append] at h
    obtain ⟨d, tail, htail⟩ := List.exists_cons_of_ne_nil hx
    have hends := h.endsBefore
    rw [textOf_cons, htail, List.cons_append, List.cons_append] at hends
    rw [List.concat_eq_append, textOf_append, textOf_cons, textOf_nil, List.append_nil,
      List.getLast?_append_of_ne_nil _ hy]
    exact hends.not_isDigit (hdigits d (htail ▸ List.mem_cons_self))

/-- The written tokens of a line do not overlap. -/
theorem pairwise_pieces (p : Position) (xs : List Lexeme) :
    (pieces p xs).Pairwise fun v w => v.stop ≤ w.start := by
  induction xs generalizing p with
  | nil => exact .nil
  | cons x xs ih =>
      rw [pieces, List.pairwise_append]
      refine ⟨?_, ih _, ?_⟩
      · cases LineCursor.token? ⟨p, x.text⟩ x <;> simp
      · intro v hv w hw
        obtain ⟨t, ht, rfl⟩ := List.mem_map.1 hv
        obtain ⟨content, -, rfl⟩ := Option.map_eq_some_iff.1 (Option.mem_toList.1 ht)
        obtain ⟨before, y, after, -, -, hposition, -⟩ := exists_of_mem_pieces hw
        simp [WrittenToken.stop, WrittenToken.start, hposition]

theorem isBlankByte_of_isGap (hc : Lexeme.isGap c) (h : b ∈ String.utf8EncodeChar c) :
    b = 0x20 ∨ b = 0x9 ∨ b = 0xD := by
  simp only [Lexeme.isGap, Bool.or_eq_true, beq_iff_eq] at hc
  rcases hc with (rfl | rfl) | rfl <;> revert b <;> decide +kernel

/-- A byte of a line belongs to a written token or is blank. -/
theorem covers_or_blank {n : Nat}
    (hgap : ∀ x ∈ xs, x.content? = none → ∀ d ∈ x.text, Lexeme.isGap d)
    (h : (utf8 (textOf xs))[n]? = some b) :
    (∃ w ∈ pieces p xs, w.Covers (p.column + n)) ∨ b = 0x20 ∨ b = 0x9 ∨ b = 0xD := by
  induction xs generalizing p n with
  | nil => cases h
  | cons x xs ih =>
      obtain ⟨hx, hxs⟩ := List.forall_mem_cons.1 hgap
      rw [textOf_cons, utf8_append] at h
      rcases Nat.lt_or_ge n (utf8 x.text).length with hn | hn
      · rw [List.getElem?_append_left hn] at h
        cases hcontent : x.content? with
        | none =>
            obtain ⟨d, hd, hb⟩ := List.mem_flatMap.1 (List.mem_of_getElem? h)
            exact .inr (isBlankByte_of_isGap (hx hcontent d hd) hb)
        | some content =>
            refine .inl ⟨⟨⟨content.1, content.2, p⟩, x.text⟩, ?_, ?_⟩
            · simp [pieces, LineCursor.token?, hcontent]
            · simp only [WrittenToken.Covers, WrittenToken.stop, WrittenToken.start]
              omega
      · rw [List.getElem?_append_right hn] at h
        rcases ih (p := p.advance x.text) hxs h with ⟨w, hw, hcovers⟩ | hblank
        · refine .inl ⟨w, List.mem_append_right _ hw, ?_⟩
          rw [length_utf8] at hn hcovers
          have hcolumn : (p.advance x.text).column + (n - byteLength x.text) = p.column + n := by
            simp only [Position.advance_column]
            omega
          rwa [hcolumn] at hcovers
        · exact .inr hblank

/-- A written token stands on its line as one of its lexemes. -/
theorem exists_place {number : Nat} {w : WrittenToken} (h : Lexed line xs [])
    (hw : w ∈ pieces ⟨number, 0⟩ xs) :
    ∃ before after, line = before ++ w.text ++ after ∧
      w.token.position = ⟨number, byteLength before⟩ ∧
      Written w.token.kind w.token.payload w.text ∧ Stops w.token.kind after ∧
      (w.token.kind = .integer → ∀ e ∈ before.getLast?, e.isDigit = false) := by
  obtain ⟨before, x, after, rfl, hcontent, hposition, htext⟩ := exists_of_mem_pieces hw
  have hends := h.endsBefore
  rw [Lexeme.EndsBefore, hcontent, ← htext, List.append_nil] at hends
  have hline := h.text_eq
  rw [List.append_nil, textOf_append, textOf_cons, ← List.append_assoc, ← htext] at hline
  refine ⟨textOf before, textOf after, hline, ?_, hends.1, hends.2, ?_⟩
  · rw [hposition, Position.advance, Nat.zero_add]
  · intro hkind
    refine h.not_isDigit (htext ▸ ?_)
    exact (hkind ▸ hends.1).isDigit

/-- **The tokens of a line make it up**, blanks aside. -/
theorem tiles_pieces (h : Lexed line xs []) (number : Nat) :
    Tiles number line (pieces ⟨number, 0⟩ xs) where
  onLine w hw := by
    obtain ⟨before, after, -, hposition, -⟩ := exists_place h hw
    rw [hposition]
  written w hw := by
    obtain ⟨before, after, -, -, hwritten, -⟩ := exists_place h hw
    exact hwritten
  there w hw := by
    obtain ⟨before, after, rfl, hposition, -⟩ := exists_place h hw
    rw [WrittenToken.start, hposition, utf8_append, utf8_append, List.append_assoc,
      ← length_utf8, List.drop_left]
    exact List.prefix_append _ _
  apart := pairwise_pieces _ _
  maximal w hw hkind column b hb hcolumn hdigit := by
    obtain ⟨before, after, rfl, hposition, -, hstops, hbefore⟩ := exists_place h hw
    simp only [WrittenToken.stop, WrittenToken.start, hposition, length_utf8] at hcolumn
    rcases hcolumn with hcolumn | hcolumn
    · rw [List.append_assoc] at hb
      obtain ⟨e, he, hbyte⟩ := exists_getLast?_of_getElem? hb hcolumn
      exact Bool.eq_false_iff.1 (hbefore hkind e he) (isDigit_of_isDigitByte hbyte hdigit)
    · rw [← byteLength_append] at hcolumn
      obtain ⟨d, hd, hbyte⟩ := exists_head?_of_getElem? hb hcolumn
      rw [hkind] at hstops
      exact Bool.eq_false_iff.1 (hstops d hd) (isDigit_of_isDigitByte hbyte hdigit)
  blank column b hb hfree := by
    have hgap : ∀ x ∈ xs, x.content? = none → ∀ d ∈ x.text, Lexeme.isGap d := by
      intro x hx hcontent
      obtain ⟨before, after, rfl⟩ := List.append_of_mem hx
      have hends := h.endsBefore
      rw [Lexeme.EndsBefore, hcontent] at hends
      exact hends.2.1
    rw [h.text_eq, List.append_nil] at hb
    rcases covers_or_blank (p := ⟨number, 0⟩) hgap hb with ⟨w, hw, hcovers⟩ | hblank
    · rw [Nat.zero_add] at hcovers
      exact absurd hcovers (hfree w hw)
    · exact hblank

/-! ### The tokens of some lines -/

/-- The place comes before the other one in the text. -/
def Position.Before (p q : Position) : Prop :=
  p.line < q.line ∨ p.line = q.line ∧ p.column < q.column

/-- The tokens of a line come in the order of their places. -/
theorem Tiles.pairwise {number : Nat} {ws : List WrittenToken} (h : Tiles number line ws) :
    ws.Pairwise fun v w => v.token.position.Before w.token.position := by
  refine h.apart.imp_of_mem ?_
  intro v w hv hw hapart
  have hlength : 0 < byteLength v.text := by
    obtain ⟨c, tail, htext⟩ := List.exists_cons_of_ne_nil (h.written v hv).text_ne_nil
    have hc := c.utf8Size_pos
    rw [htext, byteLength_cons]
    omega
  refine .inr ⟨(h.onLine v hv).trans (h.onLine w hw).symm, ?_⟩
  simp only [WrittenToken.stop, WrittenToken.start, length_utf8] at hapart
  omega

/-- The tokens of lines come in the order of their places. -/
theorem pairwise_flatten_of_tiles {wss : List (List WrittenToken)}
    (h : ∀ n ws, wss[n]? = some ws → ∃ line, Tiles n line ws) :
    wss.flatten.Pairwise fun v w => v.token.position.Before w.token.position := by
  rw [List.pairwise_flatten, List.pairwise_iff_getElem]
  constructor
  · intro ws hws
    obtain ⟨n, hn⟩ := List.mem_iff_getElem?.1 hws
    obtain ⟨line, htiles⟩ := h n ws hn
    exact htiles.pairwise
  · intro i j hi hj hij v hv w hw
    obtain ⟨_, hfirst⟩ := h i _ (List.getElem?_eq_getElem hi)
    obtain ⟨_, hsecond⟩ := h j _ (List.getElem?_eq_getElem hj)
    rw [Position.Before, hfirst.onLine v hv, hsecond.onLine w hw]
    exact .inl hij

/-- The tokens of the lexemes of some lines are the written tokens of these lexemes. -/
theorem map_token_flatten_pieces (first : Nat) (xss : List (List Lexeme)) :
    (xss.mapIdx fun n xs => pieces ⟨first + n, 0⟩ xs).flatten.map WrittenToken.token =
      placedFrom first xss := by
  induction xss generalizing first with
  | nil => rfl
  | cons xs xss ih =>
      have hnumber : (fun n xs => pieces ⟨first + (n + 1), 0⟩ xs) =
          fun n xs => pieces ⟨first + 1 + n, 0⟩ xs := by
        funext n xs
        rw [Nat.add_assoc, Nat.add_comm 1]
      rw [List.mapIdx_cons, List.flatten_cons, List.map_append, map_token_pieces, placedFrom,
        ← ih (first + 1), hnumber, Nat.add_zero]

/-- Every token is written on the line of its place. -/
theorem exists_written_of_mem {lines : List (List Char)} {tokens : List Token} {t : Token}
    (h : tokenizeFrom 0 lines = .ok tokens) (ht : t ∈ tokens) :
    ∃ before text after, lines[t.position.line]? = some (before ++ text ++ after) ∧
      t.position.column = byteLength before ∧ Written t.kind t.payload text ∧
      Stops t.kind after := by
  obtain ⟨xss, hlexed, rfl⟩ := tokenizeFrom_ok_iff.1 h
  rw [← map_token_flatten_pieces, List.mem_map] at ht
  obtain ⟨w, hw, rfl⟩ := ht
  obtain ⟨ws, hws, hw⟩ := List.mem_flatten.1 hw
  obtain ⟨n, hn⟩ := List.mem_iff_getElem?.1 hws
  rw [List.getElem?_mapIdx, Option.map_eq_some_iff] at hn
  obtain ⟨xs, hxs, rfl⟩ := hn
  have hlines : n < lines.length := hlexed.length_eq ▸ (List.getElem?_eq_some_iff.1 hxs).1
  have hline := List.getElem?_eq_getElem hlines
  rw [Nat.zero_add] at hw
  obtain ⟨before, after, heq, hposition, hwritten, hstops, -⟩ :=
    exists_place (hlexed.lexed hline hxs) hw
  rw [hposition]
  exact ⟨before, w.text, after, heq ▸ hline, rfl, hwritten, hstops⟩

/-- **Reading loses nothing.**  The tokens of some lines come in the order of their places, and line
by line their writings make up the lines, blanks aside. -/
theorem tokenizeLines_lossless {lines : List String} {tokens : List Token}
    (h : tokenizeLines lines = .ok tokens) :
    tokens.Pairwise (fun t u => t.position.Before u.position) ∧
      ∃ written : List (List WrittenToken), written.length = lines.length ∧
        written.flatten.map WrittenToken.token = tokens ∧
        ∀ n line ws, lines[n]? = some line → written[n]? = some ws → Tiles n line.toList ws := by
  obtain ⟨xss, hlexed, rfl⟩ := tokenizeFrom_ok_iff.1 h
  have hlength : lines.length = xss.length := List.length_map _ ▸ hlexed.length_eq
  have htiles : ∀ n line ws, lines[n]? = some line →
      (xss.mapIdx fun n xs => pieces ⟨0 + n, 0⟩ xs)[n]? = some ws → Tiles n line.toList ws := by
    intro n line ws hline hws
    rw [List.getElem?_mapIdx, Option.map_eq_some_iff] at hws
    obtain ⟨xs, hxs, rfl⟩ := hws
    rw [Nat.zero_add]
    exact tiles_pieces (hlexed.lexed (by rw [List.getElem?_map, hline]; rfl) hxs) n
  have htokens := map_token_flatten_pieces 0 xss
  refine ⟨?_, _, ?_, htokens, htiles⟩
  · rw [← htokens, List.pairwise_map]
    refine pairwise_flatten_of_tiles ?_
    intro n ws hws
    have hn : n < lines.length := by
      have := (List.getElem?_eq_some_iff.1 hws).1
      rwa [List.length_mapIdx, ← hlength] at this
    exact ⟨_, htiles n lines[n] ws (List.getElem?_eq_getElem hn) hws⟩
  · rw [List.length_mapIdx, hlength]

/-- Zeros in front, characters of several bytes and blanks at the end of a line. -/
theorem tokenizeLines_lossless_blanks :
    tokenizeLines ["\"é\" n;", "\t007\r"] = .ok [⟨.string, .string "é", ⟨0, 0⟩⟩,
        ⟨.identifier, .name "n", ⟨0, 5⟩⟩, ⟨.semicolon, .none, ⟨0, 6⟩⟩,
        ⟨.integer, .integer 7, ⟨1, 1⟩⟩] ∧
      ∃ written : List (List WrittenToken), written.length = 2 ∧
        ∀ ws, written[1]? = some ws → Tiles 1 ['\t', '0', '0', '7', '\r'] ws := by
  have hread : tokenizeLines ["\"é\" n;", "\t007\r"] = .ok [⟨.string, .string "é", ⟨0, 0⟩⟩,
      ⟨.identifier, .name "n", ⟨0, 5⟩⟩, ⟨.semicolon, .none, ⟨0, 6⟩⟩,
      ⟨.integer, .integer 7, ⟨1, 1⟩⟩] := by decide +kernel
  obtain ⟨-, written, hlength, -, htiles⟩ := tokenizeLines_lossless hread
  exact ⟨hread, written, hlength, fun ws hws => htiles 1 _ ws rfl hws⟩

end FrontEnd
