/-
**Where the caret stands.**

A report ends in a line of the source text and, below it, a caret.  The line is shown without its
indentation, behind its number, and the caret is moved by as much.  But the column of a place counts
bytes, and what is printed consists of characters: every character before the place that is encoded
in more than one byte moves the caret to the right of the place, by the number of its further bytes.
So the caret stands below the place if and only if each character before it on its line is encoded
in one byte.

Main definitions:

* `FrontEnd.ShownAt` — the places that a report shows;
* `FrontEnd.Error.EndsIn` — the last two lines of a report.

Main results:

* `FrontEnd.Text.exists_lines_join_pair` — the last lines of a text that is printed line by line;
* `FrontEnd.Error.exists_excerpt_eq` — what is printed of a place;
* `FrontEnd.Error.report_endsIn` — **where the caret stands, and when it is below the place**.
-/

import FrontEnd.Compile
import FrontEnd.Error.Report
import FrontEnd.Proofs.Lexing.Reprinting
import FrontEnd.Proofs.Pointing.Lines
import Mathlib.Data.List.Infix

set_option relaxedAutoImplicit false
set_option autoImplicit false

namespace FrontEnd

variable {c : Char} {before after rest text line : List Char} {source : String} {p : Position}
  {e : Error}

/-! ### Characters and bytes -/

theorem length_le_byteLength (text : List Char) : text.length ≤ byteLength text := by
  induction text with
  | nil => exact Nat.le_refl 0
  | cons c text ih =>
      have hc := c.utf8Size_pos
      rw [List.length_cons, byteLength_cons]
      omega

/-- A text has as many bytes as characters if and only if each character is encoded in one byte. -/
theorem byteLength_eq_length_iff :
    byteLength text = text.length ↔ ∀ d ∈ text, d.utf8Size = 1 := by
  induction text with
  | nil => simp
  | cons c text ih =>
      have hc := c.utf8Size_pos
      have htext := length_le_byteLength text
      rw [byteLength_cons, List.length_cons, List.forall_mem_cons, ← ih]
      omega

/-! ### Lines that are printed -/

namespace Text

/-- A text that is a line as it stands when a line feed ends it. -/
structure IsLine (line : List Char) : Prop where
  /-- It is not empty. -/
  ne_nil : line ≠ []
  /-- It is one line. -/
  newline : '\n' ∉ line
  /-- It is no shorter as a line. -/
  carriage : ∀ d ∈ line.getLast?, d ≠ '\r'

theorem IsLine.lines_newline (h : IsLine line) (text : List Char) :
    lines (line ++ '\n' :: text) = line :: lines text := by
  rw [lines_append _ h.ne_nil h.newline h.carriage, Text.lines_newline]
  simp

/-- The lines behind a line feed are lines of their own. -/
theorem exists_lines_newline (before text : List Char) :
    ∃ first others, lines (before ++ '\n' :: text) = (first :: others) ++ lines text := by
  induction before with
  | nil => exact ⟨[], [], lines_newline text⟩
  | cons c before ih =>
      obtain ⟨first, others, hlines⟩ := ih
      rw [List.cons_append]
      rcases lines_cons_cases c (before ++ '\n' :: text) with ⟨-, heq⟩ | ⟨-, -, heq⟩ | ⟨-, heq⟩
      · exact ⟨[], first :: others, by rw [heq, hlines]; rfl⟩
      · exact ⟨first, others, heq.trans hlines⟩
      · exact ⟨c :: first, others, by rw [heq, hlines]; rfl⟩

/-- A line of a text as it is shown has no line feed in it. -/
theorem not_mem_of_lineAt? {n : Nat} (h : lineAt? text n = some line) : '\n' ∉ line := by
  rw [lineAt?, Option.map_eq_some_iff] at h
  obtain ⟨whole, hwhole, rfl⟩ := h
  intro hmem
  rw [dropEndWhile, List.mem_reverse] at hmem
  have hin := (List.dropWhile_sublist _).subset hmem
  exact not_mem_of_mem_lines text _ (List.mem_of_getElem? hwhole) (List.mem_reverse.1 hin)

/-- What is left of a text does not end in a character that would be left out. -/
theorem getLast?_dropEndWhile (q : Char → Bool) (text : List Char) :
    ∀ d ∈ (dropEndWhile q text).getLast?, q d = false := by
  intro d hd
  have hlast := List.head?_dropWhile_not q text.reverse
  rw [dropEndWhile, List.getLast?_reverse, Option.mem_def] at hd
  rw [hd] at hlast
  exact hlast

theorem dropEndWhile_prefix (q : Char → Bool) (text : List Char) :
    dropEndWhile q text <+: text := by
  rw [dropEndWhile, ← List.reverse_suffix, List.reverse_reverse]
  exact List.dropWhile_suffix q

/-- If there is something other than blanks behind a place, the place is left when the blanks at the
end are left out. -/
theorem exists_trimEnd_append_cons (before : List Char) (h : ∃ d ∈ c :: after, isBlank d = false) :
    ∃ rest, rest <+: after ∧ trimEnd (before ++ c :: after) = before ++ c :: rest := by
  obtain ⟨d, hd, hblank⟩ := h
  obtain ⟨between, others, heq⟩ := List.append_of_mem hd
  -- blanks are left out behind `d` only, and `d` is not before the place
  have hprefix : between ++ d :: dropEndWhile isBlank others <+: c :: after := by
    rw [heq, List.prefix_append_right_inj, List.prefix_cons_inj]
    exact dropEndWhile_prefix isBlank others
  rcases List.prefix_cons_iff.1 hprefix with hnil | ⟨rest, hrest, hafter⟩
  · simp at hnil
  · refine ⟨rest, hafter, ?_⟩
    rw [trimEnd, heq, ← List.append_assoc, dropEndWhile_append_cons isBlank _ others hblank,
      List.append_assoc, hrest]

/-- The lines of a text that is printed line by line: whatever is printed first, what is printed
behind it has lines of its own. -/
theorem exists_lines_join (first : List String) (text : List Char) :
    ∃ others, lines ((String.join (first.map (· ++ "\n"))).toList ++ text) =
      others ++ lines text := by
  induction first with
  | nil => exact ⟨[], rfl⟩
  | cons s first ih =>
      obtain ⟨others, hothers⟩ := ih
      have htext : (String.join ((s :: first).map (· ++ "\n"))).toList ++ text =
          s.toList ++ '\n' :: ((String.join (first.map (· ++ "\n"))).toList ++ text) := by
        simp [String.toList_join]
      obtain ⟨line, more, hlines⟩ := exists_lines_newline s.toList
        ((String.join (first.map (· ++ "\n"))).toList ++ text)
      refine ⟨line :: more ++ others, ?_⟩
      rw [htext, hlines, hothers, List.append_assoc]

/-- **The lines that are printed last are the last lines**, whatever was printed before. -/
theorem exists_lines_join_pair (first : List String) {s t : String} (hs : IsLine s.toList)
    (ht : IsLine t.toList) :
    ∃ others, lines (String.join ((first ++ [s, t]).map (· ++ "\n"))).toList =
      others ++ [s.toList, t.toList] := by
  have htext : (String.join ((first ++ [s, t]).map (· ++ "\n"))).toList =
      (String.join (first.map (· ++ "\n"))).toList ++
        (s.toList ++ '\n' :: (t.toList ++ '\n' :: [])) := by
    simp [String.toList_join]
  obtain ⟨others, hothers⟩ :=
    exists_lines_join first (s.toList ++ '\n' :: (t.toList ++ '\n' :: []))
  refine ⟨others, ?_⟩
  rw [htext, hothers, hs.lines_newline, ht.lines_newline, lines_nil]

end Text

/-! ### The indentation -/

/-- If the characters that start a text and satisfy `q` are no more than the characters before a
place, they are all before the place. -/
theorem takeWhile_append_cons {q : Char → Bool}
    (h : ((before ++ c :: after).takeWhile q).length ≤ before.length) :
    (before ++ c :: after).takeWhile q = before.takeWhile q := by
  induction before with
  | nil => exact List.length_eq_zero_iff.1 (Nat.le_zero.1 h)
  | cons d before ih =>
      rw [List.cons_append] at h ⊢
      cases hd : q d with
      | false => simp [hd]
      | true =>
          rw [List.takeWhile_cons_of_pos hd, List.length_cons, List.length_cons,
            Nat.add_le_add_iff_right] at h
          rw [List.takeWhile_cons_of_pos hd, List.takeWhile_cons_of_pos hd, ih h]

theorem dropWhile_append_cons {q : Char → Bool}
    (h : ((before ++ c :: after).takeWhile q).length ≤ before.length) :
    (before ++ c :: after).dropWhile q = before.dropWhile q ++ c :: after := by
  have hwhole : (before ++ c :: after).takeWhile q ++ (before ++ c :: after).dropWhile q =
      before.takeWhile q ++ (before.dropWhile q ++ c :: after) := by
    rw [List.takeWhile_append_dropWhile, ← List.append_assoc, List.takeWhile_append_dropWhile]
  rw [takeWhile_append_cons h] at hwhole
  exact List.append_cancel_left hwhole

/-- Spaces and tabs are encoded in one byte. -/
theorem byteLength_takeWhile_isIndent (text : List Char) :
    byteLength (text.takeWhile Error.isIndent) = (text.takeWhile Error.isIndent).length := by
  refine byteLength_eq_length_iff.2 fun d hd => ?_
  have hindent := List.mem_takeWhile_imp hd
  rw [Error.isIndent, Bool.or_eq_true, beq_iff_eq, beq_iff_eq] at hindent
  rcases hindent with rfl | rfl <;> rfl

/-- The indentation has no part in the difference between characters and bytes. -/
theorem byteLength_dropWhile_isIndent (before : List Char) :
    byteLength before - (before.takeWhile Error.isIndent).length =
      (before.dropWhile Error.isIndent).length + (byteLength before - before.length) := by
  have hbytes := byteLength_append (before.takeWhile Error.isIndent)
    (before.dropWhile Error.isIndent)
  have hlength : (before.takeWhile Error.isIndent ++ before.dropWhile Error.isIndent).length = _ :=
    List.length_append
  rw [List.takeWhile_append_dropWhile] at hbytes hlength
  have hindent := byteLength_takeWhile_isIndent before
  have hle := length_le_byteLength (before.dropWhile Error.isIndent)
  omega

/-! ### What a report shows of a place -/

/-- The place is that of the character `c` on a line of the source text, and a report shows it: it
is not in the indentation of the line and not in the blanks at its end. -/
structure ShownAt (source : String) (p : Position) (before : List Char) (c : Char)
    (after : List Char) : Prop where
  /-- The source text has the line. -/
  line : Text.lineAt? source.toList p.line = some (before ++ c :: after)
  /-- The character starts at the byte of the column. -/
  column : p.column = byteLength before
  /-- The place is behind the spaces and tabs that start the line. -/
  indent : ((before ++ c :: after).takeWhile Error.isIndent).length ≤ before.length
  /-- The place is before the blanks that end the line. -/
  visible : ∃ d ∈ c :: after, Text.isBlank d = false

namespace Error

/-- What is printed before a place on its line: the number of the line, and the text between the
indentation and the place. -/
def excerptFront (p : Position) (before : List Char) : List Char :=
  (toString p.userLine).toList ++ " | ".toList ++ before.dropWhile isIndent

/-- The line of the caret: beside a number of `digits` digits a gutter, and the caret behind `n`
characters. -/
def caretLine (digits n : Nat) : String :=
  alignRight (digits + 2) "|" ++ " " ++ alignRight (n + 1) "^"

/-- The last two lines of the report: the line of the place, where the character `c` is behind
`front`, and a line whose only caret is at the index `caret`. -/
def EndsIn (e : Error) (source : String) (front : List Char) (c : Char) (after : List Char)
    (caret : Nat) : Prop :=
  ∃ earlier rest last, Text.lines (e.report source).toList = earlier ++ [front ++ c :: rest, last] ∧
    rest <+: after ∧ ∀ j, last[j]? = some '^' ↔ j = caret

theorem toList_caretLine (digits n : Nat) :
    (caretLine digits n).toList =
      (List.replicate (digits + 1) ' ' ++ ['|', ' '] ++ List.replicate n ' ') ++ ['^'] := by
  simp [caretLine, alignRight, List.leftpad]

/-- There is one caret. -/
theorem getElem?_caretLine (digits n j : Nat) :
    (caretLine digits n).toList[j]? = some '^' ↔ j = digits + 3 + n := by
  have hlength : (List.replicate (digits + 1) ' ' ++ ['|', ' '] ++ List.replicate n ' ').length =
      digits + 3 + n := by
    simp
    omega
  have hnone : '^' ∉ List.replicate (digits + 1) ' ' ++ ['|', ' '] ++ List.replicate n ' ' := by
    simp
  rw [toList_caretLine, List.getElem?_append, hlength]
  split
  · next hlt =>
      exact ⟨fun h => absurd (List.mem_of_getElem? h) hnone, fun h => by omega⟩
  · next hge =>
      rw [List.getElem?_singleton]
      constructor
      · intro h
        split at h
        · omega
        · cases h
      · rintro rfl
        rw [Nat.sub_self]
        rfl

theorem length_excerptFront (p : Position) (before : List Char) :
    (excerptFront p before).length =
      (toString p.userLine).length + 3 + (before.dropWhile isIndent).length := by
  rw [excerptFront, List.length_append, List.length_append, String.length_toList]
  rfl

/-- **What is printed of a place**: its line, and a caret behind as many characters as there are
bytes between the indentation and the place. -/
theorem exists_excerpt_eq (h : ShownAt source p before c after) : ∃ rest, rest <+: after ∧
    (∀ d ∈ (c :: rest).getLast?, Text.isBlank d = false) ∧
    excerpt p (before ++ c :: after) =
      [s!"-> {p.describe}", alignRight ((toString p.userLine).length + 2) "|"] ++
        [String.ofList (excerptFront p before ++ c :: rest),
          caretLine (toString p.userLine).length
            ((before.dropWhile isIndent).length + (byteLength before - before.length))] := by
  obtain ⟨rest, hrest, htrim⟩ :=
    Text.exists_trimEnd_append_cons (before.dropWhile isIndent) h.visible
  have hlast : ∀ d ∈ (c :: rest).getLast?, Text.isBlank d = false := by
    intro d hd
    refine Text.getLast?_dropEndWhile Text.isBlank (before.dropWhile isIndent ++ c :: after) d ?_
    rw [← Text.trimEnd, htrim, List.getLast?_append_cons]
    exact hd
  have hline : toString p.userLine ++ " | " ++
      String.ofList (before.dropWhile isIndent ++ c :: rest) =
      String.ofList (excerptFront p before ++ c :: rest) := by
    rw [← String.toList_inj, String.toList_append, String.toList_append, String.toList_ofList,
      String.toList_ofList, excerptFront, List.append_assoc _ _ (c :: rest), String.toList_ofList]
    rfl
  refine ⟨rest, hrest, hlast, ?_⟩
  rw [excerpt, dropWhile_append_cons h.indent, htrim, takeWhile_append_cons h.indent, h.column,
    byteLength_dropWhile_isIndent, ← hline]
  rfl

theorem isDigit_of_mem_userLine {d : Char} (h : d ∈ (toString p.userLine).toList) :
    d.isDigit = true := by
  change d ∈ (Nat.repr p.userLine).toList at h
  rw [Nat.repr_eq_ofList_toDigits, String.toList_ofList] at h
  exact Nat.isDigit_of_mem_toDigits (by decide) (by decide) h

/-- The line of the place is printed on one line. -/
theorem isLine_excerptFront (hnewline : '\n' ∉ before ++ c :: rest)
    (hlast : ∀ d ∈ (c :: rest).getLast?, Text.isBlank d = false) :
    Text.IsLine (excerptFront p before ++ c :: rest) where
  ne_nil := by simp
  newline := by
    intro hmem
    rw [excerptFront, List.append_assoc, List.mem_append, List.mem_append] at hmem
    rcases hmem with (hnumber | hbar) | hshown
    · exact absurd (isDigit_of_mem_userLine hnumber) (by decide)
    · exact absurd hbar (by decide)
    · exact hnewline (((List.dropWhile_sublist _).append_right _).subset hshown)
  carriage := by
    intro d hd hreturn
    rw [List.getLast?_append_cons] at hd
    have hblank := hlast d hd
    rw [hreturn] at hblank
    exact absurd hblank (by decide)

/-- The line of the caret is printed on one line, too. -/
theorem isLine_caretLine (digits n : Nat) : Text.IsLine (caretLine digits n).toList := by
  rw [toList_caretLine]
  refine ⟨by simp, by simp, ?_⟩
  intro d hd
  rw [List.getLast?_concat] at hd
  cases hd
  decide

/-- **The report of a place that is shown.** -/
theorem endsIn_of_shownAt (hp : e.position? = some p) (h : ShownAt source p before c after) :
    e.EndsIn source (excerptFront p before) c after
      ((excerptFront p before).length + (byteLength before - before.length)) := by
  obtain ⟨rest, hrest, hlast, hexcerpt⟩ := exists_excerpt_eq h
  have hlines : e.reportLines source =
      e.headline :: e.describe :: excerpt p (before ++ c :: after) := by
    rw [reportLines, hp]
    dsimp only
    rw [h.line]
  -- both lines are printed as they are: they have no line feed and end in no carriage return
  have hnewline : '\n' ∉ before ++ c :: rest := by
    have hline := Text.not_mem_of_lineAt? h.line
    have hsub : (before ++ c :: rest).Sublist (before ++ c :: after) :=
      (hrest.sublist.cons_cons c).append_left before
    exact fun hmem => hline (hsub.subset hmem)
  have hcaret := isLine_caretLine (toString p.userLine).length
    ((before.dropWhile isIndent).length + (byteLength before - before.length))
  have hshown : Text.IsLine (String.ofList (excerptFront p before ++ c :: rest)).toList := by
    rw [String.toList_ofList]
    exact isLine_excerptFront hnewline hlast
  obtain ⟨earlier, hearlier⟩ := Text.exists_lines_join_pair (e.headline :: e.describe ::
    [s!"-> {p.describe}", alignRight ((toString p.userLine).length + 2) "|"]) hshown hcaret
  rw [String.toList_ofList] at hearlier
  refine ⟨earlier, rest, _, Eq.trans ?_ hearlier, hrest, ?_⟩
  · rw [report, hlines, hexcerpt]
    rfl
  · intro j
    rw [getElem?_caretLine, length_excerptFront, Nat.add_assoc _ _ (byteLength before - _)]

/-- A report has one last line. -/
theorem EndsIn.caret_eq {front : List Char} {i j : Nat} (hi : e.EndsIn source front c after i)
    (hj : e.EndsIn source front c after j) : i = j := by
  obtain ⟨_, _, last, hlines, -, hcaret⟩ := hi
  obtain ⟨_, _, last', hlines', -, hcaret'⟩ := hj
  have hlast : last = last' := by
    have h := congrArg List.getLast? (hlines.symm.trans hlines')
    simpa using h
  subst hlast
  exact (hcaret' i).1 ((hcaret i).2 rfl)

/-- **Where the caret stands.**  It stands to the right of the place by the number of the further
bytes of the characters before the place on its line.  So it is below the place if and only if each
of them is encoded in one byte. -/
theorem report_endsIn (hp : e.position? = some p) (h : ShownAt source p before c after) :
    e.EndsIn source (excerptFront p before) c after
      ((excerptFront p before).length + (byteLength before - before.length)) ∧
    (e.EndsIn source (excerptFront p before) c after (excerptFront p before).length ↔
      ∀ d ∈ before, d.utf8Size = 1) := by
  have hends := endsIn_of_shownAt hp h
  refine ⟨hends, ?_⟩
  rw [← byteLength_eq_length_iff]
  constructor
  · intro hbelow
    have heq := hends.caret_eq hbelow
    have hle := length_le_byteLength before
    omega
  · intro heq
    rw [heq, Nat.sub_self, Nat.add_zero] at hends
    exact hends

/-- The error of an indented line on which a character of two bytes stands before the place. -/
def wideError : Error := (Cause.unrecognisedToken "@").at ⟨0, 5⟩

theorem shownAt_wide : ShownAt "\t\"é\"@ " ⟨0, 5⟩ ['\t', '"', 'é', '"'] '@' [' '] where
  line := by decide +kernel
  column := by decide +kernel
  indent := by decide +kernel
  visible := ⟨'@', by decide +kernel⟩

/-- The place is at index 7 of the excerpt, and the caret at index 8 below it. -/
theorem report_endsIn_wide : compile "\t\"é\"@ " = .error wideError ∧
    wideError.position? = some ⟨0, 5⟩ ∧
    ShownAt "\t\"é\"@ " ⟨0, 5⟩ ['\t', '"', 'é', '"'] '@' [' '] ∧
    wideError.EndsIn "\t\"é\"@ " "1 | \"é\"".toList '@' [' '] 8 ∧
    ¬ wideError.EndsIn "\t\"é\"@ " "1 | \"é\"".toList '@' [' '] 7 := by
  have hreport := report_endsIn rfl shownAt_wide (e := wideError)
  have hfront : excerptFront ⟨0, 5⟩ ['\t', '"', 'é', '"'] = "1 | \"é\"".toList := by
    decide +kernel
  rw [hfront] at hreport
  refine ⟨by decide +kernel, rfl, shownAt_wide, hreport.1, ?_⟩
  intro hbelow
  have hwide : 'é'.utf8Size = 1 := hreport.2.1 hbelow 'é' (by simp)
  exact absurd hwide (by decide)

theorem compile_wide : compile "\"é\"@" = .error ((Cause.unrecognisedToken "@").at ⟨0, 4⟩) := by
  decide +kernel

/-- Not every caret is below the place that its report is about. -/
theorem not_forall_caret_below :
    ¬ ∀ (source : String) (e : Error) (p : Position) (before after : List Char) (c : Char),
      compile source = .error e → e.position? = some p → ShownAt source p before c after →
        e.EndsIn source (excerptFront p before) c after (excerptFront p before).length := by
  intro hall
  have hshown : ShownAt "\"é\"@" ⟨0, 4⟩ ['"', 'é', '"'] '@' [] :=
    ⟨by decide +kernel, by decide +kernel, by decide +kernel, ⟨'@', by decide +kernel⟩⟩
  have hbelow := hall _ _ _ _ _ _ compile_wide rfl hshown
  have hbeside := endsIn_of_shownAt (e := (Cause.unrecognisedToken "@").at ⟨0, 4⟩) rfl hshown
  exact absurd (hbelow.caret_eq hbeside) (by decide +kernel)

end Error

end FrontEnd
