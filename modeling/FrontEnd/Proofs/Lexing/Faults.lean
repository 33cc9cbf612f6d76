/-
**Where reading stops.**

A line is read in rounds, one lexeme each, and the column moves on by the bytes of the lexeme.  In
every round it stands between two characters of the line or at its end, so what is left of the line
is a text, and every round leaves less of it.  Where a lexeme cannot be read, the fault is exactly
where the column stands: what is before it is read in the same way when the text ends there, and
what is behind it has the same fault when a text starts there.  Neither is a matter of course,
because lexemes look ahead: a name ends where no character follows that continues it.

Main definitions:

* `FrontEnd.LineState`, `FrontEnd.LineState.Round`, `FrontEnd.LineState.Rounds` — the loop that
  reads a line;
* `FrontEnd.LineState.StandsIn` — the column is that of a character of the line, or of its end.

Main results:

* `FrontEnd.LineState.StandsIn.round`, `FrontEnd.LineState.standsIn_of_rounds` — what a round and
  what all of them keep;
* `FrontEnd.LineState.wellFounded_round`, `FrontEnd.LineState.exists_rounds` — the rounds end, and
  what they come to;
* `FrontEnd.Lexed.cut` — lexemes are read in the same way if the text ends behind them;
* `FrontEnd.tokenizeLines_safe` — the columns of the loop, and the places of faults.
-/

import FrontEnd.Proofs.Lexing.Lexemes
import FrontEnd.Proofs.Lexing.Written
import Mathlib.Logic.Relation

set_option relaxedAutoImplicit false
set_option autoImplicit false

namespace FrontEnd

/-- Where the loop that reads a line has come to. -/
structure LineState where
  /-- The place on the line. -/
  cursor : LineCursor
  /-- The tokens that were read on the line. -/
  tokens : List Token

namespace LineState

variable {s s' : LineState} {n : Nat} {line : String} {cause : Cause}

/-! ### Rounds -/

/-- At the beginning of a line no token was read. -/
def ofLine (number : Nat) (line : String) : LineState := ⟨.ofLine number line.toList, []⟩

/-- In a round the lexeme at the cursor is read, and the cursor moves on behind it. -/
inductive Round : LineState → LineState → Prop where
  | read {cursor : LineCursor} {ts : List Token} {c : Char} {rest : List Char} {lexeme : Lexeme}
      (hrest : cursor.rest = c :: rest) (hread : Lexeme.read c rest = .ok lexeme) :
      Round ⟨cursor, ts⟩ ⟨cursor.advance (byteLength lexeme.text),
        ts ++ (cursor.token? lexeme).toList⟩

/-- Any number of rounds. -/
abbrev Rounds : LineState → LineState → Prop := Relation.ReflTransGen Round

/-- The lexeme at the cursor cannot be read. -/
def Fails (s : LineState) (cause : Cause) : Prop :=
  ∃ c rest, s.cursor.rest = c :: rest ∧ Lexeme.read c rest = .error cause

/-- Every round leaves less of the line, so there is no endless sequence of rounds. -/
theorem wellFounded_round : WellFounded fun s' s => Round s s' := by
  refine Subrelation.wf ?_ (measure fun s : LineState => s.cursor.rest.length).wf
  rintro _ _ ⟨hrest, hread⟩
  exact LineCursor.length_rest_advance_lt hrest hread

/-! ### Columns -/

/-- The cursor is on the line of the number, and what it has passed is a text: its column is the
number of bytes before the rest of the line. -/
def StandsIn (n : Nat) (line : String) (s : LineState) : Prop :=
  ∃ before : String, line = before ++ String.ofList s.cursor.rest ∧
    s.cursor.position = ⟨n, before.utf8ByteSize⟩

theorem utf8ByteSize_ofList (text : List Char) :
    (String.ofList text).utf8ByteSize = byteLength text := by
  induction text with
  | nil => rfl
  | cons c text ih =>
      rw [String.ofList_cons, String.utf8ByteSize_append, String.utf8ByteSize_singleton, ih,
        byteLength_cons]

theorem standsIn_ofLine (n : Nat) (line : String) : (ofLine n line).StandsIn n line :=
  ⟨"", by simp [ofLine, LineCursor.ofLine], rfl⟩

/-- **A round leads from one character boundary to another.** -/
theorem StandsIn.round (h : s.StandsIn n line) (hround : s.Round s') : s'.StandsIn n line := by
  cases hround with
  | @read cursor ts c rest lexeme hrest hread =>
      obtain ⟨position, left⟩ := cursor
      obtain ⟨before, hline, hposition⟩ := h
      simp only at hrest hline hposition
      obtain ⟨more, hmore⟩ := Lexeme.read_isPrefixOf hread
      rw [hrest, ← hmore] at hline
      -- the lexeme goes over from the rest of the line to what was passed
      refine ⟨before ++ String.ofList lexeme.text, ?_, ?_⟩
      · rw [hrest, ← hmore, LineCursor.advance_append, hline, String.ofList_append,
          String.append_assoc]
      · rw [hrest, ← hmore, LineCursor.advance_append, hposition, Position.advance,
          String.utf8ByteSize_append, utf8ByteSize_ofList]

/-- All rounds do. -/
theorem standsIn_of_rounds (h : (ofLine n line).Rounds s) : s.StandsIn n line := by
  induction h with
  | refl => exact standsIn_ofLine n line
  | tail _ hround ih => exact ih.round hround

/-- The rest of a line can be taken where the cursor stands. -/
theorem StandsIn.isValid (h : s.StandsIn n line) :
    String.Pos.Raw.IsValid line ⟨s.cursor.position.column⟩ := by
  obtain ⟨before, hline, hposition⟩ := h
  rw [hposition]
  exact String.Pos.Raw.isValid_iff_exists_append.2 ⟨before, _, hline, rfl⟩

/-! ### Outcomes -/

/-- The lexemes of a text are read round by round. -/
theorem rounds_of_lexed {text rest : List Char} {xs : List Lexeme} (h : Lexed text xs rest)
    (p : Position) (ts : List Token) :
    Rounds ⟨⟨p, text⟩, ts⟩ ⟨⟨p.advance (textOf xs), rest⟩, ts ++ placed p xs⟩ := by
  induction h generalizing p ts with
  | done text =>
      rw [placed, List.append_nil]
      exact .refl
  | @next c text more rest x xs hread htext _ ih =>
      have hround : Round ⟨⟨p, c :: text⟩, ts⟩
          ⟨⟨p.advance x.text, more⟩, ts ++ (LineCursor.token? ⟨p, x.text⟩ x).toList⟩ := by
        rw [← LineCursor.advance_append, ← htext]
        exact .read rfl hread
      have hlater := ih (p.advance x.text) (ts ++ (LineCursor.token? ⟨p, x.text⟩ x).toList)
      rw [Position.advance_advance, List.append_assoc] at hlater
      exact .head hround hlater

/-- **What the rounds come to.**  They lead to the end of the line or to a lexeme that cannot be
read, and that is the outcome of the line. -/
theorem exists_rounds (n : Nat) (line : String) : ∃ s, (ofLine n line).Rounds s ∧
    (s.cursor.rest = [] ∧ (LineCursor.ofLine n line.toList).tokens = .ok s.tokens ∨
      ∃ cause, s.Fails cause ∧
        (LineCursor.ofLine n line.toList).tokens = .error (cause.at s.cursor.position)) := by
  obtain ⟨xs, rest, hlexed, hrest⟩ := exists_lexed line.toList
  refine ⟨_, rounds_of_lexed hlexed ⟨n, 0⟩ [], ?_⟩
  have htokens := LineCursor.tokens_lexed hlexed ⟨n, 0⟩
  rcases hrest with rfl | ⟨c, tail, cause, rfl, hread⟩
  · refine .inl ⟨rfl, htokens.trans ?_⟩
    rw [LineCursor.tokens_nil]
    simp [Except.map]
  · refine .inr ⟨cause, ⟨c, tail, rfl, hread⟩, htokens.trans ?_⟩
    rw [LineCursor.tokens_of_read_error hread]
    rfl

end LineState

/-! ### Cutting a text -/

variable {x : Lexeme} {xs : List Lexeme} {text more rest : List Char} {e : Error}

/-- A lexeme that ends before a text ends before the beginning of that text. -/
theorem Lexeme.EndsBefore.of_append (h : x.EndsBefore (more ++ rest)) : x.EndsBefore more := by
  have hhead : ∀ d ∈ more.head?, d ∈ (more ++ rest).head? := by
    intro d hd
    rw [List.head?_append, Option.mem_def.1 hd]
    rfl
  obtain ⟨text, content?⟩ := x
  cases content? with
  | none => exact ⟨h.1, h.2.1, fun d hd => h.2.2 d (hhead d hd)⟩
  | some content => exact ⟨h.1, fun d hd => h.2 d (hhead d hd)⟩

/-- **Lexemes are read in the same way if the text ends behind them.** -/
theorem Lexed.cut (h : Lexed text xs rest) : Lexed (textOf xs) xs [] := by
  induction h with
  | done text => exact .done []
  | @next c text more rest x xs hread htext hmore ih =>
      have hends : x.EndsBefore (textOf xs) :=
        Lexeme.EndsBefore.of_append (hmore.text_eq ▸ Lexeme.endsBefore_of_read hread htext)
      obtain ⟨tail, htail, -⟩ := exists_tail (Lexeme.read_text_ne_nil hread) htext
      have hcut : c :: (tail ++ textOf xs) = x.text ++ textOf xs := by rw [htail, List.cons_append]
      rw [textOf_cons, ← hcut]
      exact .next ((Lexeme.read_ok_iff hcut).2 hends) hcut ih

/-! ### Faults -/

/-- Lines are read one after the other. -/
theorem tokenizeFrom_append {first : Nat} {lines others : List (List Char)} {ts us : List Token}
    (h : tokenizeFrom first lines = .ok ts)
    (hothers : tokenizeFrom (first + lines.length) others = .ok us) :
    tokenizeFrom first (lines ++ others) = .ok (ts ++ us) := by
  induction lines generalizing first ts with
  | nil =>
      cases h
      exact hothers
  | cons line lines ih =>
      rw [tokenizeFrom] at h
      split at h
      · cases h
      · next here hhere =>
          split at h
          · cases h
          · next later hlater =>
              cases h
              have hall := ih hlater (by rwa [Nat.add_assoc, Nat.add_comm 1])
              simp only [List.cons_append, tokenizeFrom, hhere, hall, List.append_assoc]

/-- **Lines are refused because of the first of them that cannot be read.** -/
theorem exists_of_tokenizeFrom_error {first : Nat} {lines : List (List Char)}
    (h : tokenizeFrom first lines = .error e) :
    ∃ n line ts, lines[n]? = some line ∧ tokenizeFrom first (lines.take n) = .ok ts ∧
      (LineCursor.ofLine (first + n) line).tokens = .error e := by
  induction lines generalizing first with
  | nil => cases h
  | cons line lines ih =>
      rw [tokenizeFrom] at h
      split at h
      · next e' he =>
          cases h
          exact ⟨0, line, [], rfl, rfl, he⟩
      · next here hhere =>
          split at h
          · next e' he =>
              cases h
              obtain ⟨n, other, ts, hn, hbefore, herror⟩ := ih he
              refine ⟨n + 1, other, here ++ ts, hn, ?_, ?_⟩
              · simp only [List.take_succ_cons, tokenizeFrom, hhere, hbefore]
              · rwa [Nat.add_right_comm, Nat.add_assoc] at herror
          · cases h

/-- A text cut at a place where a lexeme cannot be read: what is before the place has the tokens that
were read, and what is behind it has the same fault. -/
theorem tokenizeLines_of_cut {lines : List String} {cause : Cause} {l : Nat} {line : String}
    {earlier : List Token} {c : Char} {tail : List Char}
    (hearlier : tokenizeLines (lines.take l) = .ok earlier) (hline : lines[l]? = some line)
    (h : Lexed line.toList xs (c :: tail)) (hread : Lexeme.read c tail = .error cause) :
    line = String.ofList (textOf xs) ++ String.ofList (c :: tail) ∧
      tokenizeLines (lines.take l ++ [String.ofList (textOf xs)]) =
        .ok (earlier ++ placed ⟨l, 0⟩ xs) ∧
      tokenizeLines [String.ofList (c :: tail)] = .error (cause.at .start) := by
  refine ⟨?_, ?_, ?_⟩
  · rw [← String.ofList_append, ← h.text_eq, String.ofList_toList]
  · have hlength : ((lines.take l).map String.toList).length = l := by
      rw [List.length_map, List.length_take]
      exact Nat.min_eq_left (Nat.le_of_lt (List.getElem?_eq_some_iff.1 hline).1)
    have hbefore := LineCursor.tokens_ok_iff (p := ⟨l, 0⟩).2 ⟨xs, h.cut, rfl⟩
    rw [tokenizeLines, List.map_append]
    refine tokenizeFrom_append hearlier ?_
    rw [Nat.zero_add, hlength, List.map_singleton, String.toList_ofList]
    simp only [tokenizeFrom, LineCursor.ofLine, hbefore, List.append_nil]
  · have hafter := LineCursor.tokens_of_read_error hread .start
    rw [Position.start] at hafter
    rw [tokenizeLines, List.map_singleton, String.toList_ofList]
    simp only [tokenizeFrom, LineCursor.ofLine, hafter]
    rfl

open LineState in
/-- **Reading a text is safe, and the places of faults are exact.**  There is no endless sequence of
rounds, every round on a line leaves the column between two characters of it or at its end, and the
rounds lead to the outcome of the line.  If some lines are refused, then at a place on one of them:
the lines before it and the beginning of this one up to the place have tokens, namely those that
were read until then, and the rest of the line on its own has the same fault at its beginning. -/
theorem tokenizeLines_safe (lines : List String) :
    (WellFounded fun s' s => Round s s') ∧
      (∀ n line, lines[n]? = some line →
        (∀ s, (ofLine n line).Rounds s → s.StandsIn n line ∧
          String.Pos.Raw.IsValid line ⟨s.cursor.position.column⟩) ∧
        ∃ s, (ofLine n line).Rounds s ∧
          (s.cursor.rest = [] ∧ (LineCursor.ofLine n line.toList).tokens = .ok s.tokens ∨
            ∃ cause : Cause, s.Fails cause ∧
              (LineCursor.ofLine n line.toList).tokens = .error (cause.at s.cursor.position))) ∧
      ∀ e, tokenizeLines lines = .error e →
        ∃ (l : Nat) (before after : String) (cause : Cause) (earlier : List Token) (s : LineState),
          lines[l]? = some (before ++ after) ∧ e = cause.at ⟨l, before.utf8ByteSize⟩ ∧
            (ofLine l (before ++ after)).Rounds s ∧
            s.cursor = ⟨⟨l, before.utf8ByteSize⟩, after.toList⟩ ∧
            tokenizeLines (lines.take l) = .ok earlier ∧
            tokenizeLines (lines.take l ++ [before]) = .ok (earlier ++ s.tokens) ∧
            tokenizeLines [after] = .error (cause.at .start) := by
  refine ⟨wellFounded_round, fun n line _ => ⟨fun s hs => ?_, exists_rounds n line⟩, ?_⟩
  · have hstands := standsIn_of_rounds hs
    exact ⟨hstands, hstands.isValid⟩
  · intro e he
    obtain ⟨l, chars, earlier, hchars, hearlier, herror⟩ := exists_of_tokenizeFrom_error he
    rw [List.getElem?_map, Option.map_eq_some_iff] at hchars
    obtain ⟨line, hline, rfl⟩ := hchars
    rw [Nat.zero_add] at herror
    obtain ⟨xs, c, tail, cause, hlexed, hread, rfl⟩ := LineCursor.tokens_error_iff.1 herror
    have hearlier' : tokenizeLines (lines.take l) = .ok earlier := by
      rw [tokenizeLines, List.map_take, hearlier]
    obtain ⟨hcut, hbefore, hafter⟩ := tokenizeLines_of_cut hearlier' hline hlexed hread
    have hrounds := rounds_of_lexed hlexed ⟨l, 0⟩ []
    have hplace : Position.advance ⟨l, 0⟩ (textOf xs) =
        ⟨l, (String.ofList (textOf xs)).utf8ByteSize⟩ := by
      rw [utf8ByteSize_ofList, Position.advance, Nat.zero_add]
    refine ⟨l, _, _, cause, earlier, _, hcut ▸ hline, ?_, hcut ▸ hrounds, ?_, hearlier', hbefore,
      hafter⟩
    · rw [hplace]
    · rw [hplace, String.toList_ofList]

/-- The fault is behind characters of several bytes and a reserved word. -/
theorem tokenizeLines_safe_behindWord :
    tokenizeLines ["var n Int;", "\"é\" if§ n"] =
        .error ((Cause.unrecognisedToken "§").at ⟨1, 7⟩) ∧
      ∃ before after earlier here, "\"é\" if§ n" = before ++ after ∧ before.utf8ByteSize = 7 ∧
        tokenizeLines ["var n Int;"] = .ok earlier ∧
        tokenizeLines ["var n Int;", before] = .ok (earlier ++ here) ∧
        tokenizeLines [after] = .error ((Cause.unrecognisedToken "§").at .start) := by
  have hread : tokenizeLines ["var n Int;", "\"é\" if§ n"] =
      .error ((Cause.unrecognisedToken "§").at ⟨1, 7⟩) := by decide +kernel
  obtain ⟨-, -, hfault⟩ := tokenizeLines_safe ["var n Int;", "\"é\" if§ n"]
  obtain ⟨l, before, after, cause, earlier, s, hline, he, -, -, hearlier, hbefore, hafter⟩ :=
    hfault _ hread
  obtain ⟨rfl, hplace⟩ := Error.mk.inj he
  obtain ⟨rfl, hcolumn⟩ := Position.mk.inj (Option.some.inj hplace.1)
  exact ⟨hread, before, after, earlier, s.tokens, Option.some.inj hline, hcolumn.symm, hearlier,
    hbefore, hafter⟩

end FrontEnd
