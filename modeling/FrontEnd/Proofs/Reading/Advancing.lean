/-
**Reading moves forward.**

The parser holds the tokens that are left.  Within all the tokens it was given, it therefore stands
at an index, and what it does can be said by means of that index: nothing moves it back or past the
end, whatever stands for an expression, a statement, a block or a function moves it forward when it
succeeds, and a file is accepted at the end of the tokens only.

This holds for all tables of a grammar: whatever the rules are that the tables name for a token, and
however tightly they bind.

Main definitions:

* `FrontEnd.Parser.IsAt` — the index at which a parser stands;
* `FrontEnd.Parser.Advances` — moving forward by at least a given number of tokens on success;
* `FrontEnd.Parser.MovesForward` — how far each part of the parser moves.

Main results:

* `FrontEnd.Parser.Reads.advances` — taking tokens from the front moves forward;
* `FrontEnd.Parser.movesForward` — each part of the parser moves forward;
* `FrontEnd.Parser.file_takesAll` — a file that is accepted is read to its end;
* `FrontEnd.Parser.reading_ends_and_moves_forward` — **reading comes to an end on all tokens, and
  moves forward on the way**.
-/

import FrontEnd.Proofs.Reading.Recursion
import FrontEnd.Proofs.Run

set_option relaxedAutoImplicit false
set_option autoImplicit false

namespace FrontEnd.Parser

open Run

variable {α : Type} {k : Nat}

/-! ### The index of a parser -/

/-- The parser stands at the index: it has the tokens from there on left. -/
def IsAt (tokens : List Token) (i : Nat) (s : Parser) : Prop :=
  i ≤ tokens.length ∧ s.rest = tokens.drop i

theorem isAt_ofTokens (tokens : List Token) : IsAt tokens 0 (.ofTokens tokens) :=
  ⟨Nat.zero_le _, rfl⟩

/-- A parser stands at one index only. -/
theorem IsAt.unique {tokens : List Token} {i j : Nat} {s : Parser} (hi : IsAt tokens i s)
    (hj : IsAt tokens j s) : i = j := by
  obtain ⟨hi, hdrop⟩ := hi
  obtain ⟨hj, hdrop'⟩ := hj
  have hlength : (tokens.drop i).length = (tokens.drop j).length := by rw [← hdrop, ← hdrop']
  rw [List.length_drop, List.length_drop] at hlength
  omega

/-- Where no token is left, the parser stands at the end. -/
theorem IsAt.eq_length {tokens : List Token} {i : Nat} {s : Parser} (h : IsAt tokens i s)
    (hnil : s.rest = []) : i = tokens.length :=
  h.unique ⟨Nat.le_refl _, by rw [hnil, List.drop_length]⟩

/-- Taking tokens from the front moves on by their number. -/
theorem IsAt.of_suffix {tokens : List Token} {i : Nat} {s s' : Parser} (h : IsAt tokens i s)
    (hsuffix : s'.rest <:+ s.rest) :
    IsAt tokens (i + (s.rest.length - s'.rest.length)) s' := by
  obtain ⟨hi, hdrop⟩ := h
  have hlength : s.rest.length = tokens.length - i := by rw [hdrop, List.length_drop]
  refine ⟨by omega, ?_⟩
  rw [← List.drop_drop, ← hdrop]
  exact List.suffix_iff_eq_drop.1 hsuffix

/-- The computation never moves back or past the end, and if it succeeds, it moves on by at least
`k` tokens. -/
def Advances (k : Nat) (m : ParseM α) : Prop :=
  ∀ tokens i s, IsAt tokens i s →
    match m s with
    | .ok _ s' => ∃ j, i + k ≤ j ∧ IsAt tokens j s'
    | .error _ s' => ∃ j, i ≤ j ∧ IsAt tokens j s'

/-- What takes tokens from the front moves forward. -/
theorem Reads.advances {m : ParseM α} (h : Reads k m) : Advances k m := by
  intro tokens i s hs
  cases hm : m s with
  | ok a s' =>
      obtain ⟨hsuffix, hlength⟩ := h.of_ok hm
      exact ⟨_, by omega, hs.of_suffix hsuffix⟩
  | error e s' => exact ⟨_, Nat.le_add_right i _, hs.of_suffix (h.of_error hm)⟩

/-! ### The parts of the parser -/

/-- No routine of the parser moves back. -/
theorem Routine.reads_run (g : Grammar) (r : Routine) : Reads 0 (Routine.run g r) := by
  cases r with
  | expression scope power => exact (reads_expression g scope power).mono (Nat.zero_le 1)
  | extension scope power left => exact reads_extend (reads_expression g) g scope power left
  | arguments scope isFirst => exact reads_separatedFrom (reads_expression g scope _) isFirst
  | parameters scope isFirst => exact reads_separatedFrom (reads_parameter scope) isFirst
  | results scope isFirst => exact reads_separatedFrom (reads_resultField scope) isFirst
  | values scope => exact reads_moreValues g scope
  | statements closed scope => exact reads_statementsFrom g closed scope
  | functions => exact reads_file g

/-- How far each part of the parser moves when it succeeds; none moves back or past the end. -/
structure MovesForward (g : Grammar) : Prop where
  expression : ∀ scope power, Advances 1 (expression g scope power)
  start : ∀ rule scope, Advances 1 (start (Parser.expression g) rule scope)
  continuation : ∀ rule scope left power,
    Advances 1 (continuation (Parser.expression g) rule scope left power)
  simple : ∀ scope, Advances 1 (simple g scope)
  statement : ∀ scope, Advances 1 (statement g scope)
  block : ∀ scope, Advances 1 (block g scope)
  typeName : ∀ scope, Advances 1 (typeName scope)
  parameters : ∀ scope, Advances 1 (parameters scope)
  results : ∀ scope, Advances 0 (results scope)
  function : ∀ scope, Advances 1 (function g scope)
  routine : ∀ r, Advances 0 (Routine.run g r)

/-- Every part of the parser moves forward. -/
theorem movesForward (g : Grammar) : MovesForward g where
  expression scope power := (reads_expression g scope power).advances
  start rule scope := (reads_start (reads_expression g) rule scope).advances
  continuation rule scope left power :=
    (reads_continuation (reads_expression g) rule scope left power).advances
  simple scope := (reads_simple g scope).advances
  statement scope := (reads_statement g scope).advances
  block scope := (reads_block g scope).advances
  typeName scope := (reads_typeName scope).advances
  parameters scope := (reads_parameters scope).advances
  results scope := (reads_results scope).advances
  function scope := (reads_function g scope).advances
  routine r := (Routine.reads_run g r).advances

/-! ### Whole files -/

/-- The functions of a file go on as long as tokens are left. -/
theorem rest_eq_nil_of_functionsUpTo {g : Grammar} {n : Nat} {s s' : Parser}
    (hn : s.rest.length ≤ n) (h : functionsUpTo g n s = .ok () s') : s'.rest = [] := by
  induction n generalizing s with
  | zero =>
      obtain ⟨_, rfl⟩ := pure_ok_iff.1 h
      exact List.length_eq_zero_iff.1 (Nat.le_zero.1 hn)
  | succ n ih =>
      rw [functionsUpTo, get_bind_apply] at h
      cases hrest : s.rest with
      | nil =>
          rw [kind?_eq_none (by simp [hrest])] at h
          obtain ⟨_, rfl⟩ := pure_ok_iff.1 h
          exact hrest
      | cons t rest =>
          have hkind : s.kind? = some t.kind := by simp [kind?, current?, hrest]
          rw [hkind] at h
          dsimp only at h
          split at h
          · obtain ⟨decl, s₁, hfunction, h⟩ := bind_ok_iff.1 h
            obtain ⟨_, s₂, hmodify, h⟩ := bind_ok_iff.1 h
            obtain ⟨_, hlength⟩ := (reads_function g .file).of_ok hfunction
            obtain rfl := modify_ok_iff.1 hmodify
            refine ih ?_ h
            change s₁.rest.length ≤ n
            omega
          · cases h

/-- A file that is accepted is read to its end. -/
theorem rest_eq_nil_of_file {g : Grammar} {s s' : Parser} (h : file g s = .ok () s') :
    s'.rest = [] := rest_eq_nil_of_functionsUpTo (Nat.le_refl _) h

/-- The parser stands behind all the tokens of a file when it accepts them, and somewhere among them
when it fails.  With the standard tables this is how `parseFile` reads. -/
def TakesAll (g : Grammar) (tokens : List Token) : Prop :=
  match file g (.ofTokens tokens) with
  | .ok _ s' => IsAt tokens tokens.length s'
  | .error _ s' => ∃ j, IsAt tokens j s'

/-- All tokens of a file are taken when it is accepted. -/
theorem file_takesAll (g : Grammar) (tokens : List Token) : TakesAll g tokens := by
  have hadvances := (reads_file g).advances tokens 0 (.ofTokens tokens) (isAt_ofTokens tokens)
  unfold TakesAll
  cases hfile : file g (.ofTokens tokens) with
  | ok u s' =>
      rw [hfile] at hadvances
      obtain ⟨j, _, hj⟩ := hadvances
      obtain rfl := hj.eq_length (rest_eq_nil_of_file hfile)
      exact hj
  | error e s' =>
      rw [hfile] at hadvances
      obtain ⟨j, _, hj⟩ := hadvances
      exact ⟨j, hj⟩

/-- **Reading comes to an end on all tokens, and moves forward on the way**: for all tables, the
parser is the one solution of the recursions that read expressions, lists, statements and files,
each of them ends from every state, every part of the parser moves forward when it succeeds, and a
file is accepted at the end of its tokens only. -/
theorem reading_ends_and_moves_forward (g : Grammar) :
    (∀ f, Routine.body g f = f ↔ f = Routine.run g) ∧
      (∀ r s, EndsWithin (Routine.body g) (2 * (s.rest.length + 1)) r s) ∧
      MovesForward g ∧ ∀ tokens, TakesAll g tokens :=
  ⟨Routine.body_eq_iff g, Routine.run_endsWithin g, movesForward g, file_takesAll g⟩

end FrontEnd.Parser
