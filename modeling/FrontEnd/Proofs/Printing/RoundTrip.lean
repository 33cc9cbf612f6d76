/-
**Reading undoes printing.**

A program that was read and then printed is read again as the same program: the same nodes and
scopes with the same numbers, and the same references pending.  Only positions are lost.  Reading
spells trees, the nodes give the trees back, the words of a tree spell it, and nodes are made from
trees without regard to positions; the four facts put together close the circle.

Main results:

* `FrontEnd.parseFile_print` — the printed tokens at the beginning of the text;
* `FrontEnd.parseFile_printed` — the printed tokens wherever they stand.
-/

import FrontEnd.Proofs.Printing.ReadingBack
import FrontEnd.Proofs.Printing.Respelling
import FrontEnd.Proofs.Printing.Shortest

set_option relaxedAutoImplicit false
set_option autoImplicit false

namespace FrontEnd

namespace Syntax

/-! ### Words of trees without positions -/

namespace Expr

@[simp] theorem power_unplaced (e : Expr) : e.unplaced.power = e.power := by
  cases e <;> rfl

theorem wordsAll_unplaced_of_forall (es : List Expr)
    (hes : ∀ e ∈ es, e.unplaced.words = e.words) : wordsAll (unplacedAll es) = wordsAll es := by
  induction es with
  | nil => rfl
  | cons e es ih =>
      rw [unplacedAll, wordsAll, wordsAll, hes e List.mem_cons_self,
        ih fun e' he' => hes e' (List.mem_cons_of_mem e he')]

@[simp] theorem words_unplaced (e : Expr) : e.unplaced.words = e.words := by
  induction e with
  | literal value place => rfl
  | name n => rfl
  | not place operand ih => simp [unplaced, words, ih]
  | binary operator place left right ihLeft ihRight => simp [unplaced, words, ihLeft, ihRight]
  | call callee arguments ihCallee ihArguments =>
      simp [unplaced, words, ihCallee, wordsAll_unplaced_of_forall arguments ihArguments]

@[simp] theorem wordsAll_unplaced (es : List Expr) : wordsAll (unplacedAll es) = wordsAll es :=
  wordsAll_unplaced_of_forall es fun e _ => words_unplaced e

end Expr

@[simp] theorem Update.words_unplaced (u : Update) : u.unplaced.words = u.words := by
  cases u <;> simp [unplaced, words]

@[simp] theorem Simple.words_unplaced (s : Simple) : s.unplaced.words = s.words := by
  cases s <;> simp [unplaced, words, Name.unplaced]

@[simp] theorem Simple.words?_unplaced (s? : Option Simple) :
    words? (s?.map unplaced) = words? s? := by
  cases s? with
  | none => rfl
  | some s => exact words_unplaced s

namespace Stmt

theorem wordsAll_unplaced_of_forall (xs : List Stmt)
    (hxs : ∀ x ∈ xs, x.unplaced.words = x.words) : wordsAll (unplacedAll xs) = wordsAll xs := by
  induction xs with
  | nil => rfl
  | cons x xs ih =>
      rw [unplacedAll, wordsAll, wordsAll, hxs x List.mem_cons_self,
        ih fun y hy => hxs y (List.mem_cons_of_mem x hy)]

/-- Positions are not printed. -/
theorem words_unplaced (s : Stmt) : s.unplaced.words = s.words := by
  induction s with
  | declare place name type => rfl
  | simple s => simp [unplaced, words]
  | branch place condition thenBlock ih =>
      simp [unplaced, words, wordsAll_unplaced_of_forall thenBlock ih]
  | branchElse place condition thenBlock elseBlock ihThen ihElse =>
      simp [unplaced, words, wordsAll_unplaced_of_forall thenBlock ihThen,
        wordsAll_unplaced_of_forall elseBlock ihElse]
  | whileLoop place condition body ih =>
      simp [unplaced, words, wordsAll_unplaced_of_forall body ih]
  | forLoop place init? condition action? body ih =>
      simp [unplaced, words, wordsAll_unplaced_of_forall body ih]
  | result place values => simp [unplaced, words]

@[simp] theorem wordsAll_unplaced (xs : List Stmt) : wordsAll (unplacedAll xs) = wordsAll xs :=
  wordsAll_unplaced_of_forall xs fun x _ => words_unplaced x

end Stmt

theorem resultWords_unplaced (types : List Name) :
    resultWords (types.map Name.unplaced) = resultWords types := by
  match types with
  | [] => rfl
  | [type] => rfl
  | type :: other :: others => simp [resultWords, Name.unplaced, List.map_map, Function.comp_def]

theorem Func.words_unplaced (f : Func) : f.unplaced.words = f.words := by
  have hparameters : (f.parameters.map Param.unplaced).map Param.words =
      f.parameters.map Param.words := by
    rw [List.map_map]
    rfl
  simp [unplaced, words, hparameters, resultWords_unplaced, Name.unplaced]

/-- How a file is written does not depend on positions. -/
theorem fileWords_unplaced (fs : List Func) : fileWords (fs.map Func.unplaced) = fileWords fs := by
  induction fs with
  | nil => rfl
  | cons f fs ih =>
      rw [fileWords, fileWords] at ih
      rw [fileWords, fileWords, List.map_cons, List.flatMap_cons, List.flatMap_cons, ih,
        Func.words_unplaced]

end Syntax

open Syntax

/-! ### Reading what was printed -/

variable {tokens : List Token} {p : Program} {d : Deferred}

/-- How the program of a file is written. -/
theorem Draft.IsReading.words {d : Draft} {fs : List Func} (h : d.IsReading fs) :
    d.program.words = fileWords fs := by
  rw [Program.words, h.trees, fileWords_unplaced]

/-- A program that was read and printed at the beginning of the text is read again without its
positions. -/
theorem parseFile_print (h : parseFile tokens = .ok (p, d)) :
    parseFile (printed p.words) = .ok (p.unplaced, d) := by
  obtain ⟨fs, hspelled, hbuild⟩ := spelled_of_parseFile h
  have hreading : (Draft.mk p d).IsReading fs := ((buildFile_initial_meets fs).of_ok hbuild).2
  have hunplaced : buildFile (fs.map Func.unplaced) Draft.initial = .ok () ⟨p.unplaced, d⟩ := by
    have hmirrors := mirrors_buildFile fs Draft.initial
    have hinitial : Draft.initial.unplaced = Draft.initial :=
      congrArg (fun program => (⟨program, {}⟩ : Draft)) Program.unplaced_initial
    rw [hbuild, hinitial] at hmirrors
    exact Run.outcome?_eq_some_iff.1 hmirrors
  rw [show p.words = fileWords fs from hreading.words]
  exact parseFile_of_spelled (fileSpelled_printed fs hspelled.formed) hunplaced

/-- **Reading undoes printing.**  A program that was read is printed with no more tokens than were
read.  Wherever they stand, they are read again as the same program: with the same declarations,
expressions, statements, scopes and functions under the same numbers, and with the same references
pending, all up to positions. -/
theorem parseFile_printed (h : parseFile tokens = .ok (p, d)) :
    p.words.length ≤ tokens.length ∧ ∀ tokens', tokens'.map Token.word = p.words →
      ∃ p', parseFile tokens' = .ok (p', d) ∧ p'.unplaced = p.unplaced := by
  constructor
  · obtain ⟨fs, hspelled, -, hreading⟩ := isReading_of_parseFile h
    rw [show p.words = fileWords fs from hreading.words]
    exact hspelled.length_le
  · intro tokens' hwords
    have hsame : SameWords (printed p.words) tokens' := by
      rw [SameWords, hwords, printed, List.map_map]
      exact List.map_id _
    obtain ⟨p', hp', heq⟩ := parseFile_of_sameWords (parseFile_print h) hsame
    exact ⟨p', hp', heq.trans p.unplaced_unplaced⟩

/-- A file with more parentheses than it needs. -/
def parenthesized : List Token :=
  tokensOf "func f(a Int) (Int) \x7b if (!(a < 1)) \x7b f((a - 1) - (a - a)); \x7d return (a); \x7d"

/-- The same file with the parentheses that it needs. -/
def unparenthesized : List Token :=
  tokensOf "func f(a Int) Int \x7b if !(a < 1) \x7b f(a - 1 - (a - a)); \x7d return a; \x7d"

/-- What is printed has the parentheses that are needed, and is read as what was printed. -/
theorem parseFile_printed_unparenthesized : ∃ p d, parseFile parenthesized = .ok (p, d) ∧
    p.words = unparenthesized.map Token.word ∧ p.words.length ≤ parenthesized.length ∧
      ∃ p', parseFile unparenthesized = .ok (p', d) ∧ p'.unplaced = p.unplaced := by
  have hprints : (parseFile parenthesized).toOption.map (fun r => r.1.words) =
      some (unparenthesized.map Token.word) := by decide +kernel
  cases h : parseFile parenthesized with
  | error e => simp [h, Except.toOption] at hprints
  | ok r =>
      obtain ⟨p, d⟩ := r
      have hwords : p.words = unparenthesized.map Token.word := by
        simpa [h, Except.toOption] using hprints
      have hread := parseFile_printed h
      exact ⟨p, d, rfl, hwords, hread.1, hread.2 unparenthesized hwords.symm⟩

end FrontEnd
