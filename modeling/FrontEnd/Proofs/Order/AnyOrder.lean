/-
**The order of functions does not matter.**

A file is accepted or refused whatever the order in which its functions stand, and the programs that
come out are the same up to the numbers of their nodes: the same functions, the same references, the
same types, and the same function to start in.  In one order a name of a function is found at once,
in another one it is pending until the whole file is read; that this makes no difference is what
resolution in two passes says.

Main definitions:

* `FrontEnd.Program.Yields` — the types that are found for an expression.

Main results:

* `FrontEnd.Program.Noted.yields_iff` — the types that are found are those of the rules;
* `FrontEnd.parse_any_order` — the functions of a file read in another order;
* `FrontEnd.analyze_any_order` — a file with its functions in another order.
-/

import FrontEnd.Proofs.Order.Retyping
import FrontEnd.Proofs.Order.Segments
import FrontEnd.Proofs.Resolution.Acceptance
import FrontEnd.Proofs.Typing.Accepted

set_option relaxedAutoImplicit false
set_option autoImplicit false

namespace FrontEnd

open Run Syntax

namespace Program

variable {p p' q q' : Program} {ρ : Renaming} {fs fs' : List Func}

/-! ### Types that are found -/

/-- The types are found for the values of the expression. -/
def Yields (p : Program) (id : ExprId) (types : List DeclId) : Prop :=
  ∃ q, typesOf id p = .ok types q

/-- In a program that notes correct types, those of the rules are found. -/
theorem Noted.yields_iff (h : Noted p q) (older : p.PartsOlder) {id : ExprId}
    {types : List DeclId} : q.Yields id types ↔ p.HasTypes id types := by
  have hmeets := typesOf_meets older h id
  constructor
  · rintro ⟨r, hr⟩
    exact (hmeets.of_ok hr).2.1
  · intro htypes
    obtain ⟨types', r, hr⟩ := hmeets.exists_ok ⟨types, htypes⟩
    obtain rfl := htypes.unique (hmeets.of_ok hr).2.1
    exact ⟨r, hr⟩

/-- Notes make no difference to what a program is. -/
theorem SameUpTo.of_noted (h : SameUpTo ρ p p') (hq : Noted p q) (hq' : Noted p' q') :
    SameUpTo ρ q q' where
  types := h.types
  declarations id := by rw [hq'.declaration?, hq.declaration?, h.declarations]
  forms id := by rw [hq'.form, hq.form, h.forms]
  positions id := by rw [hq'.position, hq.position, h.positions]
  statements id := by rw [hq'.statement?, hq.statement?, h.statements]
  topLevel := by
    rw [hq'.topLevel, hq.topLevel]
    exact h.topLevel

/-- Every expression of a well-typed program has the same types under other numbers. -/
theorem WellTyped.hasTypes_iff (h : SameUpTo ρ p p') (hrealizes : p.Realizes fs)
    (htyped : p.WellTyped) {id : ExprId} {types : List DeclId} :
    p.HasTypes id types ↔ p'.HasTypes (ρ.expr id) (types.map ρ.decl) := by
  constructor
  · exact HasTypes.rename h
  · intro htypes'
    obtain ⟨form', hform'⟩ := htypes'.form?_isSome
    rw [h.forms, Option.map_eq_some_iff] at hform'
    obtain ⟨form, hform, -⟩ := hform'
    obtain ⟨types', htypes, -⟩ := htyped.typed hrealizes hform
    have heq := (htypes.rename h).unique htypes'
    have hinjective : Function.Injective ρ.decl := fun a b hab => by
      cases a
      cases b
      exact congrArg DeclId.mk (ρ.decls.injective (DeclId.mk.inj hab))
    obtain rfl := hinjective.list_map heq
    exact htypes

/-! ### The same program, accepted -/

/-- A program that is the same up to numbers is accepted as well.  It starts in the same function and
has the same types. -/
theorem exists_analyze_of_sameUpTo {entry : DeclId} (h : p.Realizes fs) (h' : p'.Realizes fs')
    (hsame : p.SameUpTo ρ p') (hfinds : ρ.Finds (fileFunctions fs) (fileFunctions fs'))
    (hanalyze : analyze p = .ok entry q) :
    ∃ q', analyze p' = .ok (ρ.decl entry) q' ∧ q.SameUpTo ρ q' ∧
      ∀ id types, q.Yields id types ↔ q'.Yields (ρ.expr id) (types.map ρ.decl) := by
  obtain ⟨⟨htyped, -⟩, hnoted, hentry⟩ := h.analyze_meets.of_ok hanalyze
  have hentry' : (fileFunctions fs').lookup mainName = some (ρ.decl entry) := by
    rw [hfinds, hentry]
    rfl
  obtain ⟨entry', q', hanalyze'⟩ := h'.analyze_meets.exists_ok ⟨htyped.rename hsame, _, hentry'⟩
  obtain ⟨-, hnoted', hfound⟩ := h'.analyze_meets.of_ok hanalyze'
  obtain rfl : entry' = ρ.decl entry := Option.some.inj (hfound.symm.trans hentry')
  refine ⟨q', hanalyze', hsame.of_noted hnoted hnoted', fun id types => ?_⟩
  rw [hnoted.yields_iff h.partsOlder, hnoted'.yields_iff h'.partsOlder]
  exact htyped.hasTypes_iff hsame h

end Program

/-! ### Another order -/

variable {tokens : List Token} {segments segments' : List (List Token)} {p q : Program}
  {entry : DeclId}

/-- A file that is accepted falls into the parts that its functions take. -/
theorem exists_segments_of_parse (h : parse tokens = .ok p) :
    ∃ segments, (Parser.ofTokens tokens).Segments segments ∧ segments.flatten = tokens := by
  cases hfile : Parser.file .standard (.ofTokens tokens) with
  | error e s => simp [parse, parseFile, hfile] at h
  | ok u s =>
      obtain ⟨fs, d, hspelled, hbuild, -⟩ := Parser.file_ok hfile
      obtain ⟨segments, hsegments⟩ := Parser.exists_segments hspelled rfl hbuild
      exact ⟨segments, hsegments, hsegments.flatten⟩

/-- **The parts in another order are accepted**, and come to the same program up to numbers. -/
theorem parse_any_order (h : parse tokens = .ok p)
    (hsegments : (Parser.ofTokens tokens).Segments segments) (hperm : segments.Perm segments') :
    ∃ fs fs' p' ρ, p.Realizes fs ∧ parse segments'.flatten = .ok p' ∧ p'.Realizes fs' ∧
      p.SameUpTo ρ p' ∧ ρ.Finds (fileFunctions fs) (fileFunctions fs') := by
  obtain ⟨fs, d, hforall, hbuild⟩ := hsegments.spelled
  have hspelled : FileSpelled fs tokens := by
    rw [← show segments.flatten = tokens from hsegments.flatten]
    exact Parser.fileSpelled_of_forall₂ hforall
  obtain ⟨hclear, hrealizes, hparse⟩ := parse_of_spelled hspelled hbuild
  obtain ⟨hscoped, rfl⟩ := (hparse p).1 h
  have hdistinct := (fileClear_iff fs).1 hclear
  -- in the other order the names are as distinct and as declared as in the first one
  obtain ⟨fs', hfs, hspelled'⟩ := Parser.exists_perm_of_spelled hforall hperm
  have hdistinct' := hdistinct.perm hfs
  obtain ⟨p', hparse', hrealizes'⟩ :=
    exists_parse_of_spelled hspelled' hdistinct' (hscoped.perm hfs)
  obtain ⟨ρ, hmoves⟩ := Renaming.exists_moves hfs start
  have hfinds := hmoves.finds hdistinct.1 hdistinct'.1
  exact ⟨fs, fs', p', ρ, hrealizes, hparse', hrealizes',
    Program.sameUpTo_of_moves hrealizes hrealizes' hmoves hfinds, hfinds⟩

/-- **The order of functions does not matter.**  The tokens of an accepted file fall into parts, one
for each function.  In any other order the parts are the tokens of an accepted file as well, and the
programs are the same up to the numbers of their nodes, before and after their types are found:
they declare the same functions with the same signatures and bodies, refer to the same declarations,
find the same types and start in the same function. -/
theorem analyze_any_order (hparse : parse tokens = .ok p)
    (hanalyze : Program.analyze p = .ok entry q) :
    (∃ segments, (Parser.ofTokens tokens).Segments segments ∧ segments.flatten = tokens) ∧
      ∀ segments segments', (Parser.ofTokens tokens).Segments segments →
        segments.Perm segments' →
          ∃ p' q' ρ, parse segments'.flatten = .ok p' ∧
            Program.analyze p' = .ok (ρ.decl entry) q' ∧ p.SameUpTo ρ p' ∧ q.SameUpTo ρ q' ∧
              ∀ id types, q.Yields id types ↔ q'.Yields (ρ.expr id) (types.map ρ.decl) := by
  refine ⟨exists_segments_of_parse hparse, fun segments segments' hsegments hperm => ?_⟩
  obtain ⟨fs, fs', p', ρ, hrealizes, hparse', hrealizes', hsame, hfinds⟩ :=
    parse_any_order hparse hsegments hperm
  obtain ⟨q', hanalyze', hsame', hyields⟩ :=
    Program.exists_analyze_of_sameUpTo hrealizes hrealizes' hsame hfinds hanalyze
  exact ⟨p', q', ρ, hparse', hanalyze', hsame, hsame', hyields⟩

/-- A file with a function that calls one below it. -/
def calledBelow : String := "func main() \x7b f(1); \x7d func f(n Int) Int \x7b return n; \x7d"

/-- A function can stand on either side of the one that calls it. -/
theorem analyze_any_order_calledBelow : ∃ tokens p entry q, tokenize calledBelow = .ok tokens ∧
    parse tokens = .ok p ∧ Program.analyze p = .ok entry q ∧
      (∃ segments, (Parser.ofTokens tokens).Segments segments ∧ segments.flatten = tokens) ∧
        ∀ segments segments', (Parser.ofTokens tokens).Segments segments →
          segments.Perm segments' →
            ∃ p' q' ρ, parse segments'.flatten = .ok p' ∧
              Program.analyze p' = .ok (ρ.decl entry) q' ∧ p.SameUpTo ρ p' ∧ q.SameUpTo ρ q' ∧
                ∀ id types, q.Yields id types ↔ q'.Yields (ρ.expr id) (types.map ρ.decl) := by
  have hread : (compile calledBelow).toOption.isSome = true := by decide +kernel
  obtain ⟨c, hc⟩ := exists_of_isSome hread
  obtain ⟨tokens, p, htokens, hparse, hanalyze⟩ := compile_ok hc
  exact ⟨tokens, p, _, _, htokens, hparse, hanalyze, analyze_any_order hparse hanalyze⟩

end FrontEnd
