/-
**The tokens of each function.**

A file is read function by function, and each function takes its own part of the tokens.  A part
spells its function whatever stands before it or behind it; so the parts of a file in another order
are the tokens of another file, with the same functions in that order.

Main definitions:

* `FrontEnd.Parser.Segments` — the parts of the tokens that the functions of a file take.

Main results:

* `FrontEnd.Parser.exists_segments` — a file that is read has such parts;
* `FrontEnd.Parser.Segments.spelled` — the parts spell the functions.
-/

import FrontEnd.Proofs.Syntax.RetracingFile
import Mathlib.Data.List.Flatten
import Mathlib.Data.List.Perm.Basic

set_option relaxedAutoImplicit false
set_option autoImplicit false

namespace FrontEnd.Parser

open Syntax Run

variable {s s' : Parser} {fs : List Func} {ts : List Token} {segments : List (List Token)}

/-- The parts of the tokens that are taken when the functions of a file are read one after the other,
up to the end of the tokens. -/
inductive Segments : Parser → List (List Token) → Prop where
  | nil {s : Parser} : s.rest = [] → Segments s []
  | cons {s s' : Parser} {decl : DeclId} {ts : List Token} {others : List (List Token)} :
      function .standard .file s = .ok decl s' → s.rest = ts ++ s'.rest →
      Segments { s' with program := s'.program.addTopLevel decl } others →
      Segments s (ts :: others)

/-- The parts make up the tokens. -/
theorem Segments.flatten (h : Segments s segments) : segments.flatten = s.rest := by
  induction h with
  | nil hrest => exact hrest.symm
  | cons _ hrest _ ih =>
      rw [List.flatten_cons, ih, hrest]

/-- There is one way only in which the tokens fall into parts. -/
theorem Segments.unique {segments' : List (List Token)} (h : Segments s segments)
    (h' : Segments s segments') : segments = segments' := by
  induction h generalizing segments' with
  | nil hrest =>
      cases h' with
      | nil _ => rfl
      | cons hread _ _ =>
          obtain ⟨f, ts, rest, d, hts, hspelled, -, -⟩ := function_ok hread
          obtain ⟨t, us, rfl, -⟩ := exists_funcWord_of_spelled hspelled
          rw [hrest] at hts
          cases hts
  | cons hread hrest _ ih =>
      cases h' with
      | nil hnil =>
          obtain ⟨f, ts, rest, d, hts, hspelled, -, -⟩ := function_ok hread
          obtain ⟨t, us, rfl, -⟩ := exists_funcWord_of_spelled hspelled
          rw [hnil] at hts
          cases hts
      | cons hread' hrest' hothers' =>
          rw [hread] at hread'
          cases hread'
          rw [List.append_cancel_right (hrest.symm.trans hrest'), ih hothers']

/-- **A file that is read falls into parts.** -/
theorem exists_segments (h : FileSpelled fs ts) {d : Draft} (hrest : s.rest = ts)
    (hbuild : buildFile fs s.draft = .ok () d) : ∃ segments, Segments s segments := by
  induction h generalizing s with
  | nil => exact ⟨[], .nil hrest⟩
  | cons hf _ ih =>
      obtain ⟨decl, d₁, hd₁, hothers⟩ := bind_ok_iff.1 hbuild
      obtain ⟨_, d₂, hd₂, hothers⟩ := bind_ok_iff.1 hothers
      obtain rfl := modify_ok_iff.1 hd₂
      have hread := (follows_function hf .file).run hrest rfl hd₁
      obtain ⟨segments, hsegments⟩ := ih (s := { s.resume _ d₁ with
        program := d₁.program.addTopLevel decl }) rfl hothers
      exact ⟨_ :: segments, .cons hread hrest hsegments⟩

/-- **The parts spell the functions**, and the nodes of the functions are made. -/
theorem Segments.spelled (h : Segments s segments) :
    ∃ fs d, List.Forall₂ Func.Spelled fs segments ∧ buildFile fs s.draft = .ok () d := by
  induction h with
  | nil _ => exact ⟨[], _, .nil, rfl⟩
  | cons hread hrest _ ih =>
      obtain ⟨fs, d, hspelled, hbuild⟩ := ih
      obtain ⟨f, ts', rest, d₁, hts, hf, hd₁, rfl⟩ := function_ok hread
      obtain rfl := List.append_cancel_right (hrest.symm.trans hts)
      exact ⟨f :: fs, d, .cons hf hspelled, bind_ok hd₁ (bind_ok rfl hbuild)⟩

/-- Parts that spell functions make up the tokens of a file. -/
theorem fileSpelled_of_forall₂ (h : List.Forall₂ Func.Spelled fs segments) :
    FileSpelled fs segments.flatten := by
  induction h with
  | nil => exact .nil
  | cons hf _ ih => exact .cons hf ih

/-- The parts in another order spell the functions in that order. -/
theorem exists_perm_of_spelled {segments' : List (List Token)}
    (h : List.Forall₂ Func.Spelled fs segments) (hperm : segments.Perm segments') :
    ∃ fs', fs.Perm fs' ∧ FileSpelled fs' segments'.flatten := by
  have hcomp : Relation.Comp (List.Forall₂ Func.Spelled) List.Perm fs segments' :=
    ⟨segments, h, hperm⟩
  rw [List.forall₂_comp_perm_eq_perm_comp_forall₂] at hcomp
  obtain ⟨fs', hfs, hspelled⟩ := hcomp
  exact ⟨fs', hfs, fileSpelled_of_forall₂ hspelled⟩

end FrontEnd.Parser
