/-
**Notes are never wrong.**

The types that typing notes are kept while references are resolved under them, perhaps not all of
them, and perhaps after a failure.  What was found never depends on a pending reference: a type is
found only if all names that it depends on are, and what is resolved stays.  So at any time,
whatever was asked and resolved before, an answer is the one that is found without notes, and an
expression that had types once has them from then on.

Main definitions:

* `FrontEnd.Program.Keeps` — programs that know at least what another one knows;
* `FrontEnd.Program.Step`, `FrontEnd.Program.after` — what can be done with a program after reading,
  and what is left of it;
* `FrontEnd.Program.Transparent` — programs that answer as if they had no notes.

Main results:

* `FrontEnd.Program.HasTypes.keeps` — types are kept;
* `FrontEnd.Program.Step.rightlyNoted` — every step leaves right notes;
* `FrontEnd.notes_transparent` — after any steps from a file that was read, answers do not depend on
  notes, and types that were found stay.
-/

import FrontEnd.Proofs.Resolution.Failing
import FrontEnd.Proofs.Resolution.Worklists
import FrontEnd.Proofs.Typing.Recomputing

set_option relaxedAutoImplicit false
set_option autoImplicit false

namespace FrontEnd

open Run

namespace Program

variable {p q r : Program} {id : ExprId} {ts : List DeclId}

/-! ### What is kept -/

/-- The program `q` knows what `p` knows: forms that are not pending names, types of variables, and
functions. -/
structure Keeps (p q : Program) : Prop where
  forms : ∀ id form, p.form? id = some form →
    (∀ name ref, form = .identifier name ref → ref.isPending = false) → q.form? id = some form
  variableTypes : ∀ decl type, p.variableType decl = .ok type → q.variableType decl = .ok type
  functions : ∀ decl f, p.function? decl = some f → q.function? decl = some f

theorem Keeps.refl (p : Program) : Keeps p p :=
  ⟨fun _ _ h _ => h, fun _ _ h => h, fun _ _ h => h⟩

theorem Keeps.trans (h : Keeps p q) (h' : Keeps q r) : Keeps p r where
  forms id form hform hfound := h'.forms id form (h.forms id form hform hfound) hfound
  variableTypes decl type htype := h'.variableTypes decl type (h.variableTypes decl type htype)
  functions decl f hf := h'.functions decl f (h.functions decl f hf)

theorem Keeps.fieldTypes (h : Keeps p q) {fields : List Field} {types : List DeclId}
    (htypes : p.fieldTypes fields = .ok types) : q.fieldTypes fields = .ok types := by
  induction fields generalizing types with
  | nil => exact htypes
  | cons field fields ih =>
      obtain ⟨type, others, htype, hothers, rfl⟩ := fieldTypes_cons_ok_iff.1 htypes
      exact fieldTypes_cons_ok_iff.2 ⟨type, others, h.variableTypes _ _ htype, ih hothers, rfl⟩

/-- **An expression keeps its types**, since none of them depends on a pending name. -/
theorem HasTypes.keeps (h : Keeps p q) (hts : p.HasTypes id ts) : q.HasTypes id ts := by
  induction hts with
  | literal hform htype =>
      rename_i form type
      refine .literal (h.forms _ _ hform ?_) htype
      rintro name ref rfl
      cases htype
  | var hform htype =>
      refine .var (h.forms _ _ hform ?_) (h.variableTypes _ _ htype)
      rintro name ref ⟨⟩
      rfl
  | func hform hf htypes =>
      refine .func (h.forms _ _ hform ?_) (h.functions _ _ hf) (h.fieldTypes htypes)
      rintro name ref ⟨⟩
      rfl
  | not hform _ ih => exact .not (h.forms _ _ hform (by simp)) ih
  | binary hform _ _ hop ihLeft ihRight =>
      exact .binary (h.forms _ _ hform (by simp)) ihLeft ihRight hop
  | call hform hcallee hf hparameters hcount _ htypes ih =>
      refine .call (h.forms _ _ hform (by simp)) (h.forms _ _ hcallee ?_) (h.functions _ _ hf)
        (h.fieldTypes hparameters) hcount ih (h.fieldTypes htypes)
      rintro name ref ⟨⟩
      rfl

/-- Notes make no difference to what is known. -/
theorem Noted.keeps (h : Noted p q) : Keeps p q where
  forms id form hform _ := by rw [h.form, hform]
  variableTypes decl type htype := by rw [h.variableType, htype]
  functions decl f hf := by rw [h.function?, hf]

theorem Noted.hasTypes_iff (h : Noted p q) : q.HasTypes id ts ↔ p.HasTypes id ts := by
  have hback : Keeps q p := by
    refine ⟨fun id form hform _ => ?_, fun decl type htype => ?_, fun decl f hf => ?_⟩
    · rw [← h.form, hform]
    · rw [← h.variableType, htype]
    · rw [← h.function?, hf]
  exact ⟨fun hts => hts.keeps hback, fun hts => hts.keeps h.keeps⟩

theorem function?_eq_some_iff {decl : DeclId} {f : Function} :
    p.function? decl = some f ↔ p.declaration? decl = some (.func f) := by
  unfold function?
  cases p.declaration? decl with
  | none => simp
  | some d => cases d <;> simp

/-- Resolution loses nothing. -/
theorem PartlySettled.keeps (h : PartlySettled p q) : Keeps p q where
  forms := by
    intro id form hform hfound
    rcases h.form? id with hq | ⟨name, ref, hp, hq⟩
    · rw [hq, hform]
    · rw [hform] at hp
      obtain rfl := Option.some.inj hp
      rw [hq, Reference.settle_of_not_pending (hfound name ref rfl)]
  variableTypes := by
    obtain ⟨ds, es, ss, h⟩ := h
    intro decl type htype
    obtain ⟨⟨name?, place, ref⟩, hv, hresolved⟩ := variableType_ok_iff.1 htype
    cases hresolved
    refine variableType_ok_iff.2 ⟨⟨name?, place, .resolved type⟩, ?_, rfl⟩
    rw [h.declaration, hv]
    simp [Declaration.settle]
  functions := by
    obtain ⟨ds, es, ss, h⟩ := h
    intro decl f hf
    rw [function?_eq_some_iff] at hf ⊢
    rw [h.declaration, hf]
    simp [Declaration.settle]

/-! ### Notes that are right -/

/-- Parts are older than wholes, and what is noted is right. -/
structure RightlyNoted (p : Program) : Prop where
  older : p.PartsOlder
  noted : Noted p p

/-- A program with other right notes. -/
theorem RightlyNoted.of_noted (h : RightlyNoted p) (hq : Noted p q) : RightlyNoted q where
  older := by
    refine ⟨fun id form hform => ?_, fun id s hs => ?_⟩
    · exact h.older.expressions id form (by rw [← hq.form, hform])
    · exact h.older.statements id s (by rw [← hq.statement?, hs])
  noted := by
    refine ⟨rfl, rfl, rfl, rfl, rfl, fun _ => rfl, fun _ => rfl, fun id e types he htypes => ?_⟩
    exact hq.hasTypes_iff.2 (hq.sound id e types he htypes)

/-- A program with some references settled. -/
theorem RightlyNoted.of_partlySettled (h : RightlyNoted p) (hq : PartlySettled p q) :
    RightlyNoted q where
  older := by
    refine ⟨fun id form hform => ?_, fun id s hs => ?_⟩
    · rcases hq.form? id with hsame | ⟨name, ref, -, hname⟩
      · exact h.older.expressions id form (by rw [← hsame, hform])
      · rw [hform] at hname
        cases hname
        simp [ExprForm.parts]
    · obtain ⟨s', hs', hparts⟩ := hq.parts hs
      rw [hparts]
      exact h.older.statements id s' hs'
  noted := by
    refine ⟨rfl, rfl, rfl, rfl, rfl, fun _ => rfl, fun _ => rfl, fun id e types he htypes => ?_⟩
    obtain ⟨e', he', hnote⟩ := hq.note he
    rw [hnote] at htypes
    exact (h.noted.sound id e' types he' htypes).keeps hq.keeps

/-! ### Steps -/

/-- What can be done with a program that was read, as often and in any order: asking for types,
checking a function or the whole, and resolving listed references. -/
inductive Step where
  | types (id : ExprId)
  | type (id : ExprId)
  | function (f : Function)
  | check
  | resolve (d : Deferred)

/-- What a step does, its answer left out. -/
def Step.run : Step → ProgramM Unit
  | types id => discard (typesOf id)
  | type id => discard (typeOf id)
  | function f => checkFunction f
  | check => Program.check
  | resolve d => Program.resolve d

/-- The program that is left after some steps, those that fail included. -/
def after (p : Program) (steps : List Step) : Program := steps.foldl (fun p s => left (s.run p)) p

@[simp] theorem after_append (p : Program) (steps more : List Step) :
    p.after (steps ++ more) = (p.after steps).after more := List.foldl_append

theorem Gives.left {α : Type} {m : ProgramM α} {x : Except Error α} (h : Gives p m x)
    (hp : Noted p p) : Noted p (Run.left (m p)) ∧ answer (m p) = x := by
  obtain ⟨q, hq, hrun⟩ := h p hp
  rw [hrun]
  cases x with
  | ok a => exact ⟨hq, rfl⟩
  | error e => exact ⟨hq, rfl⟩

/-- **Every step leaves right notes and loses nothing.** -/
theorem RightlyNoted.step (h : RightlyNoted p) (s : Step) :
    RightlyNoted (left (s.run p)) ∧ Keeps p (left (s.run p)) := by
  have hgives : ∀ {m : ProgramM Unit} {x}, Gives p m x →
      RightlyNoted (left (m p)) ∧ Keeps p (left (m p)) := by
    intro m x hm
    have hq := (hm.left h.noted).1
    exact ⟨h.of_noted hq, hq.keeps⟩
  cases s with
  | types id => exact hgives (gives_typesOf h.older id).discard
  | type id => exact hgives (gives_typeOf h.older id).discard
  | function f => exact hgives (gives_checkFunction h.older f)
  | check => exact hgives (gives_check h.older)
  | resolve d =>
      have hq : PartlySettled p (left (Program.resolve d p)) := by
        cases hrun : Program.resolve d p with
        | ok u q => exact (resolve_ends p d).of_ok hrun
        | error e q => exact ((resolve_ends p d).of_error hrun).1
      exact ⟨h.of_partlySettled hq, hq.keeps⟩

/-- Any steps leave right notes and lose nothing. -/
theorem RightlyNoted.after (h : RightlyNoted p) (steps : List Step) :
    RightlyNoted (p.after steps) ∧ Keeps p (p.after steps) := by
  induction steps generalizing p with
  | nil => exact ⟨h, .refl p⟩
  | cons s steps ih =>
      obtain ⟨hstep, hkeeps⟩ := h.step s
      obtain ⟨hsteps, hkeeps'⟩ := ih hstep
      exact ⟨hsteps, hkeeps.trans hkeeps'⟩

/-! ### Answers -/

/-- Programs that answer as if they had no notes. -/
structure Transparent (p : Program) : Prop where
  types : ∀ id, answer (typesOf id p) = p.freshTypes id
  type : ∀ id, answer (typeOf id p) = p.freshType id
  function : ∀ f, answer (checkFunction f p) = p.freshFunction f
  check : answer (Program.check p) = p.freshCheck

/-- **Right notes make no difference to answers.** -/
theorem RightlyNoted.transparent (h : RightlyNoted p) : Transparent p where
  types id := ((gives_typesOf h.older id).left h.noted).2
  type id := ((gives_typeOf h.older id).left h.noted).2
  function f := ((gives_checkFunction h.older f).left h.noted).2
  check := ((gives_check h.older).left h.noted).2

/-- An expression answers with its types. -/
theorem RightlyNoted.answer_types_iff (h : RightlyNoted p) :
    answer (typesOf id p) = .ok ts ↔ p.HasTypes id ts := by
  have hmeets := typesOf_meets h.older h.noted id
  rw [answer_ok_iff]
  constructor
  · rintro ⟨q, hq⟩
    exact (hmeets.of_ok hq).2.1
  · intro hts
    obtain ⟨ts', q, hq⟩ := hmeets.exists_ok ⟨ts, hts⟩
    obtain rfl := (hmeets.of_ok hq).2.1.unique hts
    exact ⟨q, hq⟩

theorem RightlyNoted.answer_type_iff (h : RightlyNoted p) {type : DeclId} :
    answer (typeOf id p) = .ok type ↔ p.HasTypes id [type] := by
  have hmeets := typeOf_meets h.older h.noted id
  rw [answer_ok_iff]
  constructor
  · rintro ⟨q, hq⟩
    exact (hmeets.of_ok hq).2.1
  · intro htype
    obtain ⟨type', q, hq⟩ := hmeets.exists_ok ⟨type, htype⟩
    obtain rfl := (hmeets.of_ok hq).2.1.type_unique htype
    exact ⟨q, hq⟩

end Program

open Program

/-- In a file that was read the types of literals are noted, and nothing else. -/
theorem Draft.IsReading.rightlyNoted {d : Draft} {fs : List Syntax.Func} (h : d.IsReading fs) :
    RightlyNoted d.program := by
  have hordered := Syntax.nodewise_ordered.earlyNodes fs Syntax.start []
  refine ⟨⟨?_, ?_⟩, rfl, rfl, rfl, rfl, rfl, fun _ => rfl, fun _ => rfl, ?_⟩
  · intro id form hform
    obtain ⟨e, he, rfl⟩ := Option.map_eq_some_iff.1 hform
    exact hordered.expressions id e (h.expression?_iff.1 he)
  · intro id s hs
    exact hordered.statements id s (h.statement?_iff.1 hs)
  · intro id e types he htypes
    obtain ⟨b, hform, rfl⟩ := hordered.notes id e types (h.expression?_iff.1 he) htypes
    exact .literal (form?_eq he) hform

/-- **Notes do not show.**  Whatever types were asked for, whatever was checked and whatever lists
were resolved since a file was read, with or without success: every question about types and every
check is answered as it would be without any notes, and an expression whose types were found keeps
them. -/
theorem notes_transparent {tokens : List Token} {p : Program} {d : Deferred}
    (h : parseFile tokens = .ok (p, d)) (steps : List Step) :
    (p.after steps).Transparent ∧
      (∀ id ts, answer (typesOf id (p.after steps)) = .ok ts →
        ∀ later, answer (typesOf id (p.after (steps ++ later))) = .ok ts) ∧
      ∀ id type, answer (typeOf id (p.after steps)) = .ok type →
        ∀ later, answer (typesOf id (p.after (steps ++ later))) = .ok [type] := by
  obtain ⟨fs, -, -, hreading⟩ := isReading_of_parseFile h
  have hright := (hreading.rightlyNoted.after steps).1
  have hstays : ∀ {id ts} later, (p.after steps).HasTypes id ts →
      answer (typesOf id (p.after (steps ++ later))) = .ok ts := by
    intro id ts later hts
    rw [after_append]
    obtain ⟨hlater, hkeeps⟩ := hright.after later
    exact hlater.answer_types_iff.2 (hts.keeps hkeeps)
  refine ⟨hright.transparent, fun id ts hts later => ?_, fun id type htype later => ?_⟩
  · exact hstays later (hright.answer_types_iff.1 hts)
  · exact hstays later (hright.answer_type_iff.1 htype)

/-- A call is asked for its types, and the file is checked, before the called function is resolved;
then the type of an argument is asked for and the function is resolved. -/
def callAskedEarly : List Step :=
  [.types ⟨3⟩, .check, .type ⟨2⟩, .resolve { identifiers := [⟨1⟩] }]

/-- The call has no types at first, but the answer then found is not spoiled by the early one. -/
theorem notes_transparent_callAskedEarly : ∃ p d, parseFile forwardCall = .ok (p, d) ∧
    (answer (typesOf ⟨3⟩ p)).toOption = none ∧
    answer (typesOf ⟨3⟩ (p.after callAskedEarly)) = .ok [] ∧
    (p.after callAskedEarly).Transparent ∧
    ∀ later, answer (typesOf ⟨3⟩ (p.after (callAskedEarly ++ later))) = .ok [] := by
  have hearly : (parseFile forwardCall).toOption.map (fun r =>
      (answer (typesOf ⟨3⟩ r.1)).toOption) = some none := by decide +kernel
  have hlate : (parseFile forwardCall).toOption.map (fun r =>
      (answer (typesOf ⟨3⟩ (r.1.after callAskedEarly))).toOption) = some (some []) := by
    decide +kernel
  cases h : parseFile forwardCall with
  | error e => simp [h, Except.toOption] at hearly
  | ok r =>
      obtain ⟨p, d⟩ := r
      obtain ⟨htransparent, hstays, -⟩ := notes_transparent h callAskedEarly
      simp only [h, Except.toOption, Option.map_some, Option.some.injEq] at hearly hlate
      have hfound : answer (typesOf ⟨3⟩ (p.after callAskedEarly)) = .ok [] := by
        cases hanswer : answer (typesOf ⟨3⟩ (p.after callAskedEarly)) with
        | error e => simp [hanswer] at hlate
        | ok ts =>
            simp only [hanswer, Option.some.injEq] at hlate
            rw [hlate]
      exact ⟨p, d, rfl, hearly, hfound, htransparent, hstays ⟨3⟩ [] hfound⟩

end FrontEnd
