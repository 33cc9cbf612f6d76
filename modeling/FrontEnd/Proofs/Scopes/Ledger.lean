/-
**The ledger of a file.**

A name that is declared at the file level must differ from all names inside of the functions,
whichever came first.  If the name of the file came first, it is visible wherever the other one is
to be declared, so the search refuses that one.  If the nested name came first, nothing of it is
visible in the file, and the ledger has to refuse: so it must have every name of the functions and
blocks of its file, of copies, too, and no name of the file itself.

Main definitions:

* `FrontEnd.Scope.binds` — a name has a meaning in this very scope;
* `FrontEnd.ScopeTree.Guarded` — the ledgers have what they should.

Main results:

* `FrontEnd.ScopeTree.Guarded.nest`, `FrontEnd.ScopeTree.Guarded.push_copy`,
  `FrontEnd.ScopeTree.Guarded.declare` — new scopes, copies and declarations keep the ledgers;
* `FrontEnd.ScopeTree.not_binds_of_enclosingFile` — **after any calls no name is both one of a
  file and one of a function or a block in that file**.
-/

import FrontEnd.Proofs.Scopes.Calls
import FrontEnd.Proofs.Scopes.Chains

set_option relaxedAutoImplicit false
set_option autoImplicit false

namespace FrontEnd

/-! ### Names of a scope -/

/-- Whether the name has a meaning of any kind in this very scope. -/
def Scope.binds (scope : Scope) (name : String) : Bool :=
  DeclKind.all.any fun kind => (scope.get? kind name).isSome

theorem Scope.binds_iff {scope : Scope} {name : String} :
    scope.binds name = true ↔ ∃ kind, (scope.get? kind name).isSome = true := by
  simp [binds]

theorem Scope.binds_eq_false_iff {scope : Scope} {name : String} :
    scope.binds name = false ↔ ∀ kind, scope.get? kind name = none := by
  simp [binds]

/-- A scope with a further name binds that name and those that it had. -/
theorem Scope.binds_bind (scope : Scope) (b : Binding) (name : String) :
    (scope.bind b).binds name = (decide (b.name = name) || scope.binds name) := by
  rw [Bool.eq_iff_iff, binds_iff, Bool.or_eq_true, binds_iff, decide_eq_true_iff]
  simp only [get?_bind]
  constructor
  · rintro ⟨kind, h⟩
    split at h
    · next hb => exact .inl hb.2
    · exact .inr ⟨kind, h⟩
  · rintro (rfl | ⟨kind, h⟩)
    · exact ⟨b.kind, by rw [if_pos ⟨rfl, rfl⟩]; rfl⟩
    · refine ⟨kind, ?_⟩
      split
      · rfl
      · exact h

@[simp] theorem Scope.binds_note (scope : Scope) (other : String) (place : Position)
    (name : String) : (scope.note other place).binds name = scope.binds name := by
  simp [binds]

namespace ScopeTree

variable {t t' : ScopeTree} {id file target : ScopeId} {scope outer new : Scope} {kind : DeclKind}
  {name : String} {decl : DeclId} {place : Position}

/-! ### The file around a scope -/

theorem ne_file_of_local {kind : ScopeKind} (hlocal : kind.isGlobal = false) : kind ≠ .file := by
  rintro rfl
  cases hlocal

/-- The file around a function or a block is that around its parent. -/
theorem enclosingFile?_of_parent (older : t.ParentsOlder) (hscope : t.scope? id = some scope)
    (hkind : scope.kind ≠ .file) :
    t.enclosingFile? id = scope.parent?.bind t.enclosingFile? := by
  cases hparent : scope.parent? with
  | none => simp [enclosingFile?, chain_of_root hscope hparent, hkind]
  | some parent => simp [enclosingFile?, chain_of_parent older hscope hparent, hkind]

/-- A changed scope is an old one, as far as it was not changed. -/
theorem exists_of_scope?_modify {htarget : target ≠ .builtIn} {f : Scope → Scope}
    (h : (t.modify target f htarget).scope? id = some scope) :
    ∃ old, t.scope? id = some old ∧ scope = (changeAt target f (id, old)).2 := by
  rw [scope?_modify] at h
  unfold changeAt
  split at h
  · next hid =>
      obtain ⟨old, hold, rfl⟩ := Option.map_eq_some_iff.1 h
      exact ⟨old, hold, by rw [if_pos hid]⟩
  · next hid => exact ⟨scope, h, by rw [if_neg hid]⟩

/-! ### Ledgers -/

/-- The ledger of every file has all names of the functions and blocks of the file, and none of the
file itself. -/
structure Guarded (t : ScopeTree) : Prop where
  /-- Scopes are made below existing ones. -/
  older : t.ParentsOlder
  /-- The names of a function or a block are in the ledger of the file around it. -/
  noted : ∀ id scope file outer name, t.scope? id = some scope → scope.kind.isGlobal = false →
    t.enclosingFile? id = some file → t.scope? file = some outer → scope.binds name = true →
    (outer.nested.lookup name).isSome = true
  /-- A file has no name that is in its ledger. -/
  free : ∀ file outer name, t.scope? file = some outer → outer.kind = .file →
    (outer.nested.lookup name).isSome = true → outer.binds name = false

/-- Without functions there is nothing to note. -/
theorem guarded_initial : initial.Guarded where
  older := lexical_initial.parentsOlder
  noted := by
    intro id scope file outer name hscope hlocal
    have hid := index_lt_size_of_scope? hscope
    -- both scopes are global
    match id, hid with
    | ⟨0⟩, _ =>
        cases hscope
        cases hlocal
    | ⟨1⟩, _ =>
        cases hscope
        cases hlocal
  free := by
    intro file outer name houter hkind
    have hid := index_lt_size_of_scope? houter
    match file, hid with
    | ⟨0⟩, _ =>
        cases houter
        cases hkind
    | ⟨1⟩, _ =>
        cases houter
        intro hnested
        cases hnested

/-! ### New scopes -/

/-- A new scope keeps the ledgers, if its names, as far as it is a function or a block, are in the
ledger of the file around it, and its own ledger is kept. -/
theorem Guarded.push (h : t.Guarded)
    (hparent : ∀ parent, new.parent? = some parent → parent.index < t.scopes.size)
    (hnoted : ∀ parent file outer name, new.kind.isGlobal = false → new.parent? = some parent →
      t.enclosingFile? parent = some file → t.scope? file = some outer → new.binds name = true →
      (outer.nested.lookup name).isSome = true)
    (hfree : ∀ name, new.kind = .file → (new.nested.lookup name).isSome = true →
      new.binds name = false) :
    (t.push new).Guarded := by
  have older' : (t.push new).ParentsOlder := h.older.push hparent
  -- around the old scopes nothing has changed
  have hsame : ∀ {id : ScopeId} {scope : Scope}, t.scope? id = some scope →
      (t.push new).enclosingFile? id = t.enclosingFile? id := by
    intro id scope hscope
    rw [enclosingFile?, chain_push_of_some h.older older' hscope, enclosingFile?]
  have hold : ∀ {id file : ScopeId} {outer : Scope}, t.enclosingFile? id = some file →
      (t.push new).scope? file = some outer → t.scope? file = some outer := by
    intro id file outer hfile houter
    obtain ⟨outer', houter', -⟩ := scope?_of_enclosingFile? hfile
    rwa [scope?_push_of_some houter', ← houter'] at houter
  refine ⟨older', ?_, ?_⟩
  · intro id scope file outer name hscope hlocal hfile houter hbinds
    rw [scope?_push] at hscope
    split at hscope
    · next hid =>
        cases hscope
        rw [hid, enclosingFile?_of_parent older' scope?_push_self (ne_file_of_local hlocal)] at hfile
        obtain ⟨parent, hparent', hfile⟩ := Option.bind_eq_some_iff.1 hfile
        obtain ⟨around, haround⟩ : ∃ around, t.scope? parent = some around :=
          ⟨_, Array.getElem?_eq_getElem (hparent parent hparent')⟩
        rw [hsame haround] at hfile
        exact hnoted parent file outer name hlocal hparent' hfile (hold hfile houter) hbinds
    · rw [hsame hscope] at hfile
      exact h.noted id scope file outer name hscope hlocal hfile (hold hfile houter) hbinds
  · intro file outer name houter hkind hnested
    rw [scope?_push] at houter
    split at houter
    · cases houter
      exact hfree name hkind hnested
    · exact h.free file outer name houter hkind hnested

/-- An empty scope below an existing one keeps the ledgers. -/
theorem Guarded.nest (h : t.Guarded) (kind : ScopeKind) (hscope : t.scope? id = some scope) :
    (t.nest kind id).2.Guarded := by
  refine h.push ?_ ?_ ?_
  · intro parent hparent
    cases hparent
    exact index_lt_size_of_scope? hscope
  · intro parent file outer name hlocal hparent hfile houter hbinds
    cases hbinds
  · intro name hkind hnested
    cases hnested

/-- A copy keeps the ledgers: its names are in the ledger that has those of the original. -/
theorem Guarded.push_copy (h : t.Guarded) (hscope : t.scope? id = some scope) :
    (t.push scope).Guarded := by
  refine h.push ?_ ?_ ?_
  · intro parent hparent
    exact Nat.lt_trans (h.older id scope parent hscope hparent) (index_lt_size_of_scope? hscope)
  · intro parent file outer name hlocal hparent hfile houter hbinds
    have haround : t.enclosingFile? id = some file := by
      rw [enclosingFile?_of_parent h.older hscope (ne_file_of_local hlocal), hparent]
      exact hfile
    exact h.noted id scope file outer name hscope hlocal haround houter hbinds
  · exact fun name hkind hnested => h.free id scope name hscope hkind hnested

/-! ### Declarations -/

/-- A name of which nothing is visible can go into the ledger of the file around: it is none of the
names of the file. -/
theorem Guarded.noteNested (h : t.Guarded) (hfree : ∀ kind, t.search id kind name = none)
    (place : Position) : (t.noteNested id name place).Guarded := by
  unfold ScopeTree.noteNested
  split
  · next file hfile =>
      refine ⟨h.older.modify (fun scope => scope.note_parent name place) _, ?_, ?_⟩
      · intro other scope file' outer other' hscope hlocal hfile' houter hbinds
        obtain ⟨old, hold, rfl⟩ := exists_of_scope?_modify hscope
        obtain ⟨oldOuter, holdOuter, rfl⟩ := exists_of_scope?_modify houter
        rw [enclosingFile?_modify (fun scope => scope.note_parent name place)
          fun scope => scope.note_kind name place] at hfile'
        rw [changeAt_keeps Scope.kind fun scope => scope.note_kind name place] at hlocal
        rw [changeAt_keeps (·.binds other') fun scope =>
          scope.binds_note name place other'] at hbinds
        have hnoted := h.noted other old file' oldOuter other' hold hlocal hfile' holdOuter hbinds
        unfold changeAt
        split
        · exact (isSome_lookup_note oldOuter other').2 (.inr hnoted)
        · exact hnoted
      · intro file' outer other' houter hkind hnested
        obtain ⟨old, hold, rfl⟩ := exists_of_scope?_modify houter
        rw [changeAt_keeps Scope.kind fun scope => scope.note_kind name place] at hkind
        rw [changeAt_keeps (·.binds other') fun scope =>
          scope.binds_note name place other']
        unfold changeAt at hnested
        split at hnested
        · next hsame =>
            rcases (isSome_lookup_note old other').1 hnested with rfl | hnested
            · -- the search would have seen the name in the file
              obtain ⟨outer, houter, -, hmem⟩ := scope?_of_enclosingFile? hfile
              rw [show file = file' from hsame] at houter hmem
              rw [hold] at houter
              cases houter
              refine Scope.binds_eq_false_iff.2 fun kind => ?_
              exact get?_eq_none_of_find? (hfree kind) hmem (by rw [hkind]; rfl)
            · exact h.free file' old other' hold hkind hnested
        · exact h.free file' old other' hold hkind hnested
  · exact h

/-- A scope takes a name without harm if the name is not in its own ledger, in case of a file, and
is in the ledger of the file around, in case of a function or a block. -/
theorem Guarded.bind (h : t.Guarded) {hid : id ≠ .builtIn} {b : Binding}
    (hledger : ∀ scope, t.scope? id = some scope → scope.kind = .file →
      scope.nested.lookup b.name = none)
    (hnoted : ∀ scope file outer, t.scope? id = some scope → scope.kind.isGlobal = false →
      t.enclosingFile? id = some file → t.scope? file = some outer →
      (outer.nested.lookup b.name).isSome = true) :
    (t.modify id (·.bind b) hid).Guarded := by
  refine ⟨h.older.modify (fun scope => scope.bind_parent b) hid, ?_, ?_⟩
  · intro other scope file outer name hscope hlocal hfile houter hbinds
    obtain ⟨old, hold, rfl⟩ := exists_of_scope?_modify hscope
    obtain ⟨oldOuter, holdOuter, rfl⟩ := exists_of_scope?_modify houter
    rw [enclosingFile?_modify (fun scope => scope.bind_parent b)
      fun scope => scope.bind_kind b] at hfile
    rw [changeAt_keeps Scope.kind fun scope => scope.bind_kind b] at hlocal
    rw [changeAt_keeps Scope.nested fun scope => scope.bind_nested b]
    unfold changeAt at hbinds
    split at hbinds
    · next hsame =>
        rw [Scope.binds_bind, Bool.or_eq_true, decide_eq_true_iff] at hbinds
        rcases hbinds with rfl | hbinds
        · cases hsame
          exact hnoted old file oldOuter hold hlocal hfile holdOuter
        · exact h.noted other old file oldOuter name hold hlocal hfile holdOuter hbinds
    · exact h.noted other old file oldOuter name hold hlocal hfile holdOuter hbinds
  · intro file outer name houter hkind hnested
    obtain ⟨old, hold, rfl⟩ := exists_of_scope?_modify houter
    rw [changeAt_keeps Scope.kind fun scope => scope.bind_kind b] at hkind
    rw [changeAt_keeps Scope.nested fun scope => scope.bind_nested b] at hnested
    have hbinds := h.free file old name hold hkind hnested
    unfold changeAt
    split
    · next hsame =>
        cases hsame
        rw [Scope.binds_bind, hbinds, Bool.or_false, decide_eq_false_iff_not]
        rintro rfl
        have hnone : old.nested.lookup b.name = none := hledger old hold hkind
        have hsome : (old.nested.lookup b.name).isSome = true := hnested
        rw [hnone] at hsome
        cases hsome
    · exact hbinds

theorem kind_of_noteNested (h : (t.noteNested target name place).scope? id = some scope) :
    ∃ old, t.scope? id = some old ∧ scope.kind = old.kind := by
  unfold noteNested at h
  split at h
  · obtain ⟨old, hold, rfl⟩ := exists_of_scope?_modify h
    exact ⟨old, hold, changeAt_keeps Scope.kind (fun scope => scope.note_kind name place) _ _⟩
  · exact ⟨scope, h, rfl⟩

/-- The name just noted is in the ledger of the file around. -/
theorem isSome_lookup_noteNested (hfile : (t.noteNested id name place).enclosingFile? id = some file)
    (houter : (t.noteNested id name place).scope? file = some outer) :
    (outer.nested.lookup name).isSome = true := by
  cases hfile' : t.enclosingFile? id with
  | none =>
      rw [noteNested_of_enclosingFile?_none hfile', hfile'] at hfile
      cases hfile
  | some file' =>
      rw [noteNested_of_enclosingFile? hfile'] at hfile houter
      rw [enclosingFile?_modify (fun scope => scope.note_parent name place)
        fun scope => scope.note_kind name place, hfile', Option.some.injEq] at hfile
      obtain ⟨old, -, rfl⟩ := exists_of_scope?_modify houter
      rw [changeAt, if_pos hfile]
      exact (isSome_lookup_note old name).2 (.inl rfl)

/-- **A declaration keeps the ledgers.** -/
theorem Guarded.declare (h : t.Guarded) (hdeclare : t.declare id kind name decl place = .ok t') :
    t'.Guarded := by
  obtain ⟨scope, -, hscope, hfree, ⟨hkind, hledger, rfl⟩ | ⟨hlocal, rfl⟩⟩ := declare_cases hdeclare
  · refine h.bind ?_ ?_
    · intro scope' hscope' _
      rw [hscope] at hscope'
      cases hscope'
      exact hledger
    · intro scope' file outer hscope' hlocal
      rw [hscope] at hscope'
      cases hscope'
      rw [hkind] at hlocal
      cases hlocal
  · refine (h.noteNested hfree place).bind ?_ ?_
    · intro scope' hscope' hkind
      obtain ⟨old, hold, hsame⟩ := kind_of_noteNested hscope'
      rw [hscope] at hold
      cases hold
      exact absurd (hsame.symm.trans hkind) (ne_file_of_local hlocal)
    · intro scope' file outer _ _ hfile houter
      exact isSome_lookup_noteNested hfile houter

/-! ### Calls -/

/-- **Names of a file and names of its functions and blocks are never the same**, whichever were
declared first: after any calls that make scopes below existing ones, whether they succeed or fail,
no name is bound, as a variable, a type or a function, both in a function or a block and in the
nearest file around it. -/
theorem not_binds_of_enclosingFile (calls : List Call) (id : ScopeId)
    (hcalls : initial.parentsExist calls = true)
    (hscope : (initial.after calls).scope? id = some scope)
    (hkind : scope.kind = .block ∨ scope.kind = .function)
    (hfile : (initial.after calls).enclosingFile? id = some file)
    (houter : (initial.after calls).scope? file = some outer) :
    ¬ (scope.binds name = true ∧ outer.binds name = true) := by
  have h : (initial.after calls).Guarded :=
    after_keeps_of_parentsExist (fun _ _ _ h hscope => h.push_copy hscope)
      (fun _ _ _ _ _ _ _ h hdeclare => h.declare hdeclare)
      (fun _ kind _ _ h hscope => h.nest kind hscope) calls hcalls guarded_initial
  rintro ⟨hnested, houterBinds⟩
  have hlocal : scope.kind.isGlobal = false := by
    rcases hkind with hkind | hkind <;> rw [hkind] <;> rfl
  obtain ⟨outer', houter', hisFile, -⟩ := scope?_of_enclosingFile? hfile
  rw [houter] at houter'
  cases houter'
  have hnoted := h.noted id scope file outer name hscope hlocal hfile houter hnested
  rw [h.free file outer name houter hisFile hnoted] at houterBinds
  cases houterBinds

/-- A function with a variable and a copy of it, where the file asks for the name of the variable,
and the copy for the name of a function of the file. -/
def refusedCalls : List Call :=
  [.nest .function .file, .declare ⟨2⟩ .var "x" ⟨0⟩ ⟨0, 0⟩, .extend ⟨2⟩ "y" ⟨1⟩ ⟨1, 0⟩,
    .declare .file .func "x" ⟨2⟩ ⟨2, 0⟩, .declare .file .func "f" ⟨3⟩ ⟨3, 0⟩,
    .declare ⟨3⟩ .var "f" ⟨4⟩ ⟨4, 0⟩]

theorem not_binds_of_enclosingFile_refused :
    ∃ scope outer, initial.parentsExist refusedCalls = true ∧
      (initial.after refusedCalls).scope? ⟨3⟩ = some scope ∧ scope.kind = .function ∧
      (initial.after refusedCalls).enclosingFile? ⟨3⟩ = some .file ∧
      (initial.after refusedCalls).scope? .file = some outer ∧
      (scope.binds "x" = true ∧ outer.binds "f" = true) ∧
      ¬ (scope.binds "x" = true ∧ outer.binds "x" = true) := by
  refine ⟨_, _, by decide, rfl, rfl, rfl, rfl, by decide, ?_⟩
  exact not_binds_of_enclosingFile refusedCalls ⟨3⟩ (by decide) rfl (.inr rfl) rfl rfl

end ScopeTree

end FrontEnd
