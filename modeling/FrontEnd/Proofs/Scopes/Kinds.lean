/-
**Kinds of names.**

A name is declared together with the kind of its declaration, and it is searched for by that kind.
As long as every declaration is of the kind that it is declared with, what is found for a name is of
the kind that was asked for.  Declaring a name fails only because the name is taken, unless the
scope is missing or is the one of the built-in types.

Main definitions:

* `FrontEnd.ScopeTree.Leads` — scopes whose names lead to declarations of their kind;
* `FrontEnd.ScopeTree.IsOpen` — scopes in which names can be declared;
* `FrontEnd.Cause.IsClash` — the refusals of a name that is taken.

Main results:

* `FrontEnd.ScopeTree.Leads.search` — what is found is of the kind that was asked for;
* `FrontEnd.ScopeTree.declare_error`, `FrontEnd.ScopeTree.extend_error` — why a name is refused;
* `FrontEnd.ScopeTree.Leads.declare`, `FrontEnd.ScopeTree.Leads.extend` — names go on to lead to
  declarations of their kind.
-/

import FrontEnd.Scope

set_option relaxedAutoImplicit false
set_option autoImplicit false

namespace FrontEnd

/-- The name is visible already, or a nested scope has taken it. -/
def Cause.IsClash (c : Cause) : Prop :=
  (∃ name kind previous, c = .clash name kind previous) ∨
    ∃ name previous, c = .nestedClash name previous

theorem Scope.mem_bindings_of_get? {scope : Scope} {kind : DeclKind} {name : String}
    {entry : Entry} (h : scope.get? kind name = some entry) :
    ∃ b ∈ scope.bindings, b.kind = kind ∧ b.entry = entry := by
  obtain ⟨b, hb, rfl⟩ := Option.map_eq_some_iff.1 h
  have hfound := List.find?_some hb
  simp only [Bool.and_eq_true, beq_iff_eq] at hfound
  exact ⟨b, List.mem_of_find?_eq_some hb, hfound.1, rfl⟩

namespace ScopeTree

variable {t t' : ScopeTree} {kind? kind?' : DeclId → Option DeclKind}
  {id other target : ScopeId}
  {scope : Scope} {kind : DeclKind} {name : String} {decl : DeclId} {place : Position} {e : Error}

/-! ### Searching -/

/-- Every name leads to a declaration of the kind that it was declared with. -/
def Leads (t : ScopeTree) (kind? : DeclId → Option DeclKind) : Prop :=
  ∀ id scope, t.scope? id = some scope →
    ∀ b ∈ scope.bindings, kind? b.entry.declaration = some b.kind

/-- Further declarations may be known. -/
theorem Leads.mono (h : t.Leads kind?)
    (hkinds : ∀ decl kind, kind? decl = some kind → kind?' decl = some kind) : t.Leads kind?' :=
  fun id scope hscope b hb => hkinds _ _ (h id scope hscope b hb)

/-- What a search finds is bound in one of the scopes it goes through. -/
theorem mem_bindings_of_find? {leftFunction : Bool} {chain : List (ScopeId × Scope)}
    {entry : Entry} (h : find? kind name leftFunction chain = some entry) :
    ∃ x ∈ chain, ∃ b ∈ x.2.bindings, b.kind = kind ∧ b.entry = entry := by
  induction chain generalizing leftFunction with
  | nil => cases h
  | cons x chain ih =>
      obtain ⟨id, scope⟩ := x
      rw [find?] at h
      split at h
      · next found hfound =>
          cases h
          split at hfound
          · cases hfound
          · exact ⟨(id, scope), List.mem_cons_self, Scope.mem_bindings_of_get? hfound⟩
      · obtain ⟨y, hy, hb⟩ := ih h
        exact ⟨y, List.mem_cons_of_mem _ hy, hb⟩

/-- **What is found is of the kind that was asked for.** -/
theorem Leads.search (h : t.Leads kind?) {entry : Entry}
    (hfound : t.search id kind name = some entry) : kind? entry.declaration = some kind := by
  obtain ⟨⟨other, scope⟩, hmem, b, hb, rfl, rfl⟩ := mem_bindings_of_find? hfound
  exact h other scope (scope?_of_mem_chainUpTo hmem) b hb

/-! ### Changing scopes -/

/-- Names can be declared in the scope: it exists, and it is not that of the built-in types. -/
def IsOpen (t : ScopeTree) (id : ScopeId) : Prop :=
  ∃ scope, t.scope? id = some scope ∧ scope.kind ≠ .builtIn

theorem scope?_push_of_some (h : t.scope? id = some scope) (new : Scope) :
    (t.push new).scope? id = some scope := by
  rw [scope?_push, if_neg, h]
  rintro rfl
  exact absurd (index_lt_size_of_scope? h) (Nat.lt_irrefl _)

theorem IsOpen.push (h : t.IsOpen id) (new : Scope) : (t.push new).IsOpen id := by
  obtain ⟨scope, hscope, hkind⟩ := h
  exact ⟨scope, scope?_push_of_some hscope new, hkind⟩

/-- A new scope is open unless it is one for built-in types. -/
theorem isOpen_push_next {new : Scope} (hkind : new.kind ≠ .builtIn) :
    (t.push new).IsOpen t.next := ⟨new, by rw [scope?_push, if_pos rfl], hkind⟩

theorem Leads.push (h : t.Leads kind?) {new : Scope}
    (hnew : ∀ b ∈ new.bindings, kind? b.entry.declaration = some b.kind) :
    (t.push new).Leads kind? := by
  intro id scope hscope
  rw [scope?_push] at hscope
  split at hscope
  · cases hscope
    exact hnew
  · exact h id scope hscope

theorem IsOpen.modify (h : t.IsOpen id) {change : Scope → Scope}
    (hkind : ∀ scope, (change scope).kind = scope.kind) (htarget : target ≠ .builtIn) :
    (t.modify target change htarget).IsOpen id := by
  obtain ⟨scope, hscope, hopen⟩ := h
  by_cases hid : target = id
  · refine ⟨change scope, by rw [scope?_modify, if_pos hid, hscope, Option.map_some], ?_⟩
    rwa [hkind]
  · exact ⟨scope, by rw [scope?_modify, if_neg hid, hscope], hopen⟩

theorem Leads.modify (h : t.Leads kind?) {change : Scope → Scope}
    (hchange : ∀ scope, ∀ b ∈ (change scope).bindings,
      b ∈ scope.bindings ∨ kind? b.entry.declaration = some b.kind)
    (htarget : target ≠ .builtIn) : (t.modify target change htarget).Leads kind? := by
  intro id scope hscope
  rw [scope?_modify] at hscope
  split at hscope
  · obtain ⟨scope', hscope', rfl⟩ := Option.map_eq_some_iff.1 hscope
    intro b hb
    exact (hchange scope' b hb).elim (h id scope' hscope' b) fun hb => hb
  · exact h id scope hscope

theorem IsOpen.noteNested (h : t.IsOpen id) (target : ScopeId) (name : String)
    (place : Position) : (t.noteNested target name place).IsOpen id := by
  unfold ScopeTree.noteNested
  split
  · exact h.modify (fun scope => Scope.note_kind scope name place) _
  · exact h

theorem Leads.noteNested (h : t.Leads kind?) (target : ScopeId) (name : String)
    (place : Position) : (t.noteNested target name place).Leads kind? := by
  unfold ScopeTree.noteNested
  split
  · refine h.modify (fun scope b hb => .inl ?_) _
    rwa [Scope.note_bindings] at hb
  · exact h

theorem IsOpen.bind (h : t.IsOpen id) (htarget : target ≠ .builtIn) (b : Binding) :
    (t.modify target (·.bind b) htarget).IsOpen id :=
  h.modify (fun scope => scope.bind_kind b) htarget

theorem Leads.bind (h : t.Leads kind?) {b : Binding}
    (hb : kind? b.entry.declaration = some b.kind) (htarget : target ≠ .builtIn) :
    (t.modify target (·.bind b) htarget).Leads kind? := by
  refine h.modify (fun scope b' hb' => ?_) htarget
  rcases List.mem_cons.1 hb' with rfl | hmem
  · exact .inr hb
  · exact .inl hmem

/-! ### Declaring -/

/-- **In an open scope a name is refused only because it is taken.** -/
theorem declare_error (hopen : t.IsOpen id) (h : t.declare id kind name decl place = .error e) :
    e.cause.IsClash := by
  obtain ⟨scope, hscope, hkind⟩ := hopen
  rw [declare_of_kind hscope hkind] at h
  split at h
  · cases h
    exact .inl ⟨_, _, _, rfl⟩
  · split at h
    · split at h
      · cases h
        exact .inr ⟨_, _, rfl⟩
      · cases h
    · cases h

/-- What declaring a name changes. -/
theorem declare_ok (h : t.declare id kind name decl place = .ok t') :
    ∃ hid, t' = t.modify id (·.bind ⟨kind, name, ⟨decl, some place⟩⟩) hid ∨
      t' = (t.noteNested id name place).modify id (·.bind ⟨kind, name, ⟨decl, some place⟩⟩)
        hid := by
  unfold declare at h
  split at h
  · cases h
  · next scope hscope =>
    split at h
    · cases h
    · next hkind =>
      refine ⟨ne_builtIn_of_kind hscope hkind, ?_⟩
      split at h
      · cases h
      · split at h
        · split at h
          · cases h
          · cases h
            exact .inl rfl
        · cases h
          exact .inr rfl

theorem IsOpen.declare (hopen : t.IsOpen other)
    (h : t.declare id kind name decl place = .ok t') : t'.IsOpen other := by
  obtain ⟨hid, rfl | rfl⟩ := declare_ok h
  · exact hopen.bind hid _
  · exact (hopen.noteNested id name place).bind hid _

/-- **Names go on to lead to declarations of their kind** if a further one does. -/
theorem Leads.declare (hleads : t.Leads kind?) (hdecl : kind? decl = some kind)
    (h : t.declare id kind name decl place = .ok t') : t'.Leads kind? := by
  obtain ⟨hid, rfl | rfl⟩ := declare_ok h
  · exact hleads.bind hdecl hid
  · exact (hleads.noteNested id name place).bind hdecl hid

/-! ### Extending -/

/-- A scope that is extended is copied first, and then the name is declared in the copy. -/
theorem extend_ok {new : ScopeId} (h : extend id name decl place t = .ok new t') :
    new = t.next ∧ ∃ scope, t.scope? id = some scope ∧
      (t.push scope).declare t.next .var name decl place = .ok t' := by
  unfold extend at h
  split at h
  · cases h
  · next copy t₁ hcopy =>
      obtain ⟨scope, hscope, hpushed⟩ := Option.map_eq_some_iff.1 hcopy
      cases hpushed
      split at h
      · cases h
      · next hdeclare =>
          cases h
          exact ⟨rfl, scope, hscope, hdeclare⟩

/-- **An open scope is not extended only because a name is taken.** -/
theorem extend_error (hopen : t.IsOpen id) (h : extend id name decl place t = .error e t') :
    e.cause.IsClash := by
  obtain ⟨scope, hscope, hkind⟩ := hopen
  unfold extend at h
  split at h
  · next hcopy =>
      rw [copy?, hscope] at hcopy
      cases hcopy
  · next copy t₁ hcopy =>
      rw [copy?, hscope] at hcopy
      cases hcopy
      split at h
      · next e' hdeclare =>
          cases h
          exact declare_error (isOpen_push_next hkind) hdeclare
      · cases h

/-- The scope that comes out is open, and so are those that were. -/
theorem IsOpen.extend (hopen : t.IsOpen id) {new : ScopeId}
    (h : extend id name decl place t = .ok new t') :
    t'.IsOpen new ∧ ∀ other, t.IsOpen other → t'.IsOpen other := by
  obtain ⟨scope, hscope, hkind⟩ := hopen
  obtain ⟨rfl, scope', hscope', hdeclare⟩ := extend_ok h
  rw [hscope] at hscope'
  cases hscope'
  exact ⟨(isOpen_push_next hkind).declare hdeclare, fun other hother =>
    (hother.push scope).declare hdeclare⟩

/-- Names go on to lead to declarations of their kind in the scope that comes out. -/
theorem Leads.extend (hleads : t.Leads kind?) (hdecl : kind? decl = some .var) {new : ScopeId}
    (h : extend id name decl place t = .ok new t') : t'.Leads kind? := by
  obtain ⟨-, scope, hscope, hdeclare⟩ := extend_ok h
  exact (hleads.push (hleads id scope hscope)).declare hdecl hdeclare

/-! ### The start -/

/-- At first the names are those of the built-in types. -/
theorem leads_initial (h : ∀ b : BasicType, kind? b.declaration = some .type) :
    initial.Leads kind? := by
  intro id scope hscope b hb
  have hmem := Array.mem_of_getElem? hscope
  simp only [initial, List.mem_toArray, List.mem_cons, List.not_mem_nil, or_false] at hmem
  rcases hmem with rfl | rfl
  · obtain ⟨basic, -, rfl⟩ := List.mem_map.1 hb
    exact h basic
  · cases hb

/-- Names can be declared in the file scope. -/
theorem isOpen_initial_file : initial.IsOpen .file := ⟨_, rfl, by decide⟩

end ScopeTree

end FrontEnd
