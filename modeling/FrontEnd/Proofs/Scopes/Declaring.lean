/-
**Declaring in the scopes of a file.**

A variable can be declared where its name is free, that is, where neither a visible variable nor a
type nor a function has it.  A function needs a name that no type and no function has, and that no
variable was given before, however deep inside of a function.  What was visible before stays
visible.

Main definitions:

* `FrontEnd.ScopeTree.Free` — names that a variable can take;
* `FrontEnd.ScopeTree.bindVar` — the scopes with a further variable.

Main results:

* `FrontEnd.ScopeTree.declare_var_ok_iff`, `FrontEnd.ScopeTree.extend_meets` — declaring a variable,
  in place or in a copy of the scope;
* `FrontEnd.ScopeTree.nest_block`, `FrontEnd.ScopeTree.nest_function` — a new scope;
* `FrontEnd.ScopeTree.declare_func_ok_iff` — declaring a function.
-/

import FrontEnd.Proofs.Run
import FrontEnd.Proofs.Scopes.Lexical

set_option relaxedAutoImplicit false
set_option autoImplicit false

namespace FrontEnd.ScopeTree

open Run

variable {t t' : ScopeTree} {id : ScopeId} {scope : Scope} {functions locals : List (String × DeclId)}
  {noted : List String} {name : String} {decl : DeclId} {place : Position}

/-- The name belongs to no visible variable, no type and no function. -/
def Free (functions locals : List (String × DeclId)) (name : String) : Prop :=
  locals.lookup name = none ∧ BasicType.ofName? name = none ∧ functions.lookup name = none

theorem searchAny_eq_none_iff :
    t.searchAny id name = none ↔ ∀ kind, t.search id kind name = none := by
  unfold searchAny
  rw [List.findSome?_eq_none_iff]
  simp

/-- A name is free exactly if nothing at all is found for it. -/
theorem searchAny_eq_none_iff_free (h : t.Lexical functions noted) (hsees : t.Sees id locals) :
    t.searchAny id name = none ↔ Free functions locals name := by
  obtain ⟨scope, hscope⟩ := hsees.scope
  rw [searchAny_eq_none_iff, Free, ← hsees.var, ← h.search_func hsees.inner hscope,
    ← Option.map_eq_none_iff (f := BasicType.declaration), ← h.search_type hsees.inner hscope]
  simp only [Option.map_eq_none_iff]
  constructor
  · intro hall
    exact ⟨hall .var, hall .type, hall .func⟩
  · rintro ⟨hvar, htype, hfunc⟩ kind
    cases kind with
    | var => exact hvar
    | type => exact htype
    | func => exact hfunc

/-! ### Variables -/

theorem file_ne_of_inner (hid : 2 ≤ id.index) : ScopeId.file ≠ id := by
  rintro rfl
  simp [ScopeId.file] at hid

theorem ne_builtIn_of_inner (hid : 2 ≤ id.index) : id ≠ .builtIn := by
  rintro rfl
  simp [ScopeId.builtIn] at hid

/-- The scopes with a further variable in one of them, noted in the ledger of the file. -/
def bindVar (t : ScopeTree) (id : ScopeId) (name : String) (decl : DeclId) (place : Position)
    (hid : 2 ≤ id.index) : ScopeTree :=
  (t.modify .file (·.note name place) (by decide)).modify id
    (·.bind ⟨.var, name, ⟨decl, some place⟩⟩) (ne_builtIn_of_inner hid)

theorem scope?_bindVar_self (hid : 2 ≤ id.index) (hscope : t.scope? id = some scope) :
    (t.bindVar id name decl place hid).scope? id =
      some (scope.bind ⟨.var, name, ⟨decl, some place⟩⟩) := by
  rw [bindVar, scope?_modify, if_pos rfl, scope?_modify, if_neg (file_ne_of_inner hid), hscope]
  rfl

theorem scope?_bindVar_of_ne {hid : 2 ≤ id.index} {other : ScopeId} (hother : other ≠ .file)
    (hne : other ≠ id) : (t.bindVar id name decl place hid).scope? other = t.scope? other := by
  rw [bindVar, scope?_modify, if_neg hne.symm, scope?_modify, if_neg hother.symm]

theorem scope?_bindVar_file (hid : 2 ≤ id.index) :
    (t.bindVar id name decl place hid).scope? .file = (t.scope? .file).map (·.note name place) := by
  rw [bindVar, scope?_modify, if_neg (file_ne_of_inner hid).symm, scope?_modify, if_pos rfl]

theorem size_bindVar {hid : 2 ≤ id.index} :
    (t.bindVar id name decl place hid).scopes.size = t.scopes.size := by
  simp [bindVar, modify]

/-- The names in a ledger with a further note. -/
theorem isSome_lookup_note (scope : Scope) (other : String) :
    ((scope.note name place).nested.lookup other).isSome = true ↔
      other = name ∨ (scope.nested.lookup other).isSome = true := by
  unfold Scope.note
  cases hname : scope.nested.lookup name with
  | some p =>
      constructor
      · exact .inr
      · rintro (rfl | h)
        · simp [hname]
        · exact h
  | none =>
      simp only [List.lookup_cons]
      by_cases hother : other = name
      · simp [hother]
      · have hbeq : (other == name) = false := by simpa using hother
        simp [hbeq, hother]

/-- A variable that is bound and noted leaves the scopes as described, with one name noted more. -/
theorem lexical_bindVar (h : t.Lexical functions noted) (hid : 2 ≤ id.index) :
    (t.bindVar id name decl place hid).Lexical functions (name :: noted) where
  file := by
    obtain ⟨file, hfile, hisFile⟩ := h.file
    -- the file only remembers the name
    refine ⟨file.note name place, by rw [scope?_bindVar_file hid, hfile]; rfl, ?_⟩
    exact {
      kind := by rw [Scope.note_kind, hisFile.kind]
      parent := by rw [Scope.note_parent, hisFile.parent]
      func := fun other => by rw [Scope.get?_note, hisFile.func]
      other := fun kind other hkind => by rw [Scope.get?_note, hisFile.other kind other hkind]
      nested := fun other => by rw [isSome_lookup_note, hisFile.nested, List.mem_cons] }
  inner := by
    intro other scope hother hscope
    -- the variable joins the bindings of its own scope, which holds nothing but variables
    by_cases hne : other = id
    · subst hne
      cases hold : t.scope? other with
      | none =>
          have hlt := index_lt_size_of_scope? hscope
          rw [size_bindVar] at hlt
          rw [scope?, Array.getElem?_eq_getElem hlt] at hold
          cases hold
      | some old =>
          rw [scope?_bindVar_self hother hold] at hscope
          cases hscope
          have hinner := h.inner other old hother hold
          refine ⟨hinner.parent, fun kind name' hkind => ?_⟩
          rw [Scope.get?_bind, if_neg fun hb => hkind hb.1.symm, hinner.other kind name' hkind]
    · rw [scope?_bindVar_of_ne (file_ne_of_inner hother).symm hne] at hscope
      exact h.inner other scope hother hscope

theorem keepsBelow_bindVar (hid : 2 ≤ id.index) :
    KeepsBelow id.index t (t.bindVar id name decl place hid) := by
  intro other hother hlt
  refine scope?_bindVar_of_ne (file_ne_of_inner hother).symm ?_
  rintro rfl
  omega

/-- A variable that is declared is visible, and so are those that were visible before. -/
theorem sees_bindVar (h : t.Lexical functions noted) (hsees : t.Sees id locals) :
    (t.bindVar id name decl place hsees.inner).Sees id ((name, decl) :: locals) := by
  obtain ⟨scope, hscope⟩ := hsees.scope
  have h' : (t.bindVar id name decl place hsees.inner).Lexical functions (name :: noted) :=
    lexical_bindVar h hsees.inner
  have hscope' : (t.bindVar id name decl place hsees.inner).scope? id =
      some (scope.bind ⟨.var, name, ⟨decl, some place⟩⟩) := scope?_bindVar_self hsees.inner hscope
  refine ⟨hsees.inner, ⟨_, hscope'⟩, fun other => ?_⟩
  obtain ⟨parent, hparent, hcase⟩ := h.parent_of_inner hsees.inner hscope
  -- in the parent nothing has changed
  have hsame : (t.bindVar id name decl place hsees.inner).search parent .var other =
      t.search parent .var other := by
    rcases hcase with rfl | ⟨htwo, hlt, outer, houter⟩
    · rw [h.search_file_var, h'.search_file_var]
    · exact search_var_of_keepsBelow h h' (keepsBelow_bindVar _) htwo hlt houter other
  have hvar := hsees.var other
  rw [search_inner h hsees.inner hscope hparent] at hvar
  rw [search_inner h' hsees.inner hscope' hparent, hsame, Scope.get?_bind, List.lookup_cons]
  by_cases hname : name = other
  · simp [hname]
  · have hbeq : (other == name) = false := by simpa using fun h => hname h.symm
    rw [if_neg fun hb => hname hb.2, hbeq]
    exact hvar

/-- **Declaring a variable in a function or a block.** -/
theorem declare_var_ok_iff (h : t.Lexical functions noted) (hsees : t.Sees id locals) :
    t.declare id .var name decl place = .ok t' ↔
      Free functions locals name ∧ t' = t.bindVar id name decl place hsees.inner := by
  obtain ⟨scope, hscope⟩ := hsees.scope
  have hkind : scope.kind ≠ .builtIn ∧ scope.kind ≠ .file := by
    obtain ⟨⟨hkind, -⟩ | ⟨hkind, -⟩, -⟩ := h.inner id scope hsees.inner hscope <;> simp [hkind]
  have hfile := h.enclosingFile hsees.inner hscope
  rw [← searchAny_eq_none_iff_free h hsees, declare_of_kind hscope hkind.1]
  cases t.searchAny id name with
  | some found => simp
  | none =>
      simp only [if_neg hkind.2, noteNested_of_enclosingFile? hfile, true_and, Except.ok.injEq,
        bindVar]
      exact eq_comm

/-! ### New scopes -/

theorem scope?_push_of_lt {other : ScopeId} (hlt : other.index < t.scopes.size) :
    (t.push scope).scope? other = t.scope? other := by
  rw [scope?_push, if_neg]
  rintro rfl
  exact Nat.lt_irrefl _ hlt

theorem scope?_push_self : (t.push scope).scope? t.next = some scope := by
  rw [scope?_push, if_pos rfl]

theorem size_push : (t.push scope).scopes.size = t.scopes.size + 1 := by
  simp [push]

theorem keepsBelow_push : KeepsBelow t.scopes.size t (t.push scope) :=
  fun _ _ hlt => scope?_push_of_lt hlt

theorem Sees.lt_size (h : t.Sees id locals) : id.index < t.scopes.size := by
  obtain ⟨scope, hscope⟩ := h.scope
  exact index_lt_size_of_scope? hscope

/-- A new scope of a function or a block leaves the scopes as described. -/
theorem lexical_push (h : t.Lexical functions noted) (hinner : IsInner t.next scope) :
    (t.push scope).Lexical functions noted where
  file := by
    have hsize := h.two_le_size
    obtain ⟨file, hfile, hisFile⟩ := h.file
    exact ⟨file, by rw [scope?_push_of_lt (by simp [ScopeId.file]; omega), hfile], hisFile⟩
  inner := by
    intro other scope' hother hscope
    rw [scope?_push] at hscope
    by_cases hne : other = t.next
    · rw [if_pos hne] at hscope
      cases hscope
      rw [hne]
      exact hinner
    · rw [if_neg hne] at hscope
      exact h.inner other scope' hother hscope

theorem lexical_block (h : t.Lexical functions noted) (hid : 2 ≤ id.index)
    (hlt : id.index < t.scopes.size) : (t.nest .block id).2.Lexical functions noted :=
  lexical_push h ⟨.inr ⟨rfl, id, rfl, hid, hlt⟩, fun _ _ _ => rfl⟩

/-- A new block in a function or a block sees what is visible around it. -/
theorem nest_block (h : t.Lexical functions noted) (hsees : t.Sees id locals) :
    (t.nest .block id).2.Lexical functions noted ∧ (t.nest .block id).2.Sees t.next locals := by
  have hnext : 2 ≤ t.next.index := h.two_le_size
  have h' : (t.nest .block id).2.Lexical functions noted :=
    lexical_block h hsees.inner hsees.lt_size
  refine ⟨h', hnext, ⟨_, scope?_push_self⟩, fun name => ?_⟩
  have hkept := hsees.of_keepsBelow h h' keepsBelow_push hsees.lt_size
  rw [search_inner h' hnext scope?_push_self rfl]
  exact hkept.var name

theorem lexical_function (h : t.Lexical functions noted) :
    (t.nest .function .file).2.Lexical functions noted :=
  lexical_push h ⟨.inl ⟨rfl, rfl⟩, fun _ _ _ => rfl⟩

/-- A new function sees no variable. -/
theorem nest_function (h : t.Lexical functions noted) :
    (t.nest .function .file).2.Lexical functions noted ∧
      (t.nest .function .file).2.Sees t.next [] := by
  have hnext : 2 ≤ t.next.index := h.two_le_size
  have h' : (t.nest .function .file).2.Lexical functions noted := lexical_function h
  refine ⟨h', hnext, ⟨_, scope?_push_self⟩, fun name => ?_⟩
  rw [search_inner h' hnext scope?_push_self rfl, h'.search_file_var]
  rfl

theorem lexical_copy (h : t.Lexical functions noted) (hid : 2 ≤ id.index)
    (hscope : t.scope? id = some scope) : (t.push scope).Lexical functions noted := by
  have hlt := index_lt_size_of_scope? hscope
  have hinner := h.inner id scope hid hscope
  refine lexical_push h ⟨?_, hinner.other⟩
  rcases hinner.parent with hfunction | ⟨hkind, parent, hparent, htwo, hparentLt⟩
  · exact .inl hfunction
  · exact .inr ⟨hkind, parent, hparent, htwo, Nat.lt_trans hparentLt hlt⟩

/-- A copy of a function's or a block's scope sees the same variables. -/
theorem push_copy (h : t.Lexical functions noted) (hsees : t.Sees id locals)
    (hscope : t.scope? id = some scope) :
    (t.push scope).Lexical functions noted ∧ (t.push scope).Sees t.next locals := by
  have hnext : 2 ≤ t.next.index := h.two_le_size
  have hlt := hsees.lt_size
  have h' : (t.push scope).Lexical functions noted := lexical_copy h hsees.inner hscope
  refine ⟨h', hnext, ⟨_, scope?_push_self⟩, fun name => ?_⟩
  -- the copy has the parent of the original, and a search goes on there
  have hkept := hsees.of_keepsBelow h h' keepsBelow_push hlt
  obtain ⟨parent, hparent, -⟩ := h.parent_of_inner hsees.inner hscope
  have hvar := hkept.var name
  rw [search_inner h' hsees.inner (by rw [scope?_push_of_lt hlt, hscope]) hparent] at hvar
  rw [search_inner h' hnext scope?_push_self hparent]
  exact hvar

/-- **Declaring a variable in a copy of a scope** succeeds exactly if the name is free. -/
theorem extend_meets (h : t.Lexical functions noted) (hsees : t.Sees id locals) :
    Meets (extend id name decl place) t (Free functions locals name) fun copy t' =>
      copy = t.next ∧ t'.Lexical functions (name :: noted) ∧ t'.Sees copy ((name, decl) :: locals) ∧
        KeepsBelow t.scopes.size t t' ∧ t'.scopes.size = t.scopes.size + 1 := by
  obtain ⟨scope, hscope⟩ := hsees.scope
  obtain ⟨h₁, hsees₁⟩ := push_copy h hsees hscope
  have hdeclare : ∀ {t'}, (t.push scope).declare t.next .var name decl place = .ok t' ↔
      Free functions locals name ∧ t' = (t.push scope).bindVar t.next name decl place hsees₁.inner :=
    declare_var_ok_iff h₁ hsees₁
  -- the name is looked up in the copy, where the same variables are visible
  have hcopy : t.copy? id = some (t.next, t.push scope) := by
    rw [copy?, hscope]
    rfl
  constructor
  · intro copy t' hok
    rw [extend, hcopy] at hok
    cases hres : (t.push scope).declare t.next .var name decl place with
    | error e => simp [hres] at hok
    | ok t'' =>
        simp only [hres] at hok
        cases hok
        obtain ⟨hfree, rfl⟩ := hdeclare.1 hres
        refine ⟨hfree, rfl, lexical_bindVar h₁ hsees₁.inner, sees_bindVar h₁ hsees₁, ?_, ?_⟩
        · exact keepsBelow_push.trans (keepsBelow_bindVar _) (Nat.le_refl _)
        · rw [size_bindVar, size_push]
  · intro hfree
    refine ⟨t.next, (t.push scope).bindVar t.next name decl place hsees₁.inner, ?_⟩
    rw [extend, hcopy]
    simp only [hdeclare.2 ⟨hfree, rfl⟩]

/-! ### Functions -/

/-- The scopes with a further function of the file. -/
def bindFunc (t : ScopeTree) (name : String) (decl : DeclId) (place : Position) : ScopeTree :=
  t.modify .file (·.bind ⟨.func, name, ⟨decl, some place⟩⟩) (by decide)

theorem scope?_bindFunc_of_ne {other : ScopeId} (hother : other ≠ .file) :
    (t.bindFunc name decl place).scope? other = t.scope? other := by
  rw [bindFunc, scope?_modify, if_neg hother.symm]

theorem size_bindFunc : (t.bindFunc name decl place).scopes.size = t.scopes.size := by
  simp [bindFunc, modify]

theorem keepsBelow_bindFunc (n : Nat) : KeepsBelow n t (t.bindFunc name decl place) :=
  fun _ hother _ => scope?_bindFunc_of_ne (file_ne_of_inner hother).symm

/-- A function of the file leaves the scopes as described, with one function more. -/
theorem lexical_bindFunc (h : t.Lexical functions noted) :
    (t.bindFunc name decl place).Lexical ((name, decl) :: functions) noted where
  file := by
    obtain ⟨file, hfile, hisFile⟩ := h.file
    refine ⟨file.bind ⟨.func, name, ⟨decl, some place⟩⟩, ?_, ?_⟩
    · rw [bindFunc, scope?_modify, if_pos rfl, hfile]
      rfl
    · refine ⟨hisFile.kind, hisFile.parent, fun other => ?_, fun kind other hkind => ?_,
        hisFile.nested⟩
      · rw [Scope.get?_bind, List.lookup_cons]
        by_cases hname : name = other
        · simp [hname]
        · have hbeq : (other == name) = false := by simpa using fun h => hname h.symm
          rw [if_neg fun hb => hname hb.2, hbeq]
          exact hisFile.func other
      · rw [Scope.get?_bind, if_neg fun hb => hkind hb.1.symm, hisFile.other kind other hkind]
  inner := by
    intro other scope hother hscope
    rw [scope?_bindFunc_of_ne (file_ne_of_inner hother).symm] at hscope
    exact h.inner other scope hother hscope

/-- **Declaring a function of the file.** -/
theorem declare_func_ok_iff (h : t.Lexical functions noted) :
    t.declare .file .func name decl place = .ok t' ↔
      (Free functions [] name ∧ name ∉ noted) ∧ t' = t.bindFunc name decl place := by
  obtain ⟨file, hfile, hisFile⟩ := h.file
  have hfree : t.searchAny .file name = none ↔ Free functions [] name := by
    rw [searchAny_eq_none_iff, Free, ← h.search_file_func,
      ← Option.map_eq_none_iff (f := BasicType.declaration), ← h.search_file_type]
    simp only [Option.map_eq_none_iff]
    constructor
    · intro hall
      exact ⟨rfl, hall .type, hall .func⟩
    · rintro ⟨-, htype, hfunc⟩ kind
      cases kind with
      | var => exact h.search_file_var name
      | type => exact htype
      | func => exact hfunc
  -- a name inside of a function is in the way too, if it was declared before
  have hnoted : file.nested.lookup name = none ↔ name ∉ noted := by
    rw [← hisFile.nested, Option.not_isSome_iff_eq_none]
  rw [← hfree, ← hnoted]
  have hkind : file.kind ≠ .builtIn := by
    rw [hisFile.kind]
    decide
  rw [declare_of_kind hfile hkind]
  simp only [hisFile.kind, if_true]
  cases t.searchAny .file name with
  | some found => simp
  | none =>
      cases file.nested.lookup name with
      | some previous => simp
      | none =>
          simp only [and_self, true_and, Except.ok.injEq, bindFunc]
          exact eq_comm

end FrontEnd.ScopeTree
