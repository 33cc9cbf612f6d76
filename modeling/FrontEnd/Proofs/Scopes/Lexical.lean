/-
**Scopes of a file.**

In the scopes that a file gives rise to, the built-in types stand outermost and the functions of the
file below them; all further scopes hold variables, and belong to a function or to a block inside
one.  A search from such a scope therefore finds a variable in the scopes of the function, a function
in the file scope, and a type among the built-in ones, whatever else is declared later.

Main definitions:

* `FrontEnd.ScopeTree.Lexical` — the scopes of a file with the given functions;
* `FrontEnd.ScopeTree.Sees` — the variables that are visible in a scope;
* `FrontEnd.ScopeTree.KeepsBelow` — older scopes of functions and blocks are left as they are.

Main results:

* `FrontEnd.ScopeTree.search_inner`, `FrontEnd.ScopeTree.search_file` — searching along parents;
* `FrontEnd.ScopeTree.Lexical.search_type`, `FrontEnd.ScopeTree.Lexical.search_func` — what types
  and functions are found;
* `FrontEnd.ScopeTree.Sees.of_keepsBelow` — what is visible stays visible.
-/

import FrontEnd.Scope

set_option relaxedAutoImplicit false
set_option autoImplicit false

namespace FrontEnd

/-- The built-in type of a name. -/
def BasicType.ofName? (name : String) : Option BasicType := all.find? (·.name == name)

@[simp] theorem BasicType.ofName?_name (b : BasicType) : ofName? b.name = some b := by
  cases b <;> decide

theorem BasicType.name_of_ofName? {name : String} {b : BasicType} (h : ofName? name = some b) :
    b.name = name := by
  simpa using List.find?_some h

namespace ScopeTree

variable {t t' : ScopeTree} {id : ScopeId} {scope : Scope} {functions locals : List (String × DeclId)}
  {noted : List String}

/-! ### Shape -/

/-- The built-in scope holds the built-in types and nothing else. -/
theorem get?_builtInScope (kind : DeclKind) (name : String) :
    (builtInScope.get? kind name).map Entry.declaration =
      if kind = .type then (BasicType.ofName? name).map BasicType.declaration else none := by
  unfold Scope.get? builtInScope BasicType.ofName?
  rw [List.find?_map, Option.map_map, Option.map_map]
  by_cases hkind : kind = .type
  · subst hkind
    rw [if_pos rfl]
    rfl
  · have hnone : (BasicType.all.find? ((fun b : Binding => b.kind == kind && b.name == name) ∘
        fun b => ⟨.type, b.name, ⟨b.declaration, none⟩⟩)) = none := by
      rw [List.find?_eq_none]
      intro b _
      simpa using fun h => absurd h.symm hkind
    rw [if_neg hkind, hnone]
    rfl

/-- The scope of a file with the given functions, where the given names are declared further
down. -/
structure IsFile (functions : List (String × DeclId)) (noted : List String) (scope : Scope) :
    Prop where
  kind : scope.kind = .file
  parent : scope.parent? = some .builtIn
  func : ∀ name, (scope.get? .func name).map Entry.declaration = functions.lookup name
  other : ∀ kind name, kind ≠ .func → scope.get? kind name = none
  nested : ∀ name, (scope.nested.lookup name).isSome = true ↔ name ∈ noted

/-- A scope for the variables of a function or of a block inside one. -/
structure IsInner (id : ScopeId) (scope : Scope) : Prop where
  parent : (scope.kind = .function ∧ scope.parent? = some .file) ∨
    (scope.kind = .block ∧
      ∃ parent, scope.parent? = some parent ∧ 2 ≤ parent.index ∧ parent.index < id.index)
  other : ∀ kind name, kind ≠ .var → scope.get? kind name = none

/-- The scopes of a file with the given functions, where the given names are declared inside of
functions. -/
structure Lexical (t : ScopeTree) (functions : List (String × DeclId)) (noted : List String) :
    Prop where
  file : ∃ scope, t.scope? .file = some scope ∧ IsFile functions noted scope
  inner : ∀ id scope, 2 ≤ id.index → t.scope? id = some scope → IsInner id scope

theorem lexical_initial : initial.Lexical [] [] := by
  refine ⟨⟨_, rfl, rfl, rfl, fun _ => rfl, fun _ _ _ => rfl, fun name => ?_⟩, ?_⟩
  · change (none : Option Position).isSome = true ↔ name ∈ []
    simp
  · intro id scope hid hscope
    have hlt := index_lt_size_of_scope? hscope
    simp [initial] at hlt
    omega

theorem Lexical.two_le_size (h : t.Lexical functions noted) : 2 ≤ t.scopes.size := by
  obtain ⟨scope, hscope, -⟩ := h.file
  have hlt := index_lt_size_of_scope? hscope
  simp [ScopeId.file] at hlt
  omega

/-- In scopes as described every parent is older than its child. -/
theorem Lexical.parentsOlder (h : t.Lexical functions noted) : t.ParentsOlder := by
  intro id scope parent hscope hparent
  obtain ⟨file, hfile, hisFile⟩ := h.file
  -- functions and blocks are told by the description, the two outer scopes are known
  by_cases hid : 2 ≤ id.index
  · obtain ⟨⟨-, hp⟩ | ⟨-, p, hp, -, hlt⟩, -⟩ := h.inner id scope hid hscope
    · rw [hp] at hparent
      cases hparent
      simp [ScopeId.file]
      omega
    · rw [hp] at hparent
      cases hparent
      exact hlt
  · obtain ⟨index⟩ := id
    obtain rfl | rfl : index = 0 ∨ index = 1 := by
      simp at hid
      omega
    · rw [show (⟨0⟩ : ScopeId) = .builtIn from rfl, scope?_builtIn] at hscope
      cases hscope
      cases hparent
    · rw [show (⟨1⟩ : ScopeId) = .file from rfl, hfile] at hscope
      cases hscope
      rw [hisFile.parent] at hparent
      cases hparent
      simp [ScopeId.builtIn]

/-! ### Searching -/

/-- Where all scopes are global it makes no difference whether a function was left. -/
theorem find?_of_isGlobal {kind : DeclKind} {name : String} {chain : List (ScopeId × Scope)}
    (hglobal : ∀ x ∈ chain, x.2.kind.isGlobal = true) (left : Bool) :
    find? kind name left chain = find? kind name true chain := by
  induction chain generalizing left with
  | nil => rfl
  | cons x chain ih =>
      have hx := hglobal x (List.mem_cons_self)
      have hchain := ih fun y hy => hglobal y (List.mem_cons_of_mem x hy)
      simp only [find?, hx, Bool.not_true, Bool.and_false, Bool.false_eq_true, if_false,
        Bool.true_or]
      rw [hchain]

theorem Lexical.chain_file (h : t.Lexical functions noted) (hfile : t.scope? .file = some scope)
    (hisFile : IsFile functions noted scope) :
    t.chain .file = [(.file, scope), (.builtIn, builtInScope)] := by
  rw [chain_of_parent h.parentsOlder hfile hisFile.parent, chain_builtIn]

/-- A search from a function or a block goes on in the parent. -/
theorem search_inner (h : t.Lexical functions noted) (hid : 2 ≤ id.index)
    (hscope : t.scope? id = some scope) {parent : ScopeId} (hparent : scope.parent? = some parent)
    (kind : DeclKind) (name : String) :
    t.search id kind name = (scope.get? kind name).or (t.search parent kind name) := by
  have hchain := chain_of_parent h.parentsOlder hscope hparent
  rw [search, search, hchain]
  simp only [find?, Bool.false_and, Bool.false_eq_true, if_false, Bool.false_or]
  cases scope.get? kind name with
  | some entry => rfl
  | none =>
      -- a search that leaves a function passes global scopes only, where this makes no difference
      rw [Option.none_or]
      obtain ⟨⟨hkind, hp⟩ | ⟨hkind, -⟩, -⟩ := h.inner id scope hid hscope
      · rw [hp] at hparent
        cases hparent
        obtain ⟨file, hfile, hisFile⟩ := h.file
        rw [hkind, h.chain_file hfile hisFile]
        exact (find?_of_isGlobal (by simp [hisFile.kind, builtInScope, ScopeKind.isGlobal]) _).symm
      · rw [hkind]
        rfl

/-- A search from the file scope goes on among the built-in types. -/
theorem search_file (h : t.Lexical functions noted) (hfile : t.scope? .file = some scope)
    (hisFile : IsFile functions noted scope) (kind : DeclKind) (name : String) :
    t.search .file kind name = (scope.get? kind name).or (builtInScope.get? kind name) := by
  have hkind : (scope.kind == .function) = false := by
    rw [hisFile.kind]
    rfl
  rw [search, h.chain_file hfile hisFile]
  simp only [find?, Bool.false_and, Bool.false_eq_true, if_false, hkind, Bool.or_false]
  cases scope.get? kind name <;> cases builtInScope.get? kind name <;> rfl

/-- The parent of a function or a block is again one, or the file. -/
theorem Lexical.parent_of_inner (h : t.Lexical functions noted) (hid : 2 ≤ id.index)
    (hscope : t.scope? id = some scope) :
    ∃ parent, scope.parent? = some parent ∧
      (parent = .file ∨ 2 ≤ parent.index ∧ parent.index < id.index ∧
        ∃ outer, t.scope? parent = some outer) := by
  obtain ⟨⟨-, hp⟩ | ⟨-, parent, hp, htwo, hlt⟩, -⟩ := h.inner id scope hid hscope
  · exact ⟨.file, hp, .inl rfl⟩
  · have hsize := index_lt_size_of_scope? hscope
    exact ⟨parent, hp, .inr ⟨htwo, hlt, t.scopes[parent.index],
      Array.getElem?_eq_getElem (by omega)⟩⟩

/-- A search for anything but a variable leads from a function or a block to the file. -/
theorem Lexical.search_eq_file (h : t.Lexical functions noted) (hid : 2 ≤ id.index)
    (hscope : t.scope? id = some scope) {kind : DeclKind} (hkind : kind ≠ .var) (name : String) :
    t.search id kind name = t.search .file kind name := by
  induction hn : id.index using Nat.strongRecOn generalizing id scope with
  | ind n ih =>
      obtain ⟨parent, hparent, hcase⟩ := h.parent_of_inner hid hscope
      rw [search_inner h hid hscope hparent, (h.inner id scope hid hscope).other kind name hkind,
        Option.none_or]
      rcases hcase with rfl | ⟨htwo, hlt, outer, houter⟩
      · rfl
      · exact ih parent.index (by omega) htwo houter rfl

/-- The types that are found are the built-in ones. -/
theorem Lexical.search_file_type (h : t.Lexical functions noted) (name : String) :
    (t.search .file .type name).map Entry.declaration =
      (BasicType.ofName? name).map BasicType.declaration := by
  obtain ⟨file, hfile, hisFile⟩ := h.file
  rw [search_file h hfile hisFile, hisFile.other .type name (by decide), Option.none_or,
    get?_builtInScope, if_pos rfl]

/-- The functions that are found are those of the file. -/
theorem Lexical.search_file_func (h : t.Lexical functions noted) (name : String) :
    (t.search .file .func name).map Entry.declaration = functions.lookup name := by
  obtain ⟨file, hfile, hisFile⟩ := h.file
  have hbuiltIn : builtInScope.get? .func name = none := by
    have hmap := get?_builtInScope .func name
    simpa using hmap
  rw [search_file h hfile hisFile, hbuiltIn, Option.or_none, hisFile.func]

/-- No variable is found in the file scope. -/
theorem Lexical.search_file_var (h : t.Lexical functions noted) (name : String) :
    t.search .file .var name = none := by
  obtain ⟨file, hfile, hisFile⟩ := h.file
  have hbuiltIn : builtInScope.get? .var name = none := by
    have hmap := get?_builtInScope .var name
    simpa using hmap
  rw [search_file h hfile hisFile, hisFile.other .var name (by decide), hbuiltIn]
  rfl

theorem Lexical.search_type (h : t.Lexical functions noted) (hid : 2 ≤ id.index)
    (hscope : t.scope? id = some scope) (name : String) :
    (t.search id .type name).map Entry.declaration =
      (BasicType.ofName? name).map BasicType.declaration := by
  rw [h.search_eq_file hid hscope (by decide), h.search_file_type]

/-- No scope at all has a type of another name. -/
theorem Lexical.search_type_eq_none (h : t.Lexical functions noted) {name : String}
    (hname : BasicType.ofName? name = none) (id : ScopeId) : t.search id .type name = none := by
  cases hscope : t.scope? id with
  | none =>
      have hchain : t.chain id = [] := by
        unfold chain
        cases t.scopes.size with
        | zero => rfl
        | succ n => simp only [chainUpTo, hscope]
      rw [search, hchain]
      rfl
  | some scope =>
      have hmap : (t.search id .type name).map Entry.declaration =
          (BasicType.ofName? name).map BasicType.declaration := by
        -- the scope of the built-in names and the file's scope come before all inner ones
        obtain ⟨_ | _ | i⟩ := id
        · change (t.search .builtIn .type name).map Entry.declaration = _
          rw [search_builtIn, get?_builtInScope, if_pos rfl]
        · exact h.search_file_type name
        · exact h.search_type (by simp) hscope name
      rw [hname] at hmap
      exact Option.map_eq_none_iff.1 hmap

theorem Lexical.search_func (h : t.Lexical functions noted) (hid : 2 ≤ id.index)
    (hscope : t.scope? id = some scope) (name : String) :
    (t.search id .func name).map Entry.declaration = functions.lookup name := by
  rw [h.search_eq_file hid hscope (by decide), h.search_file_func]

/-- The file is around every function and every block. -/
theorem Lexical.enclosingFile (h : t.Lexical functions noted) (hid : 2 ≤ id.index)
    (hscope : t.scope? id = some scope) : t.enclosingFile? id = some .file := by
  induction hn : id.index using Nat.strongRecOn generalizing id scope with
  | ind n ih =>
      have hkind : (scope.kind == .file) = false := by
        obtain ⟨⟨hkind, -⟩ | ⟨hkind, -⟩, -⟩ := h.inner id scope hid hscope <;> rw [hkind] <;> rfl
      obtain ⟨parent, hparent, hcase⟩ := h.parent_of_inner hid hscope
      have hstep : t.enclosingFile? id = t.enclosingFile? parent := by
        unfold enclosingFile?
        rw [chain_of_parent h.parentsOlder hscope hparent]
        simp [hkind]
      rw [hstep]
      rcases hcase with rfl | ⟨htwo, hlt, outer, houter⟩
      · obtain ⟨file, hfile, hisFile⟩ := h.file
        unfold enclosingFile?
        rw [h.chain_file hfile hisFile]
        simp [hisFile.kind]
      · exact ih parent.index (by omega) htwo houter rfl

/-! ### Visible variables -/

/-- The variables that are visible in a function or a block, the nearest first. -/
structure Sees (t : ScopeTree) (id : ScopeId) (locals : List (String × DeclId)) : Prop where
  inner : 2 ≤ id.index
  scope : ∃ scope, t.scope? id = some scope
  var : ∀ name, (t.search id .var name).map Entry.declaration = locals.lookup name

/-- The scopes of functions and blocks whose number is below the given one are the same. -/
def KeepsBelow (n : Nat) (t t' : ScopeTree) : Prop :=
  ∀ id : ScopeId, 2 ≤ id.index → id.index < n → t'.scope? id = t.scope? id

theorem KeepsBelow.refl (n : Nat) (t : ScopeTree) : KeepsBelow n t t := fun _ _ _ => rfl

theorem KeepsBelow.trans {n m : Nat} {t'' : ScopeTree} (h : KeepsBelow n t t')
    (h' : KeepsBelow m t' t'') (hnm : n ≤ m) : KeepsBelow n t t'' := by
  intro id hid hlt
  rw [h' id hid (by omega), h id hid hlt]

theorem KeepsBelow.mono {n m : Nat} (h : KeepsBelow m t t') (hnm : n ≤ m) : KeepsBelow n t t' :=
  fun id hid hlt => h id hid (by omega)

/-- A search for a variable takes place in scopes that are kept. -/
theorem search_var_of_keepsBelow {functions' : List (String × DeclId)} {noted' : List String}
    {n : Nat} (h : t.Lexical functions noted) (h' : t'.Lexical functions' noted')
    (hkeeps : KeepsBelow n t t') (hid : 2 ≤ id.index) (hlt : id.index < n)
    (hscope : t.scope? id = some scope) (name : String) :
    t'.search id .var name = t.search id .var name := by
  induction hm : id.index using Nat.strongRecOn generalizing id scope with
  | ind m ih =>
      obtain ⟨parent, hparent, hcase⟩ := h.parent_of_inner hid hscope
      have hscope' : t'.scope? id = some scope := by rw [hkeeps id hid hlt, hscope]
      rw [search_inner h hid hscope hparent, search_inner h' hid hscope' hparent]
      rcases hcase with rfl | ⟨htwo, hparentLt, outer, houter⟩
      · rw [h.search_file_var, h'.search_file_var]
      · rw [ih parent.index (by omega) htwo (by omega) houter rfl]

/-- **What is visible stays visible** as long as the scopes are kept. -/
theorem Sees.of_keepsBelow {functions' : List (String × DeclId)} {noted' : List String} {n : Nat}
    (hsees : t.Sees id locals) (h : t.Lexical functions noted) (h' : t'.Lexical functions' noted')
    (hkeeps : KeepsBelow n t t') (hlt : id.index < n) : t'.Sees id locals := by
  obtain ⟨scope, hscope⟩ := hsees.scope
  refine ⟨hsees.inner, ⟨scope, by rw [hkeeps id hsees.inner hlt, hscope]⟩, fun name => ?_⟩
  rw [search_var_of_keepsBelow h h' hkeeps hsees.inner hlt hscope, hsees.var]

end ScopeTree

end FrontEnd
