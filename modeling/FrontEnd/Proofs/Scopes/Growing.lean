/-
**How the scopes of a file grow.**

While a file is read its scopes change in five ways only: a function is entered, a block is entered,
the scope of a function or a block is copied, a variable is declared in the youngest scope, which is
then one of these, and a function is declared in the file.  That variables are declared in the
youngest scope only is what keeps the names on every chain of parents apart: no scope below can have
taken the name before, and of what is above nothing is out of sight.  For the names of functions the
ledger of the file stands in.

Main definitions:

* `FrontEnd.ScopeTree.Step`, `FrontEnd.ScopeTree.Grows` — the changes to the scopes of a file;
* `FrontEnd.ScopeTree.Apart` — no scope has a name of a scope around it;
* `FrontEnd.ScopeTree.InFile` — what holds of the scopes of a file;
* `FrontEnd.ScopeTree.searchIn` — searching for a name of any kind in some order.

Main results:

* `FrontEnd.ScopeTree.InFile.step`, `FrontEnd.ScopeTree.InFile.grows` — every step keeps it;
* `FrontEnd.ScopeTree.InFile.unique` — along a chain of parents a name has one meaning at most;
* `FrontEnd.ScopeTree.InFile.searchIn_eq` — so the order of the kinds makes no difference.
-/

import FrontEnd.Proofs.Scopes.Ledger
import Mathlib.Logic.Relation

set_option relaxedAutoImplicit false
set_option autoImplicit false

namespace FrontEnd.ScopeTree

variable {t t' : ScopeTree} {id other : ScopeId} {scope new : Scope} {kind kind' : DeclKind}
  {name : String} {decl : DeclId} {place : Position} {functions : List (String × DeclId)}
  {noted : List String}

/-! ### Functions and blocks -/

/-- The scope is that of a function or a block. -/
def IsLocal (t : ScopeTree) (id : ScopeId) : Prop :=
  ∃ scope, t.scope? id = some scope ∧ scope.kind.isGlobal = false

theorem IsLocal.push (h : t.IsLocal id) (new : Scope) : (t.push new).IsLocal id := by
  obtain ⟨scope, hscope, hlocal⟩ := h
  exact ⟨scope, scope?_push_of_some hscope new, hlocal⟩

theorem isLocal_push_next (hlocal : new.kind.isGlobal = false) : (t.push new).IsLocal t.next :=
  ⟨new, scope?_push_self, hlocal⟩

theorem IsLocal.modify (h : t.IsLocal id) {f : Scope → Scope}
    (hkind : ∀ scope, (f scope).kind = scope.kind) {target : ScopeId}
    (htarget : target ≠ .builtIn) : (t.modify target f htarget).IsLocal id := by
  obtain ⟨scope, hscope, hlocal⟩ := h
  rw [IsLocal, scope?_modify, hscope]
  split
  · exact ⟨f scope, rfl, by rw [hkind, hlocal]⟩
  · exact ⟨scope, rfl, hlocal⟩

theorem IsLocal.declare (h : t.IsLocal id)
    (hdeclare : t.declare other kind name decl place = .ok t') : t'.IsLocal id := by
  obtain ⟨-, hother, -, -, ⟨-, -, rfl⟩ | ⟨-, rfl⟩⟩ := declare_cases hdeclare
  · exact h.modify (fun scope => scope.bind_kind _) hother
  · refine IsLocal.modify ?_ (fun scope => scope.bind_kind _) hother
    unfold noteNested
    split
    · exact h.modify (fun scope => scope.note_kind _ _) _
    · exact h

theorem size_noteNested (t : ScopeTree) (id : ScopeId) (name : String) (place : Position) :
    (t.noteNested id name place).scopes.size = t.scopes.size := by
  unfold noteNested
  split
  · simp [modify]
  · rfl

/-- A declaration makes no scope. -/
theorem size_declare (hdeclare : t.declare id kind name decl place = .ok t') :
    t'.scopes.size = t.scopes.size := by
  obtain ⟨-, -, -, -, ⟨-, -, rfl⟩ | ⟨-, rfl⟩⟩ := declare_cases hdeclare
  · simp [modify]
  · rw [← size_noteNested t id name place]
    simp [modify]

/-- The scopes of a file are the built-in one, the one of the file, and those of functions and
blocks. -/
theorem Lexical.scope_cases (h : t.Lexical functions noted) (hscope : t.scope? id = some scope) :
    (id = .builtIn ∧ scope = builtInScope) ∨ (id = .file ∧ IsFile functions noted scope) ∨
      (2 ≤ id.index ∧ IsInner id scope) := by
  obtain ⟨_ | _ | i⟩ := id
  · rw [show (⟨0⟩ : ScopeId) = .builtIn from rfl, scope?_builtIn] at hscope
    cases hscope
    exact .inl ⟨rfl, rfl⟩
  · obtain ⟨file, hfile, hisFile⟩ := h.file
    rw [show (⟨0 + 1⟩ : ScopeId) = .file from rfl, hfile] at hscope
    cases hscope
    exact .inr (.inl ⟨rfl, hisFile⟩)
  · exact .inr (.inr ⟨by simp, h.inner _ scope (by simp) hscope⟩)

theorem IsInner.isLocal (h : IsInner id scope) : scope.kind.isGlobal = false := by
  obtain ⟨⟨hkind, -⟩ | ⟨hkind, -⟩, -⟩ := h <;> rw [hkind] <;> rfl

theorem Lexical.two_le_of_isLocal (h : t.Lexical functions noted) (hlocal : t.IsLocal id) :
    2 ≤ id.index := by
  obtain ⟨scope, hscope, hlocal⟩ := hlocal
  obtain ⟨-, rfl⟩ | ⟨-, hisFile⟩ | ⟨hid, -⟩ := h.scope_cases hscope
  · cases hlocal
  · rw [hisFile.kind] at hlocal
    cases hlocal
  · exact hid

/-! ### Steps -/

/-- A change to the scopes of a file. -/
inductive Step (t : ScopeTree) : ScopeTree → Prop where
  /-- A function is entered. -/
  | function : Step t (t.nest .function .file).2
  /-- A block is entered. -/
  | block (parent : ScopeId) (hparent : t.IsLocal parent) : Step t (t.nest .block parent).2
  /-- The scope of a function or a block is copied. -/
  | copy (id : ScopeId) (scope : Scope) (hscope : t.scope? id = some scope)
      (hlocal : scope.kind.isGlobal = false) : Step t (t.push scope)
  /-- A variable is declared in the youngest scope. -/
  | var (id : ScopeId) (name : String) (decl : DeclId) (place : Position) (t' : ScopeTree)
      (hlocal : t.IsLocal id) (hyoungest : id.index + 1 = t.scopes.size)
      (hdeclare : t.declare id .var name decl place = .ok t') : Step t t'
  /-- A function is declared in the file. -/
  | func (name : String) (decl : DeclId) (place : Position) (t' : ScopeTree)
      (hdeclare : t.declare .file .func name decl place = .ok t') : Step t t'

/-- The scopes after any number of steps. -/
def Grows : ScopeTree → ScopeTree → Prop := Relation.ReflTransGen Step

theorem Grows.refl (t : ScopeTree) : Grows t t := Relation.ReflTransGen.refl

theorem Grows.trans {t'' : ScopeTree} (h : Grows t t') (h' : Grows t' t'') : Grows t t'' :=
  Relation.ReflTransGen.trans h h'

theorem Step.grows (h : Step t t') : Grows t t' := Relation.ReflTransGen.single h

theorem IsLocal.step (h : t.IsLocal id) (hstep : Step t t') : t'.IsLocal id := by
  cases hstep with
  | function => exact h.push _
  | block => exact h.push _
  | copy => exact h.push _
  | var _ _ _ _ _ _ _ hdeclare => exact h.declare hdeclare
  | func _ _ _ _ hdeclare => exact h.declare hdeclare

theorem IsLocal.grows (h : t.IsLocal id) (hgrows : Grows t t') : t'.IsLocal id := by
  induction hgrows with
  | refl => exact h
  | tail _ hstep ih => exact ih.step hstep

/-! ### Names that are kept apart -/

/-- No scope has a name of a scope around it. -/
def Apart (t : ScopeTree) : Prop :=
  ∀ id scope parent name, t.scope? id = some scope → scope.parent? = some parent →
    scope.binds name = true → ∀ x ∈ t.chain parent, x.2.binds name = false

/-- The scope of the file is empty at first, and so it shares no name with the built-in types. -/
theorem apart_initial : initial.Apart := by
  intro id scope parent name hscope hparent hbinds
  have hid := index_lt_size_of_scope? hscope
  match id, hid with
  | ⟨0⟩, _ =>
      cases hscope
      cases hparent
  | ⟨1⟩, _ =>
      cases hscope
      cases hbinds

/-- A new scope keeps names apart, if its own names differ from those around it. -/
theorem Apart.push (h : t.Apart) (older : t.ParentsOlder) (older' : (t.push new).ParentsOlder)
    (hnew : ∀ parent name, new.parent? = some parent → new.binds name = true →
      ∀ x ∈ t.chain parent, x.2.binds name = false) : (t.push new).Apart := by
  intro id scope parent name hscope hparent hbinds x hx
  have hsame : ∀ outer, t.scope? parent = some outer → x ∈ t.chain parent := by
    intro outer houter
    rwa [chain_push_of_some older older' houter] at hx
  have hlt := older' id scope parent hscope hparent
  rw [scope?_push] at hscope
  split at hscope
  · next hid =>
      cases hscope
      rw [hid] at hlt
      exact hnew parent name hparent hbinds x (hsame _ (Array.getElem?_eq_getElem hlt))
  · obtain ⟨outer, houter⟩ := older.exists_parent hscope hparent
    exact h id scope parent name hscope hparent hbinds x (hsame outer houter)

/-- A note changes no names. -/
theorem Apart.note (h : t.Apart) {target : ScopeId} (htarget : target ≠ .builtIn) (other : String)
    (place : Position) : (t.modify target (·.note other place) htarget).Apart := by
  intro id scope parent name hscope hparent hbinds x hx
  obtain ⟨old, hold, rfl⟩ := exists_of_scope?_modify hscope
  rw [changeAt_keeps Scope.parent? fun scope => scope.note_parent other place] at hparent
  rw [changeAt_keeps (·.binds name) fun scope => scope.binds_note other place name] at hbinds
  rw [chain_modify fun scope => scope.note_parent other place] at hx
  obtain ⟨y, hy, rfl⟩ := List.mem_map.1 hx
  rw [changeAt_keeps (·.binds name) fun scope => scope.binds_note other place name]
  exact h id old parent name hold hparent hbinds y hy

/-- A scope takes a name without harm if no scope around it and none below it has the name. -/
theorem Apart.bind (h : t.Apart) (older : t.ParentsOlder) {hid : id ≠ .builtIn} {b : Binding}
    (hout : ∀ scope parent, t.scope? id = some scope → scope.parent? = some parent →
      ∀ x ∈ t.chain parent, x.2.binds b.name = false)
    (hin : ∀ other scope parent outer, t.scope? other = some scope → scope.parent? = some parent →
      (id, outer) ∈ t.chain parent → scope.binds b.name = false) :
    (t.modify id (·.bind b) hid).Apart := by
  intro other scope parent name hscope hparent hbinds x hx
  obtain ⟨old, hold, rfl⟩ := exists_of_scope?_modify hscope
  rw [changeAt_keeps Scope.parent? fun scope => scope.bind_parent b] at hparent
  rw [chain_modify fun scope => scope.bind_parent b] at hx
  obtain ⟨y, hy, rfl⟩ := List.mem_map.1 hx
  have hlt := older other old parent hold hparent
  have hle := older.index_le_of_mem_chain hy
  unfold changeAt at hbinds ⊢
  split at hbinds
  · next hother =>
      -- the scope itself is on no chain of its parent
      have hother : id = other := hother
      have hne : id ≠ y.1 := by
        rintro rfl
        rw [hother] at hle
        omega
      simp only [if_neg hne]
      rw [Scope.binds_bind, Bool.or_eq_true, decide_eq_true_iff] at hbinds
      rcases hbinds with rfl | hbinds
      · rw [← hother] at hold
        exact hout old parent hold hparent y hy
      · exact h other old parent name hold hparent hbinds y hy
  · have hfree := h other old parent name hold hparent hbinds y hy
    split
    · next hid =>
        rw [Scope.binds_bind, hfree, Bool.or_false, decide_eq_false_iff_not]
        rintro rfl
        have hmem : (id, y.2) ∈ t.chain parent := by
          rw [show id = y.1 from hid]
          exact hy
        have hnone := hin other old parent y.2 hold hparent hmem
        have hsome : old.binds b.name = true := hbinds
        rw [hnone] at hsome
        cases hsome
    · exact hfree

/-! ### The scopes of a file -/

/-- What holds of the scopes of a file while it is read. -/
structure InFile (t : ScopeTree) : Prop where
  /-- Types are outermost, functions are in the file, and variables further inside. -/
  lexical : ∃ functions noted, t.Lexical functions noted
  /-- The ledger of the file has the names of all variables. -/
  guarded : t.Guarded
  /-- No scope has a name of a scope around it. -/
  apart : t.Apart

theorem inFile_initial : initial.InFile :=
  ⟨⟨[], [], lexical_initial⟩, guarded_initial, apart_initial⟩

/-- Whatever has a parent in the scopes of a file, a search from there goes on in the parent. -/
theorem Lexical.search_below (h : t.Lexical functions noted) (hscope : t.scope? id = some scope)
    {parent : ScopeId} (hparent : scope.parent? = some parent) (kind : DeclKind) (name : String) :
    t.search id kind name = (scope.get? kind name).or (t.search parent kind name) := by
  obtain ⟨-, rfl⟩ | ⟨rfl, hisFile⟩ | ⟨hid, -⟩ := h.scope_cases hscope
  · cases hparent
  · rw [hisFile.parent] at hparent
    cases hparent
    rw [search_file h hscope hisFile, search_builtIn]
  · exact search_inner h hid hscope hparent kind name

/-- A name of which nothing is found is a name of no scope on the way: in a file nothing on the way
is out of sight. -/
theorem Lexical.not_binds_of_search (h : t.Lexical functions noted)
    (hfree : ∀ kind, t.search id kind name = none) :
    ∀ x ∈ t.chain id, x.2.binds name = false := by
  induction id using h.parentsOlder.induction with
  | missing id hnone =>
      rw [chain_of_none hnone]
      exact fun _ hx => absurd hx List.not_mem_nil
  | root id scope hscope hparent =>
      have hget : ∀ kind, scope.get? kind name = none := by
        intro kind
        have hnone := hfree kind
        rw [search, chain_of_root hscope hparent] at hnone
        cases hget : scope.get? kind name with
        | none => rfl
        | some entry => simp [find?, hget] at hnone
      rw [chain_of_root hscope hparent]
      intro x hx
      rw [List.mem_singleton.1 hx]
      exact Scope.binds_eq_false_iff.2 hget
  | below id parent scope hscope hparent ih =>
      have hstep : ∀ kind, scope.get? kind name = none ∧ t.search parent kind name = none := by
        intro kind
        rw [← Option.or_eq_none_iff, ← h.search_below hscope hparent]
        exact hfree kind
      rw [chain_of_parent h.parentsOlder hscope hparent]
      intro x hx
      rcases List.mem_cons.1 hx with rfl | hx
      · exact Scope.binds_eq_false_iff.2 fun kind => (hstep kind).1
      · exact ih (fun kind => (hstep kind).2) x hx

/-- Notes are no names. -/
theorem exists_of_mem_chain_noteNested {target : ScopeId} {x : ScopeId × Scope}
    (hx : x ∈ (t.noteNested target name place).chain id) :
    ∃ y ∈ t.chain id, x.1 = y.1 ∧ ∀ other, x.2.binds other = y.2.binds other := by
  unfold noteNested at hx
  split at hx
  · rw [chain_modify fun scope => scope.note_parent name place] at hx
    obtain ⟨y, hy, rfl⟩ := List.mem_map.1 hx
    exact ⟨y, hy, rfl, fun other => changeAt_keeps (·.binds other)
      (fun scope => scope.binds_note name place other) _ y⟩
  · exact ⟨x, hx, rfl, fun _ => rfl⟩

theorem Apart.noteNested (h : t.Apart) (target : ScopeId) (name : String) (place : Position) :
    (t.noteNested target name place).Apart := by
  unfold ScopeTree.noteNested
  split
  · exact h.note _ name place
  · exact h

/-- **A variable of the youngest scope is kept apart**: around the scope its name was not found, and
there is nothing below. -/
theorem InFile.var (h : t.InFile) (hlocal : t.IsLocal id) (hyoungest : id.index + 1 = t.scopes.size)
    (hdeclare : t.declare id .var name decl place = .ok t') : t'.InFile := by
  obtain ⟨functions, noted, hlexical⟩ := h.lexical
  have hid := hlexical.two_le_of_isLocal hlocal
  have hguarded : t'.Guarded := h.guarded.declare hdeclare
  obtain ⟨scope, _, hscope, hfree, ⟨hkind, -, -⟩ | ⟨-, rfl⟩⟩ := declare_cases hdeclare
  · obtain ⟨scope', hscope', hlocal⟩ := hlocal
    rw [hscope] at hscope'
    cases hscope'
    exact absurd hkind (ne_file_of_local hlocal)
  · refine ⟨⟨functions, name :: noted, ?_⟩, hguarded, ?_⟩
    · simp only [noteNested_of_enclosingFile? (hlexical.enclosingFile hid hscope)]
      exact lexical_bindVar hlexical hid
    · have older : (t.noteNested id name place).ParentsOlder :=
        (h.guarded.noteNested hfree place).older
      refine (h.apart.noteNested id name place).bind older ?_ ?_
      · intro scope' parent hscope' hparent x hx
        have hmem : x ∈ (t.noteNested id name place).chain id := by
          rw [chain_of_parent older hscope' hparent]
          exact List.mem_cons_of_mem _ hx
        obtain ⟨y, hy, -, hbinds⟩ := exists_of_mem_chain_noteNested hmem
        rw [hbinds]
        exact hlexical.not_binds_of_search hfree y hy
      · intro other scope' parent outer hscope' hparent hmem
        have hle := older.index_le_of_mem_chain hmem
        have hlt := older other scope' parent hscope' hparent
        have hsize := index_lt_size_of_scope? hscope'
        rw [size_noteNested] at hsize
        simp only at hle
        omega

/-- **A function is kept apart**: its name was not found among the functions and the types, and is
not in the ledger of the file, so no variable has it. -/
theorem InFile.func (h : t.InFile) (hdeclare : t.declare .file .func name decl place = .ok t') :
    t'.InFile := by
  obtain ⟨functions, noted, hlexical⟩ := h.lexical
  obtain ⟨file, hfile, hisFile⟩ := hlexical.file
  have hguarded : t'.Guarded := h.guarded.declare hdeclare
  obtain ⟨scope, _, hscope, hfree, ⟨-, hledger, rfl⟩ | ⟨hlocal, -⟩⟩ := declare_cases hdeclare
  · refine ⟨⟨_, noted, lexical_bindFunc hlexical⟩, hguarded, h.apart.bind h.guarded.older ?_ ?_⟩
    · intro scope' parent hscope' hparent x hx
      refine hlexical.not_binds_of_search hfree x ?_
      rw [chain_of_parent h.guarded.older hscope' hparent]
      exact List.mem_cons_of_mem _ hx
    · intro other scope' parent outer hscope' hparent hmem
      -- whatever is below the file is a function or a block
      have hother : 2 ≤ other.index := by
        have hle := h.guarded.older.index_le_of_mem_chain hmem
        have hlt := h.guarded.older other scope' parent hscope' hparent
        simp only [ScopeId.file] at hle
        omega
      have hlocal : scope'.kind.isGlobal = false :=
        (hlexical.inner other scope' hother hscope').isLocal
      refine Bool.eq_false_iff.2 fun hbinds => ?_
      have hnoted := h.guarded.noted other scope' .file scope name hscope' hlocal
        (hlexical.enclosingFile hother hscope') hscope hbinds
      rw [hledger] at hnoted
      cases hnoted
  · rw [hfile] at hscope
    cases hscope
    rw [hisFile.kind] at hlocal
    cases hlocal

/-- **Every step keeps what holds of the scopes of a file.** -/
theorem InFile.step (h : t.InFile) (hstep : Step t t') : t'.InFile := by
  obtain ⟨functions, noted, hlexical⟩ := h.lexical
  cases hstep with
  | function =>
      obtain ⟨file, hfile, -⟩ := hlexical.file
      have hguarded := h.guarded.nest .function hfile
      refine ⟨⟨functions, noted, lexical_function hlexical⟩, hguarded, ?_⟩
      exact h.apart.push h.guarded.older hguarded.older fun _ _ _ hbinds => by cases hbinds
  | block parent hparent =>
      have hid := hlexical.two_le_of_isLocal hparent
      obtain ⟨outer, houter, -⟩ := hparent
      have hguarded := h.guarded.nest .block houter
      refine ⟨⟨functions, noted, lexical_block hlexical hid (index_lt_size_of_scope? houter)⟩,
        hguarded, ?_⟩
      exact h.apart.push h.guarded.older hguarded.older fun _ _ _ hbinds => by cases hbinds
  | copy id scope hscope hlocal =>
      have hid := hlexical.two_le_of_isLocal ⟨scope, hscope, hlocal⟩
      have hguarded := h.guarded.push_copy hscope
      refine ⟨⟨functions, noted, lexical_copy hlexical hid hscope⟩, hguarded, ?_⟩
      exact h.apart.push h.guarded.older hguarded.older fun parent name hparent hbinds =>
        h.apart id scope parent name hscope hparent hbinds
  | var id name decl place _ hlocal hyoungest hdeclare => exact h.var hlocal hyoungest hdeclare
  | func name decl place _ hdeclare => exact h.func hdeclare

theorem InFile.grows (h : t.InFile) (hgrows : Grows t t') : t'.InFile := by
  induction hgrows with
  | refl => exact h
  | tail _ hstep ih => exact ih.step hstep

/-! ### One meaning -/

/-- All names of a scope are of one kind. -/
theorem Lexical.exists_kind (h : t.Lexical functions noted) (hscope : t.scope? id = some scope) :
    ∃ only, ∀ kind name, (scope.get? kind name).isSome = true → kind = only := by
  have hcases : ∃ only, ∀ kind name, kind ≠ only → scope.get? kind name = none := by
    obtain ⟨-, rfl⟩ | ⟨-, hisFile⟩ | ⟨-, hisInner⟩ := h.scope_cases hscope
    · refine ⟨.type, fun kind name hkind => ?_⟩
      have hmap := get?_builtInScope kind name
      rw [if_neg hkind] at hmap
      exact Option.map_eq_none_iff.1 hmap
    · exact ⟨.func, hisFile.other⟩
    · exact ⟨.var, hisInner.other⟩
  obtain ⟨only, hother⟩ := hcases
  refine ⟨only, fun kind name hsome => Decidable.byContradiction fun hkind => ?_⟩
  rw [hother kind name hkind] at hsome
  cases hsome

/-- **Along a chain of parents a name has one meaning at most**: one scope has it, and as one kind of
declaration. -/
theorem InFile.unique (h : t.InFile) {x y : ScopeId × Scope} (hx : x ∈ t.chain id)
    (hy : y ∈ t.chain id) (hget : (x.2.get? kind name).isSome = true)
    (hget' : (y.2.get? kind' name).isSome = true) : x = y ∧ kind = kind' := by
  obtain ⟨functions, noted, hlexical⟩ := h.lexical
  have hsame : x = y → kind = kind' := by
    rintro rfl
    obtain ⟨only, honly⟩ := hlexical.exists_kind (scope?_of_mem_chainUpTo hx)
    rw [honly kind name hget, honly kind' name hget']
  suffices hxy : x = y from ⟨hxy, hsame hxy⟩
  have hbinds : x.2.binds name = true := Scope.binds_iff.2 ⟨kind, hget⟩
  have hbinds' : y.2.binds name = true := Scope.binds_iff.2 ⟨kind', hget'⟩
  clear hsame
  induction id using h.guarded.older.induction with
  | missing id hnone =>
      rw [chain_of_none hnone] at hx
      cases hx
  | root id scope hscope hparent =>
      rw [chain_of_root hscope hparent, List.mem_singleton] at hx hy
      rw [hx, hy]
  | below id parent scope hscope hparent ih =>
      have hapart := h.apart id scope parent name hscope hparent
      rw [chain_of_parent h.guarded.older hscope hparent] at hx hy
      rcases List.mem_cons.1 hx with rfl | hx
      · rcases List.mem_cons.1 hy with rfl | hy
        · rfl
        · have hfree := hapart hbinds y hy
          rw [hbinds'] at hfree
          cases hfree
      · rcases List.mem_cons.1 hy with rfl | hy
        · have hfree := hapart hbinds' x hx
          rw [hbinds] at hfree
          cases hfree
        · exact ih hx hy

/-- Every chain of parents ends at the built-in types. -/
theorem Lexical.getLast?_chain (h : t.Lexical functions noted) (hscope : t.scope? id = some scope) :
    (t.chain id).getLast? = some (.builtIn, builtInScope) := by
  induction id using h.parentsOlder.induction generalizing scope with
  | missing id hnone =>
      rw [hnone] at hscope
      cases hscope
  | root id scope' hscope' hparent =>
      -- only the built-in scope has no parent
      obtain ⟨rfl, -⟩ | ⟨-, hisFile⟩ | ⟨hid, -⟩ := h.scope_cases hscope'
      · exact congrArg List.getLast? t.chain_builtIn
      · rw [hisFile.parent] at hparent
        cases hparent
      · obtain ⟨parent, hparent', -⟩ := h.parent_of_inner hid hscope'
        rw [hparent] at hparent'
        cases hparent'
  | below id parent scope' hscope' hparent ih =>
      obtain ⟨outer, houter⟩ := h.parentsOlder.exists_parent hscope' hparent
      rw [chain_of_parent h.parentsOlder hscope' hparent, List.getLast?_cons, ih houter]
      rfl

/-- What is found is the meaning of the name in a scope on the way. -/
theorem exists_get?_of_find? {leftFunction : Bool} {chain : List (ScopeId × Scope)} {entry : Entry}
    (h : find? kind name leftFunction chain = some entry) :
    ∃ x ∈ chain, (x.2.get? kind name).isSome = true := by
  induction chain generalizing leftFunction with
  | nil => cases h
  | cons x chain ih =>
      rw [find?] at h
      split at h
      · next found hfound =>
          split at hfound
          · cases hfound
          · exact ⟨x, List.mem_cons_self, by rw [hfound, Option.isSome_some]⟩
      · obtain ⟨y, hy, hget⟩ := ih h
        exact ⟨y, List.mem_cons_of_mem _ hy, hget⟩

/-- **A name is found as one kind of declaration at most.** -/
theorem InFile.search_unique (h : t.InFile) {entry entry' : Entry}
    (hfound : t.search id kind name = some entry) (hfound' : t.search id kind' name = some entry') :
    kind = kind' := by
  obtain ⟨x, hx, hget⟩ := exists_get?_of_find? hfound
  obtain ⟨y, hy, hget'⟩ := exists_get?_of_find? hfound'
  exact (h.unique hx hy hget hget').2

/-- What a name stands for in a scope, whatever its kind, when the kinds are searched in the given
order. -/
def searchIn (t : ScopeTree) (order : List DeclKind) (id : ScopeId) (name : String) :
    Option (DeclKind × Entry) :=
  order.findSome? fun kind => (t.search id kind name).map (kind, ·)

/-- What a search in some order finds is found as its kind. -/
theorem search_of_searchIn {order : List DeclKind} {found : DeclKind × Entry}
    (h : t.searchIn order id name = some found) :
    found.1 ∈ order ∧ t.search id found.1 name = some found.2 := by
  obtain ⟨kind, hkind, hmap⟩ := List.exists_of_findSome?_eq_some h
  obtain ⟨entry, hsearch, rfl⟩ := Option.map_eq_some_iff.1 hmap
  exact ⟨hkind, hsearch⟩

/-- A search for all kinds finds what is found as some kind, whatever the order. -/
theorem InFile.searchIn_eq_some_iff (h : t.InFile) {order : List DeclKind}
    (hall : ∀ kind, kind ∈ order) {found : DeclKind × Entry} :
    t.searchIn order id name = some found ↔ t.search id found.1 name = some found.2 := by
  constructor
  · exact fun hfound => (search_of_searchIn hfound).2
  · intro hsearch
    cases hother : t.searchIn order id name with
    | none =>
        have hnone := List.findSome?_eq_none_iff.1 hother found.1 (hall found.1)
        rw [hsearch] at hnone
        cases hnone
    | some other =>
        obtain ⟨-, hsearch'⟩ := search_of_searchIn hother
        obtain ⟨kind, entry⟩ := found
        obtain ⟨kind', entry'⟩ := other
        obtain rfl : kind' = kind := h.search_unique hsearch' hsearch
        rw [show t.search id kind' name = some entry' from hsearch'] at hsearch
        cases hsearch
        rfl

/-- **The order of the kinds makes no difference** to what a name stands for. -/
theorem InFile.searchIn_eq (h : t.InFile) {order order' : List DeclKind}
    (hall : ∀ kind, kind ∈ order) (hall' : ∀ kind, kind ∈ order') (id : ScopeId) (name : String) :
    t.searchIn order id name = t.searchIn order' id name := by
  ext found
  rw [h.searchIn_eq_some_iff hall, h.searchIn_eq_some_iff hall']

end FrontEnd.ScopeTree
