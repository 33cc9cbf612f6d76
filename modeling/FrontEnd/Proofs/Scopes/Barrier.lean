/-
**How far a search sees.**

A search goes from a scope outwards, from parent to parent, and takes the nearest scope that has the
name.  The function that it leaves first is a barrier: of what stands further out only files and the
built-in types are in sight.  So a name that is declared behind the barrier, in a function or a
block around the function, is not noticed inside of it, neither by those who look for a name nor by
those who declare one; for the ledger in which such a name is noted belongs to a file that is
further out still.

Main definitions:

* `FrontEnd.ScopeTree.Reachable` — the scopes after calls that make new ones below existing ones;
* `FrontEnd.ScopeTree.outer?` — the scope that is some parents further out;
* `FrontEnd.ScopeTree.IsBarrier`, `FrontEnd.ScopeTree.InSight` — the function that is left first,
  and the scopes that a search looks into.

Main results:

* `FrontEnd.ScopeTree.find?_eq_some_iff`, `FrontEnd.ScopeTree.find?_eq_none_iff` — what is found on
  a chain of parents;
* `FrontEnd.ScopeTree.find?_map_changeAt_of_unseen` — what is out of sight may change;
* `FrontEnd.ScopeTree.exists_declare_iff` — when a name can be declared;
* `FrontEnd.ScopeTree.search_barrier` — **the barrier is exact**.
-/

import FrontEnd.Proofs.Scopes.Lasting

set_option relaxedAutoImplicit false
set_option autoImplicit false

namespace FrontEnd.ScopeTree

variable {t t' : ScopeTree} {id target : ScopeId} {scope : Scope} {kind kind' : DeclKind}
  {name name' : String} {decl : DeclId} {place : Position} {entry : Entry} {m n : Nat}
  {x y : ScopeId × Scope} {chain : List (ScopeId × Scope)} {leftFunction : Bool}

/-! ### Reachable scopes -/

/-- The scopes come about by calls, each of which makes new scopes below existing ones only. -/
def Reachable (t : ScopeTree) : Prop :=
  ∃ calls, initial.parentsExist calls = true ∧ t = initial.after calls

theorem ParentsOlder.noteNested (older : t.ParentsOlder) (id : ScopeId) (name : String)
    (place : Position) : (t.noteNested id name place).ParentsOlder := by
  unfold ScopeTree.noteNested
  split
  · exact older.modify (fun scope => scope.note_parent name place) _
  · exact older

theorem ParentsOlder.declare (older : t.ParentsOlder)
    (hdeclare : t.declare id kind name decl place = .ok t') : t'.ParentsOlder := by
  obtain ⟨hid, rfl | rfl⟩ := declare_ok hdeclare
  · exact older.modify (fun scope => scope.bind_parent _) hid
  · exact (older.noteNested id name place).modify (fun scope => scope.bind_parent _) hid

/-- A copy has an older parent, as the original has. -/
theorem ParentsOlder.push_copy (older : t.ParentsOlder) (hscope : t.scope? id = some scope) :
    (t.push scope).ParentsOlder :=
  older.push fun _ hparent =>
    Nat.lt_trans (older id scope _ hscope hparent) (index_lt_size_of_scope? hscope)

/-- Whatever calls came first, parents are older than their children. -/
theorem Reachable.parentsOlder (h : t.Reachable) : t.ParentsOlder := by
  obtain ⟨calls, hcalls, rfl⟩ := h
  refine after_keeps_of_parentsExist (fun _ _ _ older hscope => older.push_copy hscope)
    (fun _ _ _ _ _ _ _ older hdeclare => older.declare hdeclare) ?_ calls hcalls
    lexical_initial.parentsOlder
  intro t kind parent scope older hscope
  refine older.push fun other hother => ?_
  cases hother
  exact index_lt_size_of_scope? hscope

/-! ### Scopes further out -/

/-- The scope that is `n` parents further out, with its number. -/
def outer? (t : ScopeTree) : Nat → ScopeId → Option (ScopeId × Scope)
  | 0, id => (t.scope? id).map (id, ·)
  | n + 1, id => ((t.scope? id).bind Scope.parent?).bind (t.outer? n)

/-- The scope `n` parents further out stands at place `n` of the chain. -/
theorem getElem?_chain (older : t.ParentsOlder) (n : Nat) (id : ScopeId) :
    (t.chain id)[n]? = t.outer? n id := by
  induction n generalizing id with
  | zero =>
      rw [outer?]
      cases hscope : t.scope? id with
      | none => simp [chain_of_none hscope]
      | some scope =>
          cases hparent : scope.parent? with
          | none => simp [chain_of_root hscope hparent]
          | some parent => simp [chain_of_parent older hscope hparent]
  | succ n ih =>
      rw [outer?]
      cases hscope : t.scope? id with
      | none => simp [chain_of_none hscope]
      | some scope =>
          cases hparent : scope.parent? with
          | none => simp [chain_of_root hscope hparent, hparent]
          | some parent => simp [chain_of_parent older hscope hparent, hparent, ih]

theorem scope?_of_outer? (h : t.outer? n id = some x) : t.scope? x.1 = some x.2 := by
  induction n generalizing id with
  | zero =>
      obtain ⟨scope, hscope, rfl⟩ := Option.map_eq_some_iff.1 h
      exact hscope
  | succ n ih =>
      obtain ⟨parent, -, h⟩ := Option.bind_eq_some_iff.1 h
      exact ih h

/-- Something is further out of existing scopes only. -/
theorem outer?_zero_of_outer? (h : t.outer? n id = some x) :
    ∃ scope, t.outer? 0 id = some (id, scope) := by
  obtain ⟨scope, hscope⟩ : ∃ scope, t.scope? id = some scope := by
    cases n with
    | zero =>
        obtain ⟨scope, hscope, -⟩ := Option.map_eq_some_iff.1 h
        exact ⟨scope, hscope⟩
    | succ n =>
        obtain ⟨parent, hparent, -⟩ := Option.bind_eq_some_iff.1 h
        obtain ⟨scope, hscope, -⟩ := Option.bind_eq_some_iff.1 hparent
        exact ⟨scope, hscope⟩
  exact ⟨scope, by rw [outer?, hscope, Option.map_some]⟩

/-- Further out no scope is younger. -/
theorem ParentsOlder.index_le_of_outer? (older : t.ParentsOlder) (hx : t.outer? n id = some x) :
    x.1.index ≤ id.index := by
  rw [← getElem?_chain older] at hx
  exact older.index_le_of_mem_chain (List.mem_of_getElem? hx)

/-- Further out the scopes are older. -/
theorem ParentsOlder.index_lt_of_outer? (older : t.ParentsOlder) (hx : t.outer? m id = some x)
    (hy : t.outer? n id = some y) (hlt : m < n) : y.1.index < x.1.index := by
  induction m generalizing n id with
  | zero =>
      obtain ⟨n, rfl⟩ : ∃ k, n = k + 1 := ⟨n - 1, by omega⟩
      obtain ⟨scope, hscope, rfl⟩ := Option.map_eq_some_iff.1 hx
      rw [outer?, hscope, Option.bind_some] at hy
      obtain ⟨parent, hparent, hy⟩ := Option.bind_eq_some_iff.1 hy
      have hle := older.index_le_of_outer? hy
      exact Nat.lt_of_le_of_lt hle (older id scope parent hscope hparent)
  | succ m ih =>
      obtain ⟨n, rfl⟩ : ∃ k, n = k + 1 := ⟨n - 1, by omega⟩
      rw [outer?] at hx hy
      obtain ⟨parent, hparent, hx⟩ := Option.bind_eq_some_iff.1 hx
      rw [hparent, Option.bind_some] at hy
      exact ih hx hy (Nat.lt_of_succ_lt_succ hlt)

/-! ### What a search looks into -/

/-- A search on a chain looks into the scope at place `n`. -/
def Counts (leftFunction : Bool) (chain : List (ScopeId × Scope)) (n : Nat) (scope : Scope) :
    Prop :=
  scope.kind.isGlobal = true ∨
    leftFunction = false ∧ ∀ m < n, ∀ x, chain[m]? = some x → x.2.kind ≠ .function

theorem counts_zero : Counts leftFunction chain 0 scope ↔
    (leftFunction && !scope.kind.isGlobal) = false := by
  cases leftFunction <;> simp [Counts]

/-- A scope further out counts as it does behind the first one, where a function may have been
left. -/
theorem counts_succ : Counts leftFunction (x :: chain) (n + 1) scope ↔
    Counts (leftFunction || x.2.kind == .function) chain n scope := by
  unfold Counts
  refine or_congr Iff.rfl ?_
  rw [Bool.or_eq_false_iff, beq_eq_false_iff_ne, and_assoc]
  refine and_congr_right fun _ => ?_
  constructor
  · intro h
    exact ⟨h 0 (Nat.succ_pos n) x rfl, fun m hm => h (m + 1) (Nat.succ_lt_succ hm)⟩
  · rintro ⟨hx, h⟩ m hm y hy
    cases m with
    | zero =>
        cases hy
        exact hx
    | succ m => exact h m (Nat.lt_of_succ_lt_succ hm) y hy

theorem find?_cons : find? kind name leftFunction (x :: chain) =
    (if leftFunction && !x.2.kind.isGlobal then none else x.2.get? kind name).or
      (find? kind name (leftFunction || x.2.kind == .function) chain) := by
  rw [find?]
  split
  · next hhere => rw [hhere, Option.some_or]
  · next hhere => rw [hhere, Option.none_or]

/-- The first scope of a chain gives no answer exactly if it does not count or lacks the name. -/
theorem first_eq_none_iff :
    (if leftFunction && !x.2.kind.isGlobal then none else x.2.get? kind name) = none ↔
      (Counts leftFunction (x :: chain) 0 x.2 → x.2.get? kind name = none) := by
  rw [counts_zero]
  cases leftFunction && !x.2.kind.isGlobal <;> simp

/-- **What is found is that of the nearest scope that counts and has the name.** -/
theorem find?_eq_some_iff : find? kind name leftFunction chain = some entry ↔
    ∃ n x, chain[n]? = some x ∧ Counts leftFunction chain n x.2 ∧ x.2.get? kind name = some entry ∧
      ∀ m < n, ∀ y, chain[m]? = some y → Counts leftFunction chain m y.2 →
        y.2.get? kind name = none := by
  induction chain generalizing leftFunction with
  | nil => simp [find?]
  | cons x chain ih =>
      rw [find?_cons, Option.or_eq_some_iff, ih]
      constructor
      · rintro (hhere | ⟨hhere, n, y, hy, hcounts, hget, hnearer⟩)
        · cases hcounts : leftFunction && !x.2.kind.isGlobal with
          | true =>
              rw [hcounts] at hhere
              cases hhere
          | false =>
              rw [hcounts] at hhere
              exact ⟨0, x, rfl, counts_zero.2 hcounts, hhere,
                fun m hm => absurd hm (Nat.not_lt_zero m)⟩
        · refine ⟨n + 1, y, hy, counts_succ.2 hcounts, hget, fun m hm z hz hz' => ?_⟩
          cases m with
          | zero =>
              cases hz
              exact first_eq_none_iff.1 hhere hz'
          | succ m => exact hnearer m (Nat.lt_of_succ_lt_succ hm) z hz (counts_succ.1 hz')
      · rintro ⟨n, y, hy, hcounts, hget, hnearer⟩
        cases n with
        | zero =>
            cases hy
            rw [counts_zero] at hcounts
            exact .inl (by rw [hcounts]; exact hget)
        | succ n =>
            refine .inr ⟨first_eq_none_iff.2 (hnearer 0 (Nat.succ_pos n) x rfl), n, y, hy,
              counts_succ.1 hcounts, hget, fun m hm z hz hz' => ?_⟩
            exact hnearer (m + 1) (Nat.succ_lt_succ hm) z hz (counts_succ.2 hz')

/-- Nothing is found exactly if no scope that counts has the name. -/
theorem find?_eq_none_iff : find? kind name leftFunction chain = none ↔
    ∀ n x, chain[n]? = some x → Counts leftFunction chain n x.2 → x.2.get? kind name = none := by
  induction chain generalizing leftFunction with
  | nil => simp [find?]
  | cons x chain ih =>
      have hfirst : _ ↔ (Counts leftFunction (x :: chain) 0 x.2 → x.2.get? kind name = none) :=
        first_eq_none_iff
      rw [find?_cons, Option.or_eq_none_iff, ih, hfirst]
      constructor
      · rintro ⟨hhere, h⟩ n y hy hcounts
        cases n with
        | zero =>
            cases hy
            exact hhere hcounts
        | succ n => exact h n y hy (counts_succ.1 hcounts)
      · intro h
        exact ⟨h 0 x rfl, fun n y hy hcounts => h (n + 1) y hy (counts_succ.2 hcounts)⟩

/-- **What is out of sight may change**: a scope that does not count makes no difference to a
search. -/
theorem find?_map_changeAt_of_unseen {f : Scope → Scope}
    (hkind : ∀ scope, (f scope).kind = scope.kind)
    (hunseen : ∀ n x, chain[n]? = some x → Counts leftFunction chain n x.2 → x.1 ≠ target) :
    find? kind name leftFunction (chain.map (changeAt target f)) =
      find? kind name leftFunction chain := by
  induction chain generalizing leftFunction with
  | nil => rfl
  | cons x chain ih =>
      have hrest : find? kind name (leftFunction || x.2.kind == .function)
          (chain.map (changeAt target f)) = _ :=
        ih fun n y hy hcounts => hunseen (n + 1) y hy (counts_succ.2 hcounts)
      have hsame : (changeAt target f x).2.kind = x.2.kind :=
        changeAt_keeps Scope.kind hkind target x
      rw [List.map_cons, find?_cons, find?_cons, hsame, hrest]
      cases hcounts : leftFunction && !x.2.kind.isGlobal with
      | true => rfl
      | false =>
          have hne : ¬ target = x.1 := Ne.symm (hunseen 0 x rfl (counts_zero.2 hcounts))
          rw [changeAt, if_neg hne]

/-! ### The barrier -/

/-- `n` parents further out stands the function that a search from the scope leaves first. -/
structure IsBarrier (t : ScopeTree) (id : ScopeId) (n : Nat) : Prop where
  /-- It is a function. -/
  function : ∃ x, t.outer? n id = some x ∧ x.2.kind = .function
  /-- There is none nearer. -/
  first : ∀ m < n, ∀ x, t.outer? m id = some x → x.2.kind ≠ .function

/-- The scope `x` stands `n` parents further out and is in sight: it is not behind the barrier, or
it is a file or the scope of the built-in types. -/
structure InSight (t : ScopeTree) (id : ScopeId) (n : Nat) (x : ScopeId × Scope) : Prop where
  /-- Where the scope stands. -/
  stands : t.outer? n id = some x
  /-- It is at the barrier or nearer, or its names are visible everywhere. -/
  seen : (∀ g, t.IsBarrier id g → n ≤ g) ∨ x.2.kind = .file ∨ x.2.kind = .builtIn

/-- Whoever leaves a function has left one first. -/
theorem exists_isBarrier (hx : t.outer? n id = some x) (hkind : x.2.kind = .function) :
    ∃ g ≤ n, t.IsBarrier id g := by
  induction n using Nat.strongRecOn generalizing x with
  | ind n ih =>
      by_cases hnearer : ∃ m < n, ∃ y, t.outer? m id = some y ∧ y.2.kind = .function
      · obtain ⟨m, hm, y, hy, hfunction⟩ := hnearer
        obtain ⟨g, hg, hbarrier⟩ := ih m hm hy hfunction
        exact ⟨g, Nat.le_trans hg (Nat.le_of_lt hm), hbarrier⟩
      · exact ⟨n, Nat.le_refl n, ⟨x, hx, hkind⟩,
          fun m hm y hy hfunction => hnearer ⟨m, hm, y, hy, hfunction⟩⟩

/-- No function is left before the scopes that are not behind the barrier. -/
theorem forall_isBarrier_le_iff : (∀ g, t.IsBarrier id g → n ≤ g) ↔
    ∀ m < n, ∀ x, t.outer? m id = some x → x.2.kind ≠ .function := by
  constructor
  · intro h m hm x hx hkind
    obtain ⟨g, hg, hbarrier⟩ := exists_isBarrier hx hkind
    exact absurd (h g hbarrier) (by omega)
  · intro h g hbarrier
    obtain ⟨x, hx, hkind⟩ := hbarrier.function
    exact Nat.le_of_not_lt fun hlt => h g hlt x hx hkind

theorem isGlobal_iff {kind : ScopeKind} :
    kind.isGlobal = true ↔ kind = .file ∨ kind = .builtIn := by
  cases kind <;> simp [ScopeKind.isGlobal]

/-- A search looks into the scopes that are in sight. -/
theorem inSight_iff (older : t.ParentsOlder) : t.InSight id n x ↔
    (t.chain id)[n]? = some x ∧ Counts false (t.chain id) n x.2 := by
  simp only [Counts, getElem?_chain older, true_and, ← forall_isBarrier_le_iff,
    isGlobal_iff]
  exact ⟨fun h => ⟨h.stands, h.seen.symm⟩, fun h => ⟨h.1, h.2.symm⟩⟩

/-- **What a search finds** is what the nearest scope in sight that has the name says. -/
theorem search_eq_some_iff (older : t.ParentsOlder) : t.search id kind name = some entry ↔
    ∃ n x, t.InSight id n x ∧ x.2.get? kind name = some entry ∧
      ∀ m < n, ∀ y, t.InSight id m y → y.2.get? kind name = none := by
  rw [search, find?_eq_some_iff]
  simp only [inSight_iff older, and_assoc, and_imp]

/-- A search finds nothing exactly if nothing in sight has the name. -/
theorem search_eq_none_iff (older : t.ParentsOlder) : t.search id kind name = none ↔
    ∀ n x, t.InSight id n x → x.2.get? kind name = none := by
  rw [search, find?_eq_none_iff]
  simp only [inSight_iff older, and_imp]

/-! ### Declarations out of sight -/

/-- A name that is bound where nobody sees it from the scope changes no search from there. -/
theorem search_bind_of_unseen (older : t.ParentsOlder) {htarget : target ≠ .builtIn} (b : Binding)
    (hunseen : ∀ n x, t.InSight id n x → x.1 ≠ target) (kind : DeclKind) (name : String) :
    (t.modify target (·.bind b) htarget).search id kind name = t.search id kind name := by
  rw [search, chain_modify fun scope => scope.bind_parent b, search]
  refine find?_map_changeAt_of_unseen (fun scope => scope.bind_kind b) fun n x hx hcounts => ?_
  exact hunseen n x ((inSight_iff older).2 ⟨hx, hcounts⟩)

/-- A scope that keeps its kind and its parent is in sight where it was. -/
theorem exists_inSight_of_modify (older : t.ParentsOlder) {htarget : target ≠ .builtIn}
    {f : Scope → Scope}
    (hparent : ∀ scope, (f scope).parent? = scope.parent?)
    (hkind : ∀ scope, (f scope).kind = scope.kind)
    (h : (t.modify target f htarget).InSight id n x) :
    ∃ y, t.InSight id n y ∧ x = changeAt target f y := by
  rw [inSight_iff (older.modify hparent htarget), chain_modify hparent, List.getElem?_map] at h
  obtain ⟨hx, hcounts⟩ := h
  obtain ⟨y, hy, rfl⟩ := Option.map_eq_some_iff.1 hx
  refine ⟨y, (inSight_iff older).2 ⟨hy, hcounts.imp (fun hglobal => ?_) fun ⟨hleft, hfirst⟩ => ?_⟩,
    rfl⟩
  · rwa [changeAt_keeps Scope.kind hkind] at hglobal
  · refine ⟨hleft, fun m hm z hz hfunction => ?_⟩
    refine hfirst m hm (changeAt target f z) (by rw [List.getElem?_map, hz, Option.map_some]) ?_
    rw [changeAt_keeps Scope.kind hkind, hfunction]

theorem exists_inSight_of_noteNested (older : t.ParentsOlder)
    (h : (t.noteNested target name place).InSight id n x) :
    ∃ y, t.InSight id n y ∧ x.1 = y.1 := by
  unfold noteNested at h
  split at h
  · obtain ⟨y, hy, rfl⟩ := exists_inSight_of_modify older
      (fun scope => scope.note_parent name place) (fun scope => scope.note_kind name place) h
    exact ⟨y, hy, rfl⟩
  · exact ⟨x, h, rfl⟩

/-- **A declaration out of sight changes no search.** -/
theorem search_declare_of_unseen (older : t.ParentsOlder)
    (hdeclare : t.declare target kind name decl place = .ok t')
    (hunseen : ∀ n x, t.InSight id n x → x.1 ≠ target) (kind' : DeclKind) (name' : String) :
    t'.search id kind' name' = t.search id kind' name' := by
  obtain ⟨-, rfl | rfl⟩ := declare_ok hdeclare
  · exact search_bind_of_unseen older _ hunseen kind' name'
  · rw [search_bind_of_unseen (older.noteNested target name place) _ ?_ kind' name',
      search_noteNested]
    intro n x hx
    obtain ⟨y, hy, hxy⟩ := exists_inSight_of_noteNested older hx
    rw [hxy]
    exact hunseen n y hy

/-- **When a name can be declared**: in a scope that is not the one of the built-in types, if
nothing of the name is visible there and, in case of a file, the ledger does not have it. -/
theorem exists_declare_iff : (∃ t', t.declare id kind name decl place = .ok t') ↔
    ∃ scope, t.scope? id = some scope ∧ scope.kind ≠ .builtIn ∧
      (∀ kind, t.search id kind name = none) ∧
      (scope.kind = .file → scope.nested.lookup name = none) := by
  constructor
  · rintro ⟨t', hdeclare⟩
    obtain ⟨scope, -, hscope, hfree, ⟨hfile, hnested, -⟩ | ⟨hlocal, -⟩⟩ := declare_cases hdeclare
    · exact ⟨scope, hscope, by rw [hfile]; decide, hfree, fun _ => hnested⟩
    · refine ⟨scope, hscope, fun hkind => ?_, hfree, fun hkind => ?_⟩ <;>
        · rw [hkind] at hlocal
          cases hlocal
  · rintro ⟨scope, hscope, hkind, hfree, hledger⟩
    rw [declare_of_kind hscope hkind, searchAny_eq_none_iff.2 hfree]
    by_cases hfile : scope.kind = .file
    · simp only [if_pos hfile, hledger hfile]
      exact ⟨_, rfl⟩
    · simp only [if_neg hfile]
      exact ⟨_, rfl⟩

/-- Behind the barrier nothing but files and built-in types is in sight. -/
theorem InSight.ne_of_behind (older : t.ParentsOlder) {g : Nat} (hbarrier : t.IsBarrier id g)
    (hlt : g < n) (hy : t.outer? n id = some y) (hlocal : y.2.kind.isGlobal = false)
    (hx : t.InSight id m x) : x.1 ≠ y.1 := by
  intro hxy
  rcases hx.seen with hle | hglobal
  · -- a scope that is further out is older
    have hage := older.index_lt_of_outer? hx.stands hy (Nat.lt_of_le_of_lt (hle g hbarrier) hlt)
    rw [hxy] at hage
    exact Nat.lt_irrefl _ hage
  · have hsame : t.scope? x.1 = some y.2 := by rw [hxy, scope?_of_outer? hy]
    rw [scope?_of_outer? hx.stands, Option.some.injEq] at hsame
    rw [hsame, ← isGlobal_iff, hlocal] at hglobal
    cases hglobal

/-- A declaration further out leaves the scope as it is: the name goes into a scope further out, and
into the ledger of a file that is not nearer. -/
theorem scope?_declare_of_outer (older : t.ParentsOlder)
    (hdeclare : t.declare target kind name decl place = .ok t') (hlt : target.index < id.index) :
    t'.scope? id = t.scope? id := by
  have hne : ∀ {other : ScopeId}, other.index ≤ target.index → ¬ other = id := by
    rintro other hle rfl
    omega
  obtain ⟨-, rfl | rfl⟩ := declare_ok hdeclare
  · rw [scope?_modify, if_neg (hne (Nat.le_refl _))]
  · rw [scope?_modify, if_neg (hne (Nat.le_refl _)), noteNested]
    split
    · next file hfile =>
        obtain ⟨x, hx, rfl⟩ := Option.map_eq_some_iff.1 hfile
        have hle := older.index_le_of_mem_chain (List.mem_of_find?_eq_some hx)
        rw [scope?_modify, if_neg (hne hle)]
    · rfl

/-- **The barrier is exact.**  Whatever calls came first, a search finds what the nearest scope in
sight that has the name says, and nothing if there is none.  So, if a function is left on the way, a
declaration in a function or a block behind it changes neither what is found nor what can be
declared. -/
theorem search_barrier (h : t.Reachable) (id : ScopeId) :
    (∀ kind name entry, t.search id kind name = some entry ↔
      ∃ n x, t.InSight id n x ∧ x.2.get? kind name = some entry ∧
        ∀ m < n, ∀ y, t.InSight id m y → y.2.get? kind name = none) ∧
    (∀ kind name, t.search id kind name = none ↔
      ∀ n x, t.InSight id n x → x.2.get? kind name = none) ∧
    ∀ g n behind kind name decl place t', t.IsBarrier id g → g < n →
      t.outer? n id = some behind → (behind.2.kind = .block ∨ behind.2.kind = .function) →
      t.declare behind.1 kind name decl place = .ok t' →
      (∀ kind name, t'.search id kind name = t.search id kind name) ∧
        ∀ kind name decl place, (∃ u, t'.declare id kind name decl place = .ok u) ↔
          ∃ u, t.declare id kind name decl place = .ok u := by
  have older := h.parentsOlder
  refine ⟨fun kind name entry => search_eq_some_iff older,
    fun kind name => search_eq_none_iff older, ?_⟩
  intro g n behind kind name decl place t' hbarrier hlt hbehind hkind hdeclare
  have hlocal : behind.2.kind.isGlobal = false := by
    rcases hkind with hkind | hkind <;> rw [hkind] <;> rfl
  have hsearch : ∀ kind name, t'.search id kind name = t.search id kind name :=
    search_declare_of_unseen older hdeclare fun m x hx =>
      hx.ne_of_behind older hbarrier hlt hbehind hlocal
  -- the scope itself stands nearer than the one that changes
  obtain ⟨scope, hhere⟩ := outer?_zero_of_outer? hbehind
  have hscope : t'.scope? id = t.scope? id := scope?_declare_of_outer older hdeclare
    (older.index_lt_of_outer? hhere hbehind (Nat.zero_lt_of_lt hlt))
  refine ⟨hsearch, fun kind name decl place => ?_⟩
  simp only [exists_declare_iff, hscope, hsearch]

/-- A function in a block of a function, each with a variable, and a block in the inner one. -/
def nestedCalls : List Call :=
  [.nest .function .file, .declare ⟨2⟩ .var "outer" ⟨0⟩ ⟨0, 0⟩, .nest .block ⟨2⟩,
    .nest .function ⟨3⟩, .declare ⟨4⟩ .var "inner" ⟨1⟩ ⟨1, 0⟩, .nest .block ⟨4⟩]

/-- In the innermost block the variable of the outer function is out of sight, and so is a type that
the block around the inner function gets: its name can be declared again. -/
theorem search_barrier_nested : ∃ (t : ScopeTree) (behind : ScopeId × Scope) (t' : ScopeTree),
    t.Reachable ∧ t.IsBarrier ⟨5⟩ 1 ∧ t.outer? 2 ⟨5⟩ = some behind ∧ behind.2.kind = .block ∧
    t.declare behind.1 .type "late" ⟨2⟩ ⟨2, 0⟩ = .ok t' ∧
    t.search ⟨5⟩ .var "inner" = some ⟨⟨1⟩, some ⟨1, 0⟩⟩ ∧ t.search ⟨5⟩ .var "outer" = none ∧
    t'.search ⟨5⟩ .type "late" = none ∧ ∃ u, t'.declare ⟨5⟩ .var "late" ⟨3⟩ ⟨3, 0⟩ = .ok u := by
  have hreachable : (initial.after nestedCalls).Reachable := ⟨nestedCalls, by decide, rfl⟩
  have hbarrier : (initial.after nestedCalls).IsBarrier ⟨5⟩ 1 := by
    refine ⟨⟨_, rfl, rfl⟩, fun m hm x hx => ?_⟩
    obtain rfl : m = 0 := by omega
    cases hx
    decide
  obtain ⟨-, -, hbehind⟩ := search_barrier hreachable ⟨5⟩
  obtain ⟨hsearch, hdeclare⟩ := hbehind 1 2 _ .type "late" ⟨2⟩ ⟨2, 0⟩ _ hbarrier (by decide) rfl
    (.inl rfl) rfl
  exact ⟨_, _, _, hreachable, hbarrier, rfl, rfl, rfl, by decide, by decide,
    by rw [hsearch]; decide, (hdeclare .var "late" ⟨3⟩ ⟨3, 0⟩).2 ⟨_, rfl⟩⟩

end FrontEnd.ScopeTree
