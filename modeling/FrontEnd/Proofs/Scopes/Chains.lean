/-
**Chains of parents while scopes change.**

A scope keeps its kind and its parent for good, so a chain of parents can only grow at its far end,
where a parent was still missing, and what is declared on the way leaves the chain in place.  Whoever
sees nothing of a name sees nothing of it in the global scopes further out, and whoever sees it from
inside of a function sees something of it from outside, too.

Main results:

* `FrontEnd.ScopeTree.ParentsOlder.induction` — from parents to children;
* `FrontEnd.ScopeTree.chain_prefix_push`, `FrontEnd.ScopeTree.chain_push_of_some` — chains when a
  scope is added;
* `FrontEnd.ScopeTree.chain_modify`, `FrontEnd.ScopeTree.enclosingFile?_modify` — chains when a scope
  is changed;
* `FrontEnd.ScopeTree.find?_of_longer`, `FrontEnd.ScopeTree.isSome_find?_of_left`,
  `FrontEnd.ScopeTree.get?_eq_none_of_find?` — what is found on chains;
* `FrontEnd.ScopeTree.declare_cases` — what declaring a name comes to.
-/

import FrontEnd.Proofs.Scopes.Declaring
import FrontEnd.Proofs.Scopes.Kinds

set_option relaxedAutoImplicit false
set_option autoImplicit false

namespace FrontEnd.ScopeTree

variable {t t' : ScopeTree} {id target : ScopeId} {scope new : Scope} {kind : DeclKind}
  {name : String} {decl : DeclId} {place : Position} {entry : Entry} {m n : Nat}

/-! ### Longer bounds -/

/-- A longer chain starts with the shorter one. -/
theorem chainUpTo_prefix_succ (t : ScopeTree) (n : Nat) (id : ScopeId) :
    t.chainUpTo n id <+: t.chainUpTo (n + 1) id := by
  induction n generalizing id with
  | zero => exact List.nil_prefix
  | succ n ih =>
      rw [chainUpTo, chainUpTo]
      cases t.scope? id with
      | none => exact List.prefix_rfl
      | some scope =>
          refine (List.prefix_cons_inj _).2 ?_
          cases scope.parent? with
          | none => exact List.prefix_rfl
          | some parent => exact ih parent

theorem chainUpTo_longer (t : ScopeTree) (id : ScopeId) (h : m ≤ n) :
    t.chainUpTo m id <+: t.chainUpTo n id := by
  induction h with
  | refl => exact List.prefix_rfl
  | step _ ih => exact ih.trans (chainUpTo_prefix_succ t _ id)

/-! ### Older parents -/

theorem chain_of_none (hscope : t.scope? id = none) : t.chain id = [] := by
  unfold chain
  cases t.scopes.size with
  | zero => rfl
  | succ n => simp only [chainUpTo, hscope]

/-- An older parent is a scope. -/
theorem ParentsOlder.exists_parent (older : t.ParentsOlder) (hscope : t.scope? id = some scope)
    {parent : ScopeId} (hparent : scope.parent? = some parent) :
    ∃ outer, t.scope? parent = some outer := by
  have hlt := older id scope parent hscope hparent
  have hsize := index_lt_size_of_scope? hscope
  exact ⟨_, Array.getElem?_eq_getElem (Nat.lt_trans hlt hsize)⟩

/-- What holds of a scope if it holds of its parent holds of all scopes. -/
theorem ParentsOlder.induction {motive : ScopeId → Prop} (older : t.ParentsOlder)
    (missing : ∀ id, t.scope? id = none → motive id)
    (root : ∀ id scope, t.scope? id = some scope → scope.parent? = none → motive id)
    (below : ∀ id parent scope, t.scope? id = some scope → scope.parent? = some parent →
      motive parent → motive id) (id : ScopeId) : motive id := by
  induction hn : id.index using Nat.strongRecOn generalizing id with
  | ind n ih =>
      cases hscope : t.scope? id with
      | none => exact missing id hscope
      | some scope =>
          cases hparent : scope.parent? with
          | none => exact root id scope hscope hparent
          | some parent =>
              have hlt := older id scope parent hscope hparent
              exact below id parent scope hscope hparent (ih parent.index (hn ▸ hlt) parent rfl)

/-! ### A further scope -/

/-- A further scope leaves the chains that are there. -/
theorem chainUpTo_prefix_push (t : ScopeTree) (new : Scope) (n : Nat) (id : ScopeId) :
    t.chainUpTo n id <+: (t.push new).chainUpTo n id := by
  induction n generalizing id with
  | zero => exact List.nil_prefix
  | succ n ih =>
      rw [chainUpTo, chainUpTo]
      cases hscope : t.scope? id with
      | none => exact List.nil_prefix
      | some scope =>
          rw [scope?_push_of_some hscope]
          refine (List.prefix_cons_inj _).2 ?_
          cases scope.parent? with
          | none => exact List.prefix_rfl
          | some parent => exact ih parent

/-- A further scope can only make a chain longer. -/
theorem chain_prefix_push (t : ScopeTree) (new : Scope) (id : ScopeId) :
    t.chain id <+: (t.push new).chain id := by
  have hsize : t.scopes.size ≤ (t.push new).scopes.size := by simp [push]
  exact (chainUpTo_prefix_push t new _ id).trans (chainUpTo_longer _ id hsize)

/-- A scope that is made below an existing one keeps every parent older than its child. -/
theorem ParentsOlder.push (older : t.ParentsOlder)
    (hnew : ∀ parent, new.parent? = some parent → parent.index < t.scopes.size) :
    (t.push new).ParentsOlder := by
  intro id scope parent hscope hparent
  rw [scope?_push] at hscope
  split at hscope
  · next hid =>
      cases hscope
      rw [hid]
      exact hnew parent hparent
  · exact older id scope parent hscope hparent

/-- Where parents are older, a further scope is on no chain but its own. -/
theorem chain_push_of_some (older : t.ParentsOlder) (older' : (t.push new).ParentsOlder)
    (hscope : t.scope? id = some scope) : (t.push new).chain id = t.chain id := by
  induction id using older.induction generalizing scope with
  | missing id hnone =>
      rw [hnone] at hscope
      cases hscope
  | root id scope' hscope' hparent =>
      rw [chain_of_root hscope' hparent, chain_of_root (scope?_push_of_some hscope' new) hparent]
  | below id parent scope' hscope' hparent ih =>
      obtain ⟨outer, houter⟩ := older.exists_parent hscope' hparent
      rw [chain_of_parent older hscope' hparent,
        chain_of_parent older' (scope?_push_of_some hscope' new) hparent, ih houter]

/-- On a chain of older parents there is no younger scope. -/
theorem ParentsOlder.index_le_of_mem_chain (older : t.ParentsOlder) {x : ScopeId × Scope}
    (hx : x ∈ t.chain id) : x.1.index ≤ id.index := by
  induction id using older.induction with
  | missing id hnone =>
      rw [chain_of_none hnone] at hx
      cases hx
  | root id scope hscope hparent =>
      rw [chain_of_root hscope hparent, List.mem_singleton] at hx
      exact Nat.le_of_eq (congrArg (·.1.index) hx)
  | below id parent scope hscope hparent ih =>
      have hlt := older id scope parent hscope hparent
      rw [chain_of_parent older hscope hparent] at hx
      rcases List.mem_cons.1 hx with rfl | hx
      · exact Nat.le_refl _
      · exact Nat.le_trans (ih hx) (Nat.le_of_lt hlt)

/-! ### A changed scope -/

/-- An entry of a chain, when the scope with the given number is changed. -/
def changeAt (target : ScopeId) (f : Scope → Scope) (x : ScopeId × Scope) : ScopeId × Scope :=
  (x.1, if target = x.1 then f x.2 else x.2)

/-- What all changes keep is the same at every place of a chain. -/
theorem changeAt_keeps {α : Type} {f : Scope → Scope} (part : Scope → α)
    (hpart : ∀ scope, part (f scope) = part scope) (target : ScopeId) (x : ScopeId × Scope) :
    part (changeAt target f x).2 = part x.2 := by
  unfold changeAt
  split
  · exact hpart x.2
  · rfl

/-- A change to one scope that keeps its parent changes the chains at that scope only. -/
theorem chainUpTo_modify {f : Scope → Scope} (hparent : ∀ scope, (f scope).parent? = scope.parent?)
    (t : ScopeTree) (htarget : target ≠ .builtIn) (n : Nat) (id : ScopeId) :
    (t.modify target f htarget).chainUpTo n id = (t.chainUpTo n id).map (changeAt target f) := by
  induction n generalizing id with
  | zero => rfl
  | succ n ih =>
      rw [chainUpTo, chainUpTo, scope?_modify]
      cases t.scope? id with
      | none => simp
      | some scope =>
          have hscope : (if target = id then (some scope).map f else some scope) =
              some (changeAt target f (id, scope)).2 := by
            unfold changeAt
            split <;> rfl
          have hsame : (changeAt target f (id, scope)).2.parent? = scope.parent? :=
            changeAt_keeps Scope.parent? hparent target (id, scope)
          rw [hscope]
          simp only [List.map_cons, hsame]
          refine List.cons_eq_cons.2 ⟨rfl, ?_⟩
          cases scope.parent? with
          | none => rfl
          | some parent => exact ih parent

/-- A scope that keeps its parent stays at its places on all chains. -/
theorem chain_modify {f : Scope → Scope} (hparent : ∀ scope, (f scope).parent? = scope.parent?)
    (t : ScopeTree) (htarget : target ≠ .builtIn) (id : ScopeId) :
    (t.modify target f htarget).chain id = (t.chain id).map (changeAt target f) := by
  have hsize : (t.modify target f htarget).scopes.size = t.scopes.size := by simp [modify]
  rw [chain, hsize, chainUpTo_modify hparent, chain]

theorem enclosingFile?_modify {f : Scope → Scope}
    (hparent : ∀ scope, (f scope).parent? = scope.parent?)
    (hkind : ∀ scope, (f scope).kind = scope.kind) (t : ScopeTree)
    (htarget : target ≠ .builtIn) (id : ScopeId) :
    (t.modify target f htarget).enclosingFile? id = t.enclosingFile? id := by
  rw [enclosingFile?, chain_modify hparent, List.find?_map, Option.map_map]
  simp only [Function.comp_def, changeAt_keeps Scope.kind hkind]
  rfl

theorem ParentsOlder.modify (older : t.ParentsOlder) {f : Scope → Scope}
    (hparent : ∀ scope, (f scope).parent? = scope.parent?) (htarget : target ≠ .builtIn) :
    (t.modify target f htarget).ParentsOlder := by
  intro id scope parent hscope hscopeParent
  rw [scope?_modify] at hscope
  split at hscope
  · obtain ⟨old, hold, rfl⟩ := Option.map_eq_some_iff.1 hscope
    rw [hparent] at hscopeParent
    exact older id old parent hold hscopeParent
  · exact older id scope parent hscope hscopeParent

/-! ### Finding names on chains -/

/-- What is found stays found when the chain goes on. -/
theorem find?_of_longer {chain longer : List (ScopeId × Scope)} (h : chain <+: longer)
    {leftFunction : Bool} (hfound : find? kind name leftFunction chain = some entry) :
    find? kind name leftFunction longer = some entry := by
  induction chain generalizing longer leftFunction with
  | nil => cases hfound
  | cons x chain ih =>
      obtain ⟨rest, rfl⟩ := h
      rw [List.cons_append, find?]
      rw [find?] at hfound
      split
      · next hhere =>
          rw [hhere] at hfound
          exact hfound
      · next hhere =>
          rw [hhere] at hfound
          exact ih (List.prefix_append chain rest) hfound

/-- What is visible where a function was left is visible, or hidden by something nearer, where none
was left. -/
theorem isSome_find?_of_left {chain : List (ScopeId × Scope)}
    (h : (find? kind name true chain).isSome = true) (leftFunction : Bool) :
    (find? kind name leftFunction chain).isSome = true := by
  induction chain generalizing leftFunction with
  | nil => cases h
  | cons x chain ih =>
      cases leftFunction with
      | true => exact h
      | false =>
          rw [find?] at h ⊢
          simp only [Bool.true_and, Bool.true_or, Bool.false_and, Bool.false_eq_true,
            if_false] at h ⊢
          cases hget : x.2.get? kind name with
          | some entry => rfl
          | none =>
              rw [hget, ite_self] at h
              exact ih h _

/-- A global scope on the chain has no name of which nothing is found. -/
theorem get?_eq_none_of_find? {chain : List (ScopeId × Scope)} {leftFunction : Bool}
    (hnone : find? kind name leftFunction chain = none) {x : ScopeId × Scope} (hx : x ∈ chain)
    (hglobal : x.2.kind.isGlobal = true) : x.2.get? kind name = none := by
  induction chain generalizing leftFunction with
  | nil => cases hx
  | cons y chain ih =>
      rw [find?] at hnone
      split at hnone
      · cases hnone
      · next hhere =>
          rcases List.mem_cons.1 hx with rfl | hx
          · simpa [hglobal] using hhere
          · exact ih hnone hx

/-! ### Declaring -/

/-- **What declaring a name comes to.**  Nothing of the name was visible before.  A file scope takes
the name if its ledger does not have it; in any other scope the name is also noted in the ledger of
the file around it. -/
theorem declare_cases (h : t.declare id kind name decl place = .ok t') :
    ∃ scope hid, t.scope? id = some scope ∧ (∀ kind, t.search id kind name = none) ∧
      ((scope.kind = .file ∧ scope.nested.lookup name = none ∧
          t' = t.modify id (·.bind ⟨kind, name, ⟨decl, some place⟩⟩) hid) ∨
        (scope.kind.isGlobal = false ∧
          t' = (t.noteNested id name place).modify id
            (·.bind ⟨kind, name, ⟨decl, some place⟩⟩) hid)) := by
  unfold declare at h
  split at h
  · cases h
  · next scope hscope =>
      split at h
      · cases h
      · next hbuiltIn =>
          split at h
          · cases h
          · next hfree =>
              refine ⟨scope, ne_builtIn_of_kind hscope hbuiltIn, hscope,
                searchAny_eq_none_iff.1 hfree, ?_⟩
              split at h
              · next hfile =>
                  split at h
                  · cases h
                  · next hnested =>
                      cases h
                      exact .inl ⟨hfile, hnested, rfl⟩
              · next hfile =>
                  cases h
                  refine .inr ⟨?_, rfl⟩
                  cases hkind : scope.kind with
                  | block | function => rfl
                  | file => exact absurd hkind hfile
                  | builtIn => exact absurd hkind hbuiltIn

end FrontEnd.ScopeTree
