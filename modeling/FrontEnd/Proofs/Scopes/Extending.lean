/-
**Extending a scope.**

A scope is extended by a variable in a copy, which is made before the name is checked.  Nobody looks
into the copy but those who start there, so what was found before is found again from everywhere
else; and from the copy nothing is found otherwise than from the original, but for the variable
itself.  The name that is refused to the copy would be refused to the original, too, and then the
copy is all that is left.

Main definitions:

* `FrontEnd.ScopeTree.Extension` — scopes with a copy of one of them that has a further variable.

Main results:

* `FrontEnd.ScopeTree.search_declare_self`, `FrontEnd.ScopeTree.search_declare_of_ne` — what is
  found after a declaration where the name is declared, and what is found of other names;
* `FrontEnd.ScopeTree.search_copy` — a copy sees what the original sees;
* `FrontEnd.ScopeTree.exists_extend_iff` — when a scope can be extended;
* `FrontEnd.ScopeTree.extend_isExtension` — **an extension is nothing but that**.
-/

import FrontEnd.Proofs.Scopes.Barrier

set_option relaxedAutoImplicit false
set_option autoImplicit false

namespace FrontEnd.ScopeTree

variable {t t' : ScopeTree} {id other target copy : ScopeId} {scope new outer : Scope}
  {kind kind' : DeclKind} {name name' : String} {decl : DeclId} {place : Position}

/-! ### Searching after a declaration -/

/-- Every chain starts with its own scope. -/
theorem exists_chain_eq_cons (hscope : t.scope? id = some scope) :
    ∃ others, t.chain id = (id, scope) :: others := by
  obtain ⟨n, hn⟩ : ∃ n, t.scopes.size = n + 1 :=
    ⟨t.scopes.size - 1, by have := index_lt_size_of_scope? hscope; omega⟩
  rw [chain, hn, chainUpTo, hscope]
  exact ⟨_, rfl⟩

/-- The name just bound is found where it was bound. -/
theorem search_bind_self (hscope : t.scope? id = some scope) {hid : id ≠ .builtIn} (b : Binding) :
    (t.modify id (·.bind b) hid).search id b.kind b.name = some b.entry := by
  obtain ⟨others, hchain⟩ := exists_chain_eq_cons hscope
  have hhere : (scope.bind b).get? b.kind b.name = some b.entry := by
    rw [Scope.get?_bind, if_pos ⟨rfl, rfl⟩]
  rw [search, chain_modify fun scope => scope.bind_parent b, hchain, List.map_cons, changeAt,
    if_pos rfl, find?_cons]
  simp only [Bool.false_and, Bool.false_eq_true, if_false, hhere, Option.some_or]

/-- Other names, and the name for another kind of declaration, are found as before. -/
theorem search_bind_of_ne (b : Binding) (hne : ¬ (b.kind = kind ∧ b.name = name))
    (htarget : target ≠ .builtIn) (id : ScopeId) :
    (t.modify target (·.bind b) htarget).search id kind name = t.search id kind name := by
  rw [search, chain_modify fun scope => scope.bind_parent b, search]
  refine find?_map_changeAt (fun scope => scope.bind_kind b) (fun scope => ?_) target false _
  rw [Scope.get?_bind, if_neg hne]

/-- A changed scope keeps its kind and its parent if the change keeps them. -/
theorem exists_scope?_modify {f : Scope → Scope} (hkind : ∀ scope, (f scope).kind = scope.kind)
    (hparent : ∀ scope, (f scope).parent? = scope.parent?) (htarget : target ≠ .builtIn)
    (hscope : t.scope? id = some scope) :
    ∃ new, (t.modify target f htarget).scope? id = some new ∧ new.kind = scope.kind ∧
      new.parent? = scope.parent? := by
  rw [scope?_modify, hscope]
  split
  · exact ⟨f scope, rfl, hkind scope, hparent scope⟩
  · exact ⟨scope, rfl, rfl, rfl⟩

theorem exists_scope?_noteNested (target : ScopeId) (name : String) (place : Position)
    (hscope : t.scope? id = some scope) :
    ∃ new, (t.noteNested target name place).scope? id = some new ∧ new.kind = scope.kind ∧
      new.parent? = scope.parent? := by
  unfold noteNested
  split
  · exact exists_scope?_modify (fun scope => scope.note_kind name place)
      (fun scope => scope.note_parent name place) _ hscope
  · exact ⟨scope, hscope, rfl, rfl⟩

/-- A declaration leaves every scope its kind and its parent. -/
theorem exists_scope?_declare (hdeclare : t.declare target kind name decl place = .ok t')
    (hscope : t.scope? id = some scope) :
    ∃ new, t'.scope? id = some new ∧ new.kind = scope.kind ∧ new.parent? = scope.parent? := by
  obtain ⟨htarget, rfl | rfl⟩ := declare_ok hdeclare
  · exact exists_scope?_modify (fun scope => scope.bind_kind _) (fun scope => scope.bind_parent _)
      htarget hscope
  · obtain ⟨noted, hnoted, hkind, hparent⟩ := exists_scope?_noteNested target name place hscope
    rw [← hkind, ← hparent]
    exact exists_scope?_modify (fun scope => scope.bind_kind _) (fun scope => scope.bind_parent _)
      htarget hnoted

/-- **The name that is declared is found** in its scope. -/
theorem search_declare_self (hdeclare : t.declare id kind name decl place = .ok t') :
    t'.search id kind name = some ⟨decl, some place⟩ := by
  obtain ⟨scope, -, hscope, -, ⟨-, -, rfl⟩ | ⟨-, rfl⟩⟩ := declare_cases hdeclare
  · exact search_bind_self hscope _
  · obtain ⟨noted, hnoted, -⟩ := exists_scope?_noteNested id name place hscope
    exact search_bind_self hnoted _

/-- Other names, and the name for another kind of declaration, are found as before, from
everywhere. -/
theorem search_declare_of_ne (hdeclare : t.declare target kind name decl place = .ok t')
    (hne : kind' ≠ kind ∨ name' ≠ name) (id : ScopeId) :
    t'.search id kind' name' = t.search id kind' name' := by
  have hother : ¬ (kind = kind' ∧ name = name') := by
    rintro ⟨rfl, rfl⟩
    exact hne.elim (absurd rfl) (absurd rfl)
  obtain ⟨htarget, rfl | rfl⟩ := declare_ok hdeclare
  · exact search_bind_of_ne _ hother htarget id
  · rw [search_bind_of_ne _ hother htarget id, search_noteNested]

/-! ### Searching after a copy -/

/-- From the scopes that were there before, everything is found as before. -/
theorem search_push_of_some (older : t.ParentsOlder) (older' : (t.push new).ParentsOlder)
    (hscope : t.scope? id = some scope) (kind : DeclKind) (name : String) :
    (t.push new).search id kind name = t.search id kind name := by
  rw [search, chain_push_of_some older older' hscope, search]

/-- **A copy sees what the original sees.** -/
theorem search_copy (older : t.ParentsOlder) (hscope : t.scope? id = some scope) (kind : DeclKind)
    (name : String) : (t.push scope).search t.next kind name = t.search id kind name := by
  have older' : (t.push scope).ParentsOlder := older.push_copy hscope
  rw [search, search]
  cases hparent : scope.parent? with
  | none =>
      rw [chain_of_root scope?_push_self hparent, chain_of_root hscope hparent, find?_cons,
        find?_cons]
  | some parent =>
      obtain ⟨outer, houter⟩ := older.exists_parent hscope hparent
      rw [chain_of_parent older' scope?_push_self hparent, chain_of_parent older hscope hparent,
        chain_push_of_some older older' houter, find?_cons, find?_cons]

/-- Nobody sees a new scope who starts in an old one. -/
theorem InSight.ne_next (older : (t.push new).ParentsOlder) (hscope : t.scope? id = some scope)
    {n : Nat} {x : ScopeId × Scope} (hx : (t.push new).InSight id n x) : x.1 ≠ t.next := by
  intro hnext
  have hle := older.index_le_of_outer? hx.stands
  have hlt := index_lt_size_of_scope? hscope
  rw [hnext] at hle
  exact absurd hle (Nat.not_le_of_lt hlt)

/-! ### Extensions -/

/-- The scopes `t'` are `t` with a copy of the scope `id` in which the variable `name` stands for
`entry`. -/
structure Extension (t : ScopeTree) (id : ScopeId) (name : String) (entry : Entry) (copy : ScopeId)
    (t' : ScopeTree) : Prop where
  /-- The copy was not there before. -/
  fresh : t.scope? copy = none
  /-- The copy has the kind and the parent of the original. -/
  same : ∀ scope, t.scope? id = some scope → ∃ new, t'.scope? copy = some new ∧
    new.kind = scope.kind ∧ new.parent? = scope.parent?
  /-- From the copy the variable is found. -/
  found : t'.search copy .var name = some entry
  /-- All else is found from the copy as it was from the original. -/
  others : ∀ kind other, kind ≠ .var ∨ other ≠ name →
    t'.search copy kind other = t.search id kind other
  /-- From the scopes that were there before, everything is found as before. -/
  kept : ∀ old scope, t.scope? old = some scope → ∀ kind other,
    t'.search old kind other = t.search old kind other

/-- Extending a scope is declaring the variable in a copy. -/
theorem extend_eq (hscope : t.scope? id = some scope) : extend id name decl place t =
    match (t.push scope).declare t.next .var name decl place with
    | .error e => .error e (t.push scope)
    | .ok t' => .ok t.next t' := by
  rw [extend, copy?, hscope]
  rfl

/-- **When a scope can be extended**: if the name can be declared in the scope itself. -/
theorem exists_extend_iff (older : t.ParentsOlder) (hscope : t.scope? id = some scope) :
    (∃ copy t', extend id name decl place t = .ok copy t') ↔
      scope.kind ≠ .builtIn ∧ (∀ kind, t.search id kind name = none) ∧
        (scope.kind = .file → scope.nested.lookup name = none) := by
  have hdeclare : (∃ t', (t.push scope).declare t.next .var name decl place = .ok t') ↔
      scope.kind ≠ .builtIn ∧ (∀ kind, t.search id kind name = none) ∧
        (scope.kind = .file → scope.nested.lookup name = none) := by
    simp only [exists_declare_iff, scope?_push_self, search_copy older hscope, Option.some.injEq,
      exists_eq_left']
  rw [← hdeclare, extend_eq hscope]
  cases (t.push scope).declare t.next .var name decl place with
  | error e => simp
  | ok t' => simp

/-- What comes out of extending a scope is an extension of it. -/
theorem extension_of_extend (older : t.ParentsOlder) (hscope : t.scope? id = some scope)
    (h : extend id name decl place t = .ok copy t') :
    t.Extension id name ⟨decl, some place⟩ copy t' := by
  obtain ⟨rfl, scope', hscope', hdeclare⟩ := extend_ok h
  obtain rfl : scope = scope' := Option.some.inj (hscope.symm.trans hscope')
  have older' : (t.push scope).ParentsOlder := older.push_copy hscope
  refine ⟨Array.getElem?_eq_none (Nat.le_refl _), fun other hother => ?_,
    search_declare_self hdeclare, fun kind name' hne => ?_, fun old outer hold kind name' => ?_⟩
  · rw [hscope, Option.some.injEq] at hother
    rw [← hother]
    exact exists_scope?_declare hdeclare scope?_push_self
  · rw [search_declare_of_ne hdeclare hne, search_copy older hscope]
  · rw [search_declare_of_unseen older' hdeclare (fun n x hx => hx.ne_next older' hold),
      search_push_of_some older older' hold]

/-- **An extension is nothing but that.**  Whatever calls came first, a scope can be extended by a
variable exactly if names can be declared in it, nothing of the name is visible from it and, in case
of a file, the ledger does not have the name.  Then a copy of the scope has the variable, and all
else is found as before; otherwise a copy of the scope is all that is new. -/
theorem extend_isExtension (h : t.Reachable) (hscope : t.scope? id = some scope) (name : String)
    (decl : DeclId) (place : Position) :
    ((∃ copy t', extend id name decl place t = .ok copy t') ↔
      scope.kind ≠ .builtIn ∧ (∀ kind, t.search id kind name = none) ∧
        (scope.kind = .file → scope.nested.lookup name = none)) ∧
    (∀ copy t', extend id name decl place t = .ok copy t' →
      t.Extension id name ⟨decl, some place⟩ copy t') ∧
    ∀ e t', extend id name decl place t = .error e t' → t'.scopes = t.scopes.push scope ∧
      ∀ old outer, t.scope? old = some outer → t'.scope? old = some outer := by
  have older := h.parentsOlder
  refine ⟨exists_extend_iff older hscope, fun copy t' => extension_of_extend older hscope, ?_⟩
  intro e t' herror
  rw [extend_eq hscope] at herror
  cases hdeclare : (t.push scope).declare t.next .var name decl place with
  | ok t'' =>
      rw [hdeclare] at herror
      cases herror
  | error e' =>
      rw [hdeclare] at herror
      cases herror
      exact ⟨rfl, fun old outer hold => scope?_push_of_some hold scope⟩

/-- A block in a function is extended by a name that a function around has for a variable, out of
sight; the file, which has noted it, is not. -/
theorem extend_isExtension_nested : ∃ (t : ScopeTree) (block file : Scope) (t' t'' : ScopeTree)
    (e : Error), t.Reachable ∧ t.scope? ⟨5⟩ = some block ∧ t.scope? .file = some file ∧
    extend ⟨5⟩ "outer" ⟨3⟩ ⟨3, 0⟩ t = .ok ⟨6⟩ t' ∧
    t'.search ⟨6⟩ .var "outer" = some ⟨⟨3⟩, some ⟨3, 0⟩⟩ ∧
    t'.search ⟨6⟩ .var "inner" = t.search ⟨5⟩ .var "inner" ∧ t'.search ⟨5⟩ .var "outer" = none ∧
    extend .file "outer" ⟨3⟩ ⟨3, 0⟩ t = .error e t'' ∧ t''.scopes = t.scopes.push file := by
  have hreachable : (initial.after nestedCalls).Reachable := ⟨nestedCalls, by decide, rfl⟩
  have hblock : (initial.after nestedCalls).scope? ⟨5⟩ = some _ := rfl
  have hfile : (initial.after nestedCalls).scope? .file = some _ := rfl
  obtain ⟨-, hextends, -⟩ := extend_isExtension hreachable hblock "outer" ⟨3⟩ ⟨3, 0⟩
  obtain ⟨-, -, hrefused⟩ := extend_isExtension hreachable hfile "outer" ⟨3⟩ ⟨3, 0⟩
  have hextension := hextends ⟨6⟩ _ rfl
  have hkept := hextension.kept ⟨5⟩ _ rfl .var "outer"
  exact ⟨_, _, _, _, _, _, hreachable, rfl, rfl, rfl, hextension.found,
    hextension.others .var "inner" (.inr (by decide)), hkept.trans (by decide), rfl,
    (hrefused _ _ rfl).1⟩

end FrontEnd.ScopeTree
