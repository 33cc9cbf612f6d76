/-
**What was found stays found.**

Names can be looked up while scopes are still being made: an answer is never taken back.  Between a
scope and the one in which a name was found nothing of that name can be declared any more.  For from
every scope that a search passes, the search goes on in the same way, except that it may see more
where no function was left yet; so whoever wants to declare the name there finds it, too, and is
refused.

Main results:

* `FrontEnd.ScopeTree.search_declare` — a declaration changes no answer;
* `FrontEnd.ScopeTree.search_after` — **no call does**.
-/

import FrontEnd.Proofs.Scopes.Calls
import FrontEnd.Proofs.Scopes.Chains

set_option relaxedAutoImplicit false
set_option autoImplicit false

namespace FrontEnd.ScopeTree

variable {t t' : ScopeTree} {id target : ScopeId} {scope : Scope} {kind kind' : DeclKind}
  {name name' : String} {decl : DeclId} {place : Position} {entry : Entry} {n : Nat}

/-! ### Notes -/

theorem find?_map_changeAt {f : Scope → Scope} (hkind : ∀ scope, (f scope).kind = scope.kind)
    (hget : ∀ scope, (f scope).get? kind name = scope.get? kind name) (target : ScopeId)
    (leftFunction : Bool) (chain : List (ScopeId × Scope)) :
    find? kind name leftFunction (chain.map (changeAt target f)) =
      find? kind name leftFunction chain := by
  induction chain generalizing leftFunction with
  | nil => rfl
  | cons x chain ih =>
      rw [List.map_cons, find?, find?, changeAt_keeps Scope.kind hkind, ih]
      rw [changeAt_keeps (fun scope => scope.get? kind name) hget target x]

/-- A note in a ledger changes no answer. -/
theorem search_noteNested (t : ScopeTree) (target : ScopeId) (other : String) (place : Position)
    (id : ScopeId) (kind : DeclKind) (name : String) :
    (t.noteNested target other place).search id kind name = t.search id kind name := by
  unfold noteNested
  split
  · next file _ =>
      rw [search, chain_modify fun scope => scope.note_parent other place]
      exact find?_map_changeAt (fun scope => scope.note_kind other place)
        (fun scope => scope.get?_note other place kind name) file false (t.chain id)
  · rfl

/-! ### Declarations -/

/-- A search that passes a scope would find the same thing, or something nearer, if it started
there. -/
theorem search_isSome_of_chainUpTo (hn : n ≤ t.scopes.size) {leftFunction : Bool}
    (h : find? kind name leftFunction (t.chainUpTo n id) = some entry) :
    (t.search id kind name).isSome = true := by
  have hhere : (find? kind name false (t.chainUpTo n id)).isSome = true := by
    cases leftFunction with
    | false => rw [h, Option.isSome_some]
    | true => exact isSome_find?_of_left (by rw [h, Option.isSome_some]) false
  obtain ⟨nearer, hnearer⟩ := Option.isSome_iff_exists.1 hhere
  rw [search, chain, find?_of_longer (chainUpTo_longer t id hn) hnearer, Option.isSome_some]

/-- A name that is declared where nothing of it was visible is passed by no search that finds
it further out. -/
theorem find?_chainUpTo_bind {b : Binding} (hfree : t.search target b.kind b.name = none)
    (hn : n ≤ t.scopes.size) {leftFunction : Bool}
    (h : find? kind name leftFunction (t.chainUpTo n id) = some entry) :
    find? kind name leftFunction ((t.chainUpTo n id).map (changeAt target (·.bind b))) =
      some entry := by
  induction n generalizing id leftFunction with
  | zero => cases h
  | succ n ih =>
      cases hscope : t.scope? id with
      | none => simp [chainUpTo, hscope, find?] at h
      | some scope =>
          have hsame : (changeAt target (·.bind b) (id, scope)).2.get? kind name =
              scope.get? kind name := by
            unfold changeAt
            by_cases hid : target = id
            · rw [if_pos hid, Scope.get?_bind]
              -- here the new name would have been found
              refine if_neg ?_
              rintro ⟨rfl, rfl⟩
              have hsome := search_isSome_of_chainUpTo hn h
              rw [← hid, hfree] at hsome
              cases hsome
            · rw [if_neg hid]
          have hkind : (changeAt target (·.bind b) (id, scope)).2.kind = scope.kind :=
            changeAt_keeps Scope.kind (fun scope => scope.bind_kind b) target (id, scope)
          cases hparent : scope.parent? with
          | none =>
              have hroot : t.chainUpTo (n + 1) id = [(id, scope)] := by
                simp [chainUpTo, hscope, hparent]
              rw [hroot] at h ⊢
              rw [List.map_singleton, find?, hsame, hkind]
              exact h
          | some parent =>
              rw [chainUpTo_of_parent hscope hparent n] at h ⊢
              rw [List.map_cons, find?, hsame, hkind]
              rw [find?] at h
              split at h
              · exact h
              · exact ih (by omega) h

/-- **A declaration changes no answer**: what was found for a name stays found. -/
theorem search_declare (h : t.search id kind name = some entry)
    (hdeclare : t.declare target kind' name' decl place = .ok t') :
    t'.search id kind name = some entry := by
  have hbind : ∀ (u : ScopeTree) htarget, (∀ kind, u.search target kind name' = none) →
      u.search id kind name = some entry →
      (u.modify target (·.bind ⟨kind', name', ⟨decl, some place⟩⟩) htarget).search id kind name =
        some entry := by
    intro u htarget hfree hfound
    rw [search, chain_modify fun scope => scope.bind_parent _]
    exact find?_chainUpTo_bind (hfree kind') (Nat.le_refl _) hfound
  obtain ⟨scope, htarget, -, hfree, ⟨-, -, rfl⟩ | ⟨-, rfl⟩⟩ := declare_cases hdeclare
  · exact hbind t htarget hfree h
  · refine hbind (t.noteNested target name' place) htarget (fun kind => ?_) ?_
    · rw [search_noteNested, hfree]
    · rw [search_noteNested, h]

/-- A further scope changes no answer. -/
theorem search_push (h : t.search id kind name = some entry) (new : Scope) :
    (t.push new).search id kind name = some entry :=
  find?_of_longer (chain_prefix_push t new id) h

/-! ### Calls -/

/-- **No call changes an answer.**  Whatever calls came first, what a search finds after them it
finds after any further calls, too, whether these succeed or fail. -/
theorem search_after (earlier later : List Call)
    (h : (initial.after earlier).search id kind name = some entry) :
    ((initial.after earlier).after later).search id kind name = some entry :=
  after_keeps (fun _ _ _ h _ => search_push h _)
    (fun _ _ _ _ _ _ _ h hdeclare => search_declare h hdeclare) (fun _ _ _ h => search_push h _)
    later h

/-- A variable that is found from a block stays, although later calls ask for its name in the file,
in the function and in a copy of the block, and make scopes below a missing one. -/
theorem search_after_refused :
    (initial.after [.nest .function .file, .declare ⟨2⟩ .var "x" ⟨0⟩ ⟨0, 0⟩,
        .nest .block ⟨2⟩]).search ⟨3⟩ .var "x" = some ⟨⟨0⟩, some ⟨0, 0⟩⟩ ∧
      ((initial.after [.nest .function .file, .declare ⟨2⟩ .var "x" ⟨0⟩ ⟨0, 0⟩,
        .nest .block ⟨2⟩]).after [.declare .file .func "x" ⟨1⟩ ⟨1, 0⟩,
          .declare ⟨2⟩ .type "x" ⟨2⟩ ⟨2, 0⟩, .extend ⟨3⟩ "x" ⟨3⟩ ⟨3, 0⟩, .nest .block ⟨9⟩,
          .declare ⟨3⟩ .var "y" ⟨4⟩ ⟨4, 0⟩]).search ⟨3⟩ .var "x" =
        some ⟨⟨0⟩, some ⟨0, 0⟩⟩ :=
  ⟨by decide, search_after _ _ (by decide)⟩

end FrontEnd.ScopeTree
