/-
**Calls that change scopes.**

From the outside the scopes are changed by four calls only: a new scope is made below another one, a
scope is copied, a copy of a scope is extended by a variable, and a name is declared.  Calls may come
in any order and may fail; a call that fails leaves the scopes as they are, except that a copy that
could not be extended stays.

Main definitions:

* `FrontEnd.ScopeTree.Call`, `FrontEnd.ScopeTree.Call.after` — a call, and the scopes after it;
* `FrontEnd.ScopeTree.after` — the scopes after some calls;
* `FrontEnd.ScopeTree.parentsExist` — calls that make new scopes below existing ones only.

Main results:

* `FrontEnd.ScopeTree.Call.after_keeps`, `FrontEnd.ScopeTree.after_keeps` — what every change keeps,
  all calls keep.
-/

import FrontEnd.Proofs.Run
import FrontEnd.Proofs.Scopes.Kinds

set_option relaxedAutoImplicit false
set_option autoImplicit false

namespace FrontEnd.ScopeTree

/-- A call that changes scopes. -/
inductive Call where
  /-- A new, empty scope of the given kind. -/
  | nest (kind : ScopeKind) (parent : ScopeId)
  /-- A copy of a scope. -/
  | copy (id : ScopeId)
  /-- A copy of a scope that is extended by a variable. -/
  | extend (id : ScopeId) (name : String) (decl : DeclId) (place : Position)
  /-- A declaration of any kind. -/
  | declare (id : ScopeId) (kind : DeclKind) (name : String) (decl : DeclId) (place : Position)
  deriving DecidableEq, Repr

namespace Call

/-- The scopes after the call, whether it succeeds or fails. -/
def after (t : ScopeTree) : Call → ScopeTree
  | nest kind parent => (t.nest kind parent).2
  | copy id => ((t.copy? id).map Prod.snd).getD t
  | extend id name decl place => Run.left (ScopeTree.extend id name decl place t)
  | declare id kind name decl place =>
      match t.declare id kind name decl place with
      | .ok t' => t'
      | .error _ => t

/-- Whether the call makes no scope below a missing one. -/
def parentExists (t : ScopeTree) : Call → Bool
  | nest _ parent => (t.scope? parent).isSome
  | copy _ | extend _ _ _ _ | declare _ _ _ _ _ => true

end Call

def after (t : ScopeTree) (calls : List Call) : ScopeTree := calls.foldl Call.after t

def parentsExist (t : ScopeTree) : List Call → Bool
  | [] => true
  | call :: others => call.parentExists t && (call.after t).parentsExist others

/-! ### What calls keep -/

section Keeping

variable {P : ScopeTree → Prop} {t : ScopeTree}
  (hcopy : ∀ t id scope, P t → t.scope? id = some scope → P (t.push scope))
  (hdeclare : ∀ t t' id kind name decl place, P t →
    t.declare id kind name decl place = .ok t' → P t')

include hcopy hdeclare

/-- **What new scopes, copies and declarations keep, every call keeps.** -/
theorem Call.after_keeps (call : Call) (h : P t)
    (hnest : ∀ kind parent, call = .nest kind parent → P (t.nest kind parent).2) :
    P (call.after t) := by
  cases call with
  | nest kind parent => exact hnest kind parent rfl
  | copy id =>
      rw [after, copy?]
      cases hscope : t.scope? id with
      | none => exact h
      | some scope => exact hcopy t id scope h hscope
  | extend id name decl place =>
      rw [after, ScopeTree.extend, copy?]
      cases hscope : t.scope? id with
      | none => exact h
      | some scope =>
          -- the copy stays, whether or not the name can be declared in it
          have hcopied := hcopy t id scope h hscope
          simp only [Option.map_some]
          cases hrun : (t.push scope).declare t.next .var name decl place with
          | error e => exact hcopied
          | ok t' => exact hdeclare _ _ _ _ _ _ _ hcopied hrun
  | declare id kind name decl place =>
      rw [after]
      cases hrun : t.declare id kind name decl place with
      | error e => exact h
      | ok t' => exact hdeclare _ _ _ _ _ _ _ h hrun

/-- **What new scopes, copies and declarations keep, any calls keep.** -/
theorem after_keeps (hnest : ∀ t kind parent, P t → P (t.nest kind parent).2) (calls : List Call)
    (h : P t) : P (t.after calls) := by
  induction calls generalizing t with
  | nil => exact h
  | cons call others ih =>
      exact ih (call.after_keeps hcopy hdeclare h fun kind parent _ => hnest t kind parent h)

/-- The same for calls that make new scopes below existing ones. -/
theorem after_keeps_of_parentsExist
    (hnest : ∀ t kind parent scope, P t → t.scope? parent = some scope →
      P (t.nest kind parent).2)
    (calls : List Call) (hcalls : t.parentsExist calls = true) (h : P t) : P (t.after calls) := by
  induction calls generalizing t with
  | nil => exact h
  | cons call others ih =>
      rw [parentsExist, Bool.and_eq_true] at hcalls
      refine ih hcalls.2 (call.after_keeps hcopy hdeclare h ?_)
      rintro kind parent rfl
      obtain ⟨scope, hscope⟩ := Option.isSome_iff_exists.1 hcalls.1
      exact hnest t kind parent scope h hscope

end Keeping

end FrontEnd.ScopeTree
