/-
**Steps of reading that point to tokens.**

Whatever reading a file puts into the program stands where a token starts, and whatever it
complains about is complained about there: at the next token, at a token before it, or at the last
one when no token is left.  Both are shown together, since a call stands where the expression in
front of it does.

Here this is shown of the single steps that reading is made of, and of ways to put them together.

Main definitions:

* `FrontEnd.Parser.Placed`, `FrontEnd.Parser.Points` — states, and computations on them.

Main results:

* `FrontEnd.Parser.Points.bind` — sequences of such steps;
* `FrontEnd.Parser.points_refuse`, `FrontEnd.Parser.points_expectOneOf`,
  `FrontEnd.Parser.points_addExpression`, `FrontEnd.Parser.points_onProgram` — the steps.
-/

import FrontEnd.Proofs.Pointing.HeldPlaces
import FrontEnd.Proofs.Run

set_option relaxedAutoImplicit false
set_option autoImplicit false

namespace FrontEnd

/-! ### Names that are taken -/

namespace ScopeTree

variable {t t' : ScopeTree} {id : ScopeId} {kind : DeclKind} {name : String} {decl : DeclId}
  {place : Position} {e : Error}

theorem position_of_declare_error (h : t.declare id kind name decl place = .error e) :
    e.position? = some place := by
  unfold declare at h
  repeat' split at h
  all_goals cases h
  all_goals rfl

/-- A variable that cannot be declared is reported at the place it was declared with. -/
theorem position_of_extend_error (h : extend id name decl place t = .error e t') :
    e.position? = some place := by
  unfold extend at h
  split at h
  · cases h
    rfl
  · split at h
    · next hdeclare =>
        cases h
        exact position_of_declare_error hdeclare
    · cases h

end ScopeTree

namespace Parser

open Run

variable {α β : Type} {tokens : List Token} {t : Token} {good : α → Prop}

/-- The tokens that are left are among the given ones, and so is the last one; what has been built
stands where tokens start. -/
structure Placed (tokens : List Token) (s : Parser) : Prop where
  rest : ∀ t ∈ s.rest, t ∈ tokens
  last : ∃ t ∈ tokens, s.last? = some t
  program : ∀ place, s.program.HasPlace place → StartsAt tokens place

/-- The computation builds and reports only where tokens start, and its answer is as described. -/
def Points (tokens : List Token) (m : ParseM α) (good : α → Prop) : Prop :=
  ∀ s : Parser, s.Placed tokens →
    Ends m s (fun a s' => s'.Placed tokens ∧ good a) fun e _ => e.PointsTo tokens

namespace Points

theorem pure {a : α} (h : good a) : Points tokens (Pure.pure a : ParseM α) good := fun _ hs =>
  .of_eq_ok rfl ⟨hs, h⟩

theorem throw {e : Error} (he : e.PointsTo tokens) :
    Points tokens (MonadExcept.throw e : ParseM α) good := fun _ _ => .of_eq_error rfl he

/-- A step that only looks at the state. -/
theorem get_bind {f : Parser → ParseM α}
    (h : ∀ s : Parser, s.Placed tokens → Points tokens (f s) good) :
    Points tokens (get >>= f) good := fun s hs => (h s hs s hs).of_run (bind_of_ok rfl)

/-- **A sequence of such steps is one.** -/
theorem bind {m : ParseM α} {f : α → ParseM β} {good' : β → Prop} (hm : Points tokens m good)
    (hf : ∀ a, good a → Points tokens (f a) good') : Points tokens (m >>= f) good' := fun s hs =>
  (hm s hs).bind fun a s' ⟨hs', ha⟩ => hf a ha s' hs'

theorem map {m : ParseM α} {f : α → β} {good' : β → Prop} (hm : Points tokens m good)
    (hgood : ∀ {a}, good a → good' (f a)) : Points tokens (f <$> m) good' := by
  rw [← bind_pure_comp]
  exact hm.bind fun a ha => pure (hgood ha)

theorem discard {m : ParseM α} (hm : Points tokens m good) :
    Points tokens (Functor.discard m) fun _ => True := hm.map fun _ => trivial

theorem ite {c : Prop} [Decidable c] {m m' : ParseM α} (hm : Points tokens m good)
    (hm' : Points tokens m' good) : Points tokens (if c then m else m') good := by
  split
  · exact hm
  · exact hm'

theorem require {c : Prop} [Decidable c] {e : Error} (he : e.PointsTo tokens) :
    Points tokens (require c e : ParseM Unit) fun _ => True := ite (pure trivial) (throw he)

theorem ofExcept {x : Except Error α} (h : ∀ e, x = .error e → e.PointsTo tokens) :
    Points tokens (ofExcept x : ParseM α) fun a => x = .ok a := by
  cases x with
  | ok a => exact pure rfl
  | error e => exact throw (h e rfl)

/-- A step that changes the program and nothing else. -/
theorem onState {m : ParseM α} {a : Parser → α} {change : Parser → Parser}
    (hm : ∀ s, m s = .ok (a s) (change s)) (hrest : ∀ s, (change s).rest = s.rest)
    (hlast : ∀ s, (change s).last? = s.last?)
    (hprogram : ∀ s place, (change s).program.HasPlace place →
      s.program.HasPlace place ∨ StartsAt tokens place) :
    Points tokens m fun _ => True := fun s hs =>
  .of_eq_ok (hm s) ⟨⟨hrest s ▸ hs.rest, hlast s ▸ hs.last, fun place hplace =>
    (hprogram s place hplace).elim (hs.program place) id⟩, trivial⟩

end Points

/-! ### Taking tokens -/

variable {s : Parser}

theorem Placed.mem_of_current? (h : s.Placed tokens) (ht : s.current? = some t) :
    t ∈ tokens := h.rest t (List.mem_of_head? ht)

/-- The place of the next token, or of the last one. -/
theorem Placed.position (h : s.Placed tokens) : StartsAt tokens s.position := by
  obtain ⟨last, hmem, hlast⟩ := h.last
  unfold Parser.position
  cases hcurrent : s.current? with
  | none => rw [hlast]; exact startsAt_of_mem hmem
  | some t => exact startsAt_of_mem (h.mem_of_current? hcurrent)

/-- **What the grammar does not allow is reported at a token**, also when none is left. -/
theorem Placed.unexpected (h : s.Placed tokens) (expected : String) :
    (s.unexpected expected).PointsTo tokens := by
  obtain ⟨last, hmem, hlast⟩ := h.last
  unfold Parser.unexpected
  split
  · next t hcurrent => exact pointsTo_at (startsAt_of_mem (h.mem_of_current? hcurrent))
  · rw [hlast]
    exact ⟨_, rfl, startsAt_of_mem hmem⟩

theorem points_refuse (expected : String) : Points tokens (refuse expected : ParseM α) good :=
  fun _ hs => .of_eq_error rfl (hs.unexpected expected)

/-- A token that is taken is one of the given ones. -/
theorem Placed.take {rest : List Token} (h : s.Placed tokens)
    (hrest : s.rest = t :: rest) : Parser.Placed tokens { s with rest } ∧ t ∈ tokens := by
  obtain ⟨ht, hothers⟩ := List.forall_mem_cons.1 (hrest ▸ h.rest)
  exact ⟨⟨hothers, h.last, h.program⟩, ht⟩

theorem points_advance : Points tokens advance (· ∈ tokens) := by
  intro s hs
  cases hrest : s.rest with
  | nil =>
      have hrun : advance s = .error (s.unexpected "<token>") s := by simp only [advance, hrest]
      exact .of_eq_error hrun (hs.unexpected _)
  | cons t rest =>
      have hrun : advance s = .ok t { s with rest } := by simp only [advance, hrest]
      exact .of_eq_ok hrun (hs.take hrest)

/-- What is taken is one of the tokens, and what is refused is the next one. -/
theorem points_expectOneOf (kinds : List TokenKind) :
    Points tokens (expectOneOf kinds) (· ∈ tokens) := by
  intro s hs
  have hrefused := hs.unexpected (alternatives kinds)
  cases hrest : s.rest with
  | nil =>
      have hrun : expectOneOf kinds s = .error (s.unexpected (alternatives kinds)) s := by
        simp only [expectOneOf, hrest]
      exact .of_eq_error hrun hrefused
  | cons t rest =>
      by_cases hkind : t.isOneOf kinds
      · have hrun : expectOneOf kinds s = .ok t { s with rest } := by
          simp only [expectOneOf, hrest, if_pos hkind]
        exact .of_eq_ok hrun (hs.take hrest)
      · have hrun : expectOneOf kinds s = .error (s.unexpected (alternatives kinds)) s := by
          simp only [expectOneOf, hrest, if_neg hkind]
        exact .of_eq_error hrun hrefused

theorem points_expect (kind : TokenKind) : Points tokens (expect kind) (· ∈ tokens) :=
  points_expectOneOf [kind]

/-- A token with the wrong payload is reported where it is. -/
theorem pointsTo_of_identifier {e : Error} (ht : t ∈ tokens)
    (h : t.identifier = .error e) : e.PointsTo tokens := by
  unfold Token.identifier at h
  split at h
  · cases h
  · cases h
    exact pointsTo_at (startsAt_of_mem ht)

theorem points_expectName : Points tokens expectName fun r => r.1 ∈ tokens :=
  (points_expect .identifier).bind fun _ ht =>
    (Points.ofExcept fun _ he => pointsTo_of_identifier ht he).bind fun _ _ => .pure ht

theorem points_comma (isFirst : Bool) : Points tokens (comma isFirst) fun _ => True :=
  .ite (.pure trivial) (points_expect .comma).discard

section Separated

variable {close : TokenKind} {item : ParseM α}

theorem points_separatedUpTo (hitem : Points tokens item good) (n : Nat) (isFirst : Bool) :
    Points tokens (separatedUpTo close item n isFirst) fun _ => True := by
  induction n generalizing isFirst with
  | zero => exact .pure trivial
  | succ n ih =>
      refine .get_bind fun _ _ => .ite (.pure trivial) ?_
      refine (points_comma isFirst).bind fun _ _ => hitem.bind fun _ _ => ?_
      exact (ih false).bind fun _ _ => .pure trivial

theorem points_separated (hitem : Points tokens item good) :
    Points tokens (separated close item) fun _ => True := fun s hs =>
  (points_separatedUpTo hitem (s.rest.length + 1) true s hs).of_run rfl

end Separated

/-! ### Building the program -/

theorem points_addDeclaration {d : Declaration} (hd : ∀ place ∈ d.places, StartsAt tokens place) :
    Points tokens (addDeclaration d) fun _ => True :=
  .onState (fun _ => rfl) (fun _ => rfl) (fun _ => rfl) fun _ place h =>
    h.of_addDeclaration.imp id (hd place)

theorem points_addExpression {e : Expression} (hplace : StartsAt tokens e.position)
    (hname : ∀ ref, e.reference? = some ref → ref.PointsTo tokens) :
    Points tokens (addExpression e) fun _ => True :=
  .onState (fun _ => rfl) (fun _ => rfl) (fun _ => rfl) fun _ held h =>
    h.of_addExpression.imp id (startsAt_of_mem_placesOf hplace hname held)

theorem points_addStatement {form : StmtForm} {place : Position} (hplace : StartsAt tokens place)
    (htarget : ∀ ref, Statement.target? ⟨form, place⟩ = some ref → ref.PointsTo tokens) :
    Points tokens (addStatement form place) fun _ => True :=
  .onState (fun _ => rfl) (fun _ => rfl) (fun _ => rfl) fun _ held h =>
    h.of_addStatement.imp id (startsAt_of_mem_placesOf hplace htarget held)

/-- A change of the program that brings no further places. -/
theorem points_modify (change : Program → Program)
    (h : ∀ p place, (change p).HasPlace place → p.HasPlace place) :
    Points tokens (modify fun s => { s with program := change s.program }) fun _ => True :=
  .onState (fun _ => rfl) (fun _ => rfl) (fun _ => rfl) fun s place hplace =>
    .inl (h s.program place hplace)

theorem points_deferIf (ref : Reference) (change : Deferred → Deferred) :
    Points tokens (deferIf ref change) fun _ => True := by
  cases ref <;>
    exact .onState (fun _ => rfl) (fun _ => rfl) (fun _ => rfl) fun _ _ h => .inl h

/-- A computation that changes nothing but the scopes, and reports where a token starts. -/
theorem points_onProgram {action : ProgramM α}
    (h : ∀ p, Ends action p (fun _ q => ∃ t, q = { p with scopes := t })
      fun e _ => e.PointsTo tokens) :
    Points tokens (onProgram action) fun _ => True := by
  intro s hs
  cases hrun : action s.program with
  | ok a q =>
      obtain ⟨t, rfl⟩ := (h s.program).of_ok hrun
      have heq : onProgram action s =
          .ok a { s with program := { s.program with scopes := t } } := by
        simp only [onProgram, hrun]
      exact .of_eq_ok heq ⟨⟨hs.rest, hs.last, fun place hplace =>
        hs.program place (hplace.of_nodes rfl rfl rfl)⟩, trivial⟩
  | error e q =>
      have heq : onProgram action s = .error e { s with program := q } := by
        simp only [onProgram, hrun]
      exact .of_eq_error heq ((h s.program).of_error hrun)

theorem points_newScope (kind : ScopeKind) (parent : ScopeId) :
    Points tokens (onProgram (Program.newScope kind parent)) fun _ => True :=
  points_onProgram fun _ => .of_eq_ok rfl ⟨_, rfl⟩

/-- A name that is taken is reported where it is declared. -/
theorem points_declareName (scope : ScopeId) (kind : DeclKind) (name : String) (decl : DeclId)
    {place : Position} (h : StartsAt tokens place) :
    Points tokens (onProgram (Program.declare scope kind name decl place)) fun _ => True := by
  refine points_onProgram fun p => ?_
  cases hrun : p.scopes.declare scope kind name decl place with
  | error e =>
      have heq : Program.declare scope kind name decl place p = .error e p := by
        simp only [Program.declare, hrun]
      exact .of_eq_error heq ⟨place, ScopeTree.position_of_declare_error hrun, h⟩
  | ok t =>
      have heq : Program.declare scope kind name decl place p =
          .ok () { p with scopes := t } := by
        simp only [Program.declare, hrun]
      exact .of_eq_ok heq ⟨t, rfl⟩

/-- A variable that is declared where a token starts is refused there. -/
theorem points_extendScope (scope : ScopeId) (name : String) (decl : DeclId) {place : Position}
    (h : StartsAt tokens place) :
    Points tokens (onProgram (Program.extend scope name decl place)) fun _ => True := by
  refine points_onProgram fun p => ?_
  cases hrun : ScopeTree.extend scope name decl place p.scopes with
  | error e t =>
      have heq : Program.extend scope name decl place p = .error e { p with scopes := t } := by
        simp only [Program.extend, hrun]
      exact .of_eq_error heq ⟨place, ScopeTree.position_of_extend_error hrun, h⟩
  | ok id t =>
      have heq : Program.extend scope name decl place p = .ok id { p with scopes := t } := by
        simp only [Program.extend, hrun]
      exact .of_eq_ok heq ⟨t, rfl⟩

/-- A context does not change where an error is reported. -/
theorem points_within {m : ParseM α} (context : String) (hm : Points tokens m good) :
    Points tokens (within context m) good := by
  intro s hs
  cases hrun : m s with
  | ok a s' =>
      have heq : within context m s = .ok a s' := by simp only [within, hrun]
      exact .of_eq_ok heq ((hm s hs).of_ok hrun)
  | error e s' =>
      have heq : within context m s = .error (e.within context) s' := by
        simp only [within, hrun]
      have hplace := (hm s hs).of_error hrun
      exact .of_eq_error heq hplace

end Parser

end FrontEnd
