/-
**Resolution that fails.**

A step of resolution that fails leaves the program as it was; the steps before it are not taken
back.  So resolution, whether it comes to its end or not, leaves a program in which some references
are settled and all else is as it was.  A step fails only because a name is not found, as long as
variables are listed where variables belong.

Main definitions:

* `FrontEnd.Cause.IsNotFound` — the causes that a name is not found;
* `FrontEnd.Program.PartlySettled` — programs in which some references are settled.

Main results:

* `FrontEnd.Program.resolve_ends` — what resolution with any lists comes to, if it fails, too.
-/

import FrontEnd.Proofs.Parts
import FrontEnd.Proofs.Resolution.Settling

set_option relaxedAutoImplicit false
set_option autoImplicit false

namespace FrontEnd

/-- The cause is a name that is not found. -/
def Cause.IsNotFound (c : Cause) : Prop :=
  ∃ name, c = .typeNotFound name ∨ c = .valueNotFound name ∨ c = .variableNotFound name

namespace Program

open Run

variable {p q q' : Program} {ds : List DeclId} {es : List ExprId} {ss : List StmtId} {e : Error}

/-! ### Steps that fail -/

theorem found_eq_error {found? : Option DeclId} {cause : Cause} {place : Position}
    (h : found found? cause place = .error e) : e.cause = cause := by
  cases found? with
  | none =>
      cases h
      rfl
  | some id => cases h

/-- The type of a variable is not found, or there is no variable. -/
theorem resolveType_error {decl : DeclId} (h : resolveType decl q = .error e q') :
    q' = q ∧ (e.cause.IsNotFound ∨ ∀ v, q.declaration? decl ≠ some (.var v)) := by
  unfold resolveType at h
  split at h
  · next v hv =>
      split at h
      · cases h
      · next name scope place _ =>
          split at h
          · next e' hfound =>
              cases h
              exact ⟨rfl, .inl ⟨name, .inl (found_eq_error hfound)⟩⟩
          · cases h
  · next hno =>
      cases h
      exact ⟨rfl, .inr hno⟩

/-- What an expression names is not found. -/
theorem resolveIdentifier_error {id : ExprId} (h : resolveIdentifier id q = .error e q') :
    q' = q ∧ e.cause.IsNotFound := by
  unfold resolveIdentifier at h
  split at h
  · next name scope place _ =>
      split at h
      · next e' hfound =>
          cases h
          exact ⟨rfl, name, .inr (.inl (found_eq_error hfound))⟩
      · cases h
  · cases h

/-- What a statement changes is not found. -/
theorem resolveTarget_error {id : StmtId} {s : Statement}
    (h : resolveTarget id s q = .error e q') : q' = q ∧ e.cause.IsNotFound := by
  unfold resolveTarget at h
  split at h
  · next name scope place _ =>
      split at h
      · next e' hfound =>
          cases h
          exact ⟨rfl, name, .inr (.inr (found_eq_error hfound))⟩
      · cases h
  · cases h

/-- What a statement refers to is not found, or it declares no variable. -/
theorem resolveStatement_error {id : StmtId} (h : resolveStatement id q = .error e q') :
    q' = q ∧ (e.cause.IsNotFound ∨
      ∃ decl ∈ q.declaredBy id, ∀ v, q.declaration? decl ≠ some (.var v)) := by
  unfold resolveStatement at h
  split at h
  · cases h
  · next s hs =>
      split at h
      · next decl hform =>
          obtain ⟨rfl, hcause⟩ := resolveType_error h
          refine ⟨rfl, hcause.imp (fun hc => hc) fun hno => ⟨decl, ?_, hno⟩⟩
          simp [declaredBy, hs, hform]
      · obtain ⟨rfl, hcause⟩ := resolveTarget_error h
        exact ⟨rfl, .inl hcause⟩

/-! ### Programs on the way -/

/-- The program `q` is `p` with some nodes settled and all else as it was. -/
def PartlySettled (p q : Program) : Prop := ∃ ds es ss, SettledOn p ds es ss q

theorem PartlySettled.refl (p : Program) : PartlySettled p p := ⟨[], [], [], .refl p⟩

/-- A variable stays one. -/
theorem PartlySettled.isVariable_iff (h : PartlySettled p q) (decl : DeclId) :
    (∃ v, q.declaration? decl = some (.var v)) ↔ ∃ v, p.declaration? decl = some (.var v) := by
  obtain ⟨ds, es, ss, h⟩ := h
  rw [h.declaration]
  by_cases hmem : decl ∈ ds
  · rw [if_pos hmem]
    cases hd : p.declaration? decl with
    | none => simp
    | some d => cases d <;> simp [Declaration.settle]
  · rw [if_neg hmem]

/-- A statement declares what it declared. -/
theorem PartlySettled.declaredBy (h : PartlySettled p q) (id : StmtId) :
    q.declaredBy id = p.declaredBy id := by
  obtain ⟨ds, es, ss, h⟩ := h
  unfold Program.declaredBy
  rw [h.statement]
  by_cases hmem : id ∈ ss
  · rw [if_pos hmem]
    cases hs : p.statement? id with
    | none => rfl
    | some s =>
        obtain ⟨form, place⟩ := s
        cases form <;> rfl
  · rw [if_neg hmem]

/-- An expression is what it was, but for what it names. -/
theorem PartlySettled.form? (h : PartlySettled p q) (id : ExprId) :
    q.form? id = p.form? id ∨ ∃ name ref, p.form? id = some (.identifier name ref) ∧
      q.form? id = some (.identifier name (ref.settle p.findValue?)) := by
  obtain ⟨ds, es, ss, h⟩ := h
  unfold Program.form?
  rw [h.expression]
  by_cases hmem : id ∈ es
  · rw [if_pos hmem]
    cases he : p.expression? id with
    | none => exact .inl rfl
    | some e =>
        obtain ⟨form, place, types?⟩ := e
        cases form with
        | identifier name ref => exact .inr ⟨name, ref, rfl, rfl⟩
        | _ => exact .inl rfl
  · rw [if_neg hmem]
    exact .inl rfl

/-- Notes stay. -/
theorem PartlySettled.note (h : PartlySettled p q) {id : ExprId} {x : Expression}
    (hx : q.expression? id = some x) : ∃ y, p.expression? id = some y ∧ x.types? = y.types? := by
  obtain ⟨ds, es, ss, h⟩ := h
  rw [h.expression] at hx
  by_cases hmem : id ∈ es
  · rw [if_pos hmem] at hx
    obtain ⟨⟨form, place, types?⟩, hy, rfl⟩ := Option.map_eq_some_iff.1 hx
    refine ⟨_, hy, ?_⟩
    cases form <;> rfl
  · rw [if_neg hmem] at hx
    exact ⟨x, hx, rfl⟩

/-- A statement keeps its parts. -/
theorem PartlySettled.parts (h : PartlySettled p q) {id : StmtId} {s : Statement}
    (hs : q.statement? id = some s) :
    ∃ s', p.statement? id = some s' ∧ s.form.parts = s'.form.parts := by
  obtain ⟨ds, es, ss, h⟩ := h
  rw [h.statement] at hs
  by_cases hmem : id ∈ ss
  · rw [if_pos hmem] at hs
    obtain ⟨⟨form, place⟩, hs', rfl⟩ := Option.map_eq_some_iff.1 hs
    refine ⟨_, hs', ?_⟩
    cases form <;> rfl
  · rw [if_neg hmem] at hs
    exact ⟨s, hs, rfl⟩

/-! ### Steps on the way -/

theorem PartlySettled.resolveType (h : PartlySettled p q) {decl : DeclId}
    (hok : resolveType decl q = .ok () q') : PartlySettled p q' := by
  obtain ⟨ds, es, ss, h⟩ := h
  have hq' := ((resolveType_meets q decl).of_ok hok).2
  exact ⟨_, _, _, h.settleDeclaration (h.findType? ▸ hq')⟩

theorem PartlySettled.resolveIdentifier (h : PartlySettled p q) {id : ExprId}
    (hok : resolveIdentifier id q = .ok () q') : PartlySettled p q' := by
  obtain ⟨ds, es, ss, h⟩ := h
  have hq' := ((resolveIdentifier_meets q id).of_ok hok).2
  exact ⟨_, _, _, h.settleExpression (h.findValue? ▸ hq')⟩

theorem PartlySettled.resolveStatement (h : PartlySettled p q) {id : StmtId}
    (hok : resolveStatement id q = .ok () q') : PartlySettled p q' := by
  obtain ⟨ds, es, ss, h⟩ := h
  exact ⟨_, _, _, ((h.resolveStatement_meets id).of_ok hok).2⟩

/-! ### Resolution -/

/-- A declaration is listed to have its type found, but is no variable. -/
def ListsNoVariable (p : Program) (d : Deferred) : Prop :=
  ∃ decl, (decl ∈ d.fields ∨ ∃ id ∈ d.statements, decl ∈ p.declaredBy id) ∧
    ∀ v, p.declaration? decl ≠ some (.var v)

/-- **Resolution settles some references, also if it fails**, and it fails only because a name is
not found or something is listed in the wrong place. -/
theorem resolve_ends (p : Program) (d : Deferred) :
    Ends (resolve d) p (fun _ q => PartlySettled p q) fun e q =>
      PartlySettled p q ∧ (e.cause.IsNotFound ∨ p.ListsNoVariable d) := by
  have hfields : ∀ decl ∈ d.fields, ∀ q, PartlySettled p q →
      Ends (resolveType decl) q (fun _ q => PartlySettled p q) fun e q =>
        PartlySettled p q ∧ (e.cause.IsNotFound ∨ p.ListsNoVariable d) := by
    intro decl hmem q h
    refine ⟨h.resolveType, fun herror => ?_⟩
    obtain ⟨rfl, hcause⟩ := resolveType_error herror
    refine ⟨h, hcause.imp (fun hc => hc) fun hno => ⟨decl, .inl hmem, fun v hv => ?_⟩⟩
    obtain ⟨v', hv'⟩ := (h.isVariable_iff decl).2 ⟨v, hv⟩
    exact hno v' hv'
  have hidentifiers : ∀ id ∈ d.identifiers, ∀ q, PartlySettled p q →
      Ends (resolveIdentifier id) q (fun _ q => PartlySettled p q) fun e q =>
        PartlySettled p q ∧ (e.cause.IsNotFound ∨ p.ListsNoVariable d) := by
    intro id _ q h
    refine ⟨h.resolveIdentifier, fun herror => ?_⟩
    obtain ⟨rfl, hcause⟩ := resolveIdentifier_error herror
    exact ⟨h, .inl hcause⟩
  have hstatements : ∀ id ∈ d.statements, ∀ q, PartlySettled p q →
      Ends (resolveStatement id) q (fun _ q => PartlySettled p q) fun e q =>
        PartlySettled p q ∧ (e.cause.IsNotFound ∨ p.ListsNoVariable d) := by
    intro id hmem q h
    refine ⟨h.resolveStatement, fun herror => ?_⟩
    obtain ⟨rfl, hcause⟩ := resolveStatement_error herror
    refine ⟨h, hcause.imp (fun hc => hc) ?_⟩
    rintro ⟨decl, hdecl, hno⟩
    rw [h.declaredBy] at hdecl
    refine ⟨decl, .inr ⟨id, hmem, hdecl⟩, fun v hv => ?_⟩
    obtain ⟨v', hv'⟩ := (h.isVariable_iff decl).2 ⟨v, hv⟩
    exact hno v' hv'
  unfold resolve
  exact (Ends.forM hfields (.refl p)).bind fun _ q₁ h₁ =>
    (Ends.forM hidentifiers h₁).bind fun _ q₂ h₂ => .forM hstatements h₂

end Program

end FrontEnd
