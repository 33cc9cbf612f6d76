/-
**Safe steps of reading.**

Reading tokens fails because the grammar asks for other ones or because a name is taken, as long as
the tokens carry the payload of their kind.  It never fails because a scope is missing or closed:
names are declared only in scopes that were made before, and those stay.  And what is built on the
way refers to declarations of the right kind.

Both are shown together, since the one needs the other: a computation is safe if from a sound state
it comes to a sound one, in which all that was there is still there, or fails for one of the reasons
above.  Here this is shown of the single steps that reading is made of, and of ways to put them
together.

Main definitions:

* `FrontEnd.Cause.IsRefusal` — the reasons for which a file is refused;
* `FrontEnd.Parser.Sound`, `FrontEnd.Parser.Safe` — states, and computations on them.

Main results:

* `FrontEnd.Parser.Safe.bind` — sequences of safe steps;
* `FrontEnd.Parser.safe_expectName`, `FrontEnd.Parser.safe_declareName`,
  `FrontEnd.Parser.safe_extendScope` — the steps that fail for other reasons where tokens do not fit
  or scopes are not open.
-/

import FrontEnd.Proofs.Run
import FrontEnd.Proofs.Stages.Kinds
import FrontEnd.Proofs.Stages.Lexing

set_option relaxedAutoImplicit false
set_option autoImplicit false

namespace FrontEnd

/-- Whether the cause is that a token was read as something that it is not. -/
def Cause.isWrongPayload : Cause → Bool
  | .wrongPayload _ _ => true
  | _ => false

/-- The grammar asks for something else, and no token was read as something that it is not. -/
def Cause.IsSyntactic (c : Cause) : Prop := c.stage = .parsing ∧ c.isWrongPayload = false

/-- The grammar asks for something else, or a name is taken. -/
def Cause.IsRefusal (c : Cause) : Prop := c.IsSyntactic ∨ c.IsClash

namespace Parser

open Run Program

variable {α β : Type} {tokens : List Token} {s : Parser} {good good' : α → Program → Prop}
  {scope : ScopeId}

/-! ### Safe computations -/

/-- The tokens that are left are among the given ones, and the references in the program are
right. -/
structure Sound (tokens : List Token) (s : Parser) : Prop where
  rest : ∀ t ∈ s.rest, t ∈ tokens
  program : s.program.WellKinded

/-- From the given state, if it is sound, the computation comes to a sound state in which all that
was there is still there, and to an answer as described; or it fails with a refusal, unless one of
the tokens does not fit. -/
def Safe (tokens : List Token) (m : ParseM α) (s : Parser) (good : α → Program → Prop) : Prop :=
  s.Sound tokens → Ends m s
    (fun a s' => s'.Sound tokens ∧ s.program.Grows s'.program ∧ good a s'.program)
    (fun e _ => e.cause.IsRefusal ∨ ∃ t ∈ tokens, ¬ t.Fits)

/-- What is true of a program stays true when it grows. -/
def Stable (need : Program → Prop) : Prop := ∀ p q, p.Grows q → need p → need q

theorem stable_true : Stable fun _ => True := fun _ _ _ h => h

namespace Safe

theorem of_sound {m : ParseM α} (h : s.Sound tokens → Safe tokens m s good) :
    Safe tokens m s good := fun hs => h hs hs

/-- What runs in the same way is as safe. -/
theorem of_run {m n : ParseM α} (h : Safe tokens m s good) (hrun : n s = m s) :
    Safe tokens n s good := fun hs => (h hs).of_run hrun

theorem imp {m : ParseM α} (h : Safe tokens m s good) (hgood : ∀ {a p}, good a p → good' a p) :
    Safe tokens m s good' := fun hs =>
  (h hs).imp (fun ⟨hsound, hgrows, hg⟩ => ⟨hsound, hgrows, hgood hg⟩) fun he => he

theorem pure {a : α} (h : good a s.program) : Safe tokens (Pure.pure a : ParseM α) s good :=
  fun hs => .of_eq_ok rfl ⟨hs, .refl _, h⟩

theorem throw {e : Error} (he : e.cause.IsRefusal) :
    Safe tokens (MonadExcept.throw e : ParseM α) s good := fun _ => .of_eq_error rfl (.inl he)

/-- A step that only looks at the state. -/
theorem get_bind {f : Parser → ParseM α} (h : Safe tokens (f s) s good) :
    Safe tokens (get >>= f) s good := fun hs => (h hs).of_run (bind_of_ok rfl)

/-- **A sequence of safe steps is safe**, where later steps may rely on all that was there
before. -/
theorem bind {m : ParseM α} {f : α → ParseM β} {good' : β → Program → Prop}
    (hm : Safe tokens m s good)
    (hf : ∀ a s', s.program.Grows s'.program → good a s'.program → Safe tokens (f a) s' good') :
    Safe tokens (m >>= f) s good' := fun hs =>
  (hm hs).bind fun a s' ⟨hs', hgrows, hgood⟩ =>
    (hf a s' hgrows hgood hs').imp
      (fun ⟨hs'', hgrows', hgood'⟩ => ⟨hs'', hgrows.trans hgrows', hgood'⟩) fun he => he

theorem map {m : ParseM α} {f : α → β} {good' : β → Program → Prop} (hm : Safe tokens m s good)
    (hgood : ∀ {a p}, good a p → good' (f a) p) : Safe tokens (f <$> m) s good' := by
  rw [← bind_pure_comp]
  exact hm.bind fun a s' _ ha => pure (hgood ha)

theorem discard {m : ParseM α} (hm : Safe tokens m s good) :
    Safe tokens (Functor.discard m) s fun _ _ => True := hm.map fun _ => trivial

theorem ite {c : Prop} [Decidable c] {m m' : ParseM α} (hm : c → Safe tokens m s good)
    (hm' : ¬ c → Safe tokens m' s good) : Safe tokens (if c then m else m') s good := by
  split
  · next hc => exact hm hc
  · next hc => exact hm' hc

theorem require {c : Prop} [Decidable c] {e : Error} (he : e.cause.IsRefusal) :
    Safe tokens (require c e : ParseM Unit) s fun _ _ => True :=
  ite (fun _ => pure trivial) fun _ => throw he

theorem ofExcept {x : Except Error α}
    (h : ∀ e, x = .error e → e.cause.IsRefusal ∨ ∃ t ∈ tokens, ¬ t.Fits) :
    Safe tokens (ofExcept x : ParseM α) s fun a _ => x = .ok a := by
  cases x with
  | ok a => exact pure rfl
  | error e => exact fun _ => .of_eq_error rfl (h e rfl)

/-- A step that changes the program and nothing else. -/
theorem onState {m : ParseM α} {a : α} {s' : Parser} (hm : m s = .ok a s')
    (hrest : s'.rest = s.rest) (hgrows : s.program.Grows s'.program)
    (hkinded : s.program.WellKinded → s'.program.WellKinded) (hgood : good a s'.program) :
    Safe tokens m s good := fun hs =>
  .of_eq_ok hm ⟨⟨hrest ▸ hs.rest, hkinded hs.program⟩, hgrows, hgood⟩

end Safe

/-! ### Taking tokens -/

theorem isRefusal_unexpected (s : Parser) (expected : String) :
    (s.unexpected expected).cause.IsRefusal := by
  refine .inl ?_
  unfold unexpected
  split
  · exact ⟨rfl, rfl⟩
  · exact ⟨rfl, rfl⟩

theorem safe_refuse (expected : String) :
    Safe tokens (refuse expected : ParseM α) s good := fun _ =>
  .of_eq_error rfl (.inl (isRefusal_unexpected s expected))

theorem safe_advance : Safe tokens advance s fun t _ => t ∈ tokens := by
  intro hs
  cases hrest : s.rest with
  | nil =>
      have hrun : advance s = .error (s.unexpected "<token>") s := by simp only [advance, hrest]
      exact .of_eq_error hrun (.inl (isRefusal_unexpected s _))
  | cons t rest =>
      have hrun : advance s = .ok t { s with rest } := by simp only [advance, hrest]
      have hmem : ∀ t' ∈ t :: rest, t' ∈ tokens := hrest ▸ hs.rest
      exact .of_eq_ok hrun ⟨⟨fun t' ht' => hmem t' (List.mem_cons_of_mem t ht'), hs.program⟩,
        .refl _, hmem t List.mem_cons_self⟩

/-- A token is taken that is one of the given ones and of one of the kinds, or the refusal is one of
the grammar. -/
theorem safe_expectOneOf (kinds : List TokenKind) :
    Safe tokens (expectOneOf kinds) s fun t _ => t ∈ tokens ∧ t.kind ∈ kinds := by
  intro hs
  have hrefused : ∀ {m : ParseM Token} {good : Token → Parser → Prop},
      m s = .error (s.unexpected (alternatives kinds)) s →
        Ends m s good fun e _ => e.cause.IsRefusal ∨ ∃ t ∈ tokens, ¬ t.Fits :=
    fun hm => .of_eq_error hm (.inl (isRefusal_unexpected s _))
  cases hrest : s.rest with
  | nil => exact hrefused (by simp only [expectOneOf, hrest])
  | cons t rest =>
      have hmem : ∀ t' ∈ t :: rest, t' ∈ tokens := hrest ▸ hs.rest
      by_cases hkind : t.isOneOf kinds
      · have hrun : expectOneOf kinds s = .ok t { s with rest } := by
          simp only [expectOneOf, hrest, if_pos hkind]
        refine .of_eq_ok hrun ⟨⟨fun t' ht' => hmem t' (List.mem_cons_of_mem t ht'), hs.program⟩,
          .refl _, hmem t List.mem_cons_self, ?_⟩
        simpa [Token.isOneOf] using hkind
      · refine hrefused ?_
        simp only [expectOneOf, hrest, if_neg hkind]

theorem safe_expect (kind : TokenKind) :
    Safe tokens (expect kind) s fun t _ => t ∈ tokens ∧ t.kind = kind :=
  (safe_expectOneOf [kind]).imp fun ⟨hmem, hkind⟩ => ⟨hmem, List.mem_singleton.1 hkind⟩

/-- An identifier has a name if it fits. -/
theorem safe_expectName : Safe tokens expectName s fun _ _ => True :=
  (safe_expect .identifier).bind fun t _ _ ⟨hmem, hkind⟩ =>
    (Safe.ofExcept fun _ he => .inr ⟨t, hmem, Token.identifier_error he hkind⟩).bind
      fun _ _ _ _ => .pure trivial

theorem safe_comma (isFirst : Bool) : Safe tokens (comma isFirst) s fun _ _ => True :=
  .ite (fun _ => .pure trivial) fun _ => (safe_expect .comma).discard

section Separated

variable {close : TokenKind} {item : ParseM α} {need : Program → Prop} (hneed : Stable need)
  (hgood : ∀ a, Stable (good a)) (hitem : ∀ s : Parser, need s.program → Safe tokens item s good)

include hneed hgood hitem

/-- Items are as they should be if each of them is, as long as what they need stays true. -/
theorem safe_separatedUpTo (n : Nat) (isFirst : Bool) (hs : need s.program) :
    Safe tokens (separatedUpTo close item n isFirst) s fun xs p => ∀ x ∈ xs, good x p := by
  induction n generalizing isFirst s with
  | zero => exact .pure (by simp)
  | succ n ih =>
      refine .get_bind (.ite (fun _ => .pure (by simp)) fun _ => ?_)
      refine (safe_comma isFirst).bind fun _ s₁ h₁ _ => ?_
      refine (hitem s₁ (hneed _ _ h₁ hs)).bind fun x s₂ h₂ hx => ?_
      refine (ih false (hneed _ _ (h₁.trans h₂) hs)).bind fun others s₃ h₃ hothers => ?_
      exact .pure (List.forall_mem_cons.2 ⟨hgood x _ _ h₃ hx, hothers⟩)

theorem safe_separated (hs : need s.program) :
    Safe tokens (separated close item) s fun xs p => ∀ x ∈ xs, good x p :=
  (safe_separatedUpTo hneed hgood hitem (s.rest.length + 1) true hs).of_run rfl

end Separated

/-! ### Building the program -/

theorem safe_addDeclaration {d : Declaration}
    (hd : s.program.WellKinded → d.WellKinded s.program) :
    Safe tokens (addDeclaration d) s fun id p => p.kind? id = some d.kind := by
  refine .onState rfl rfl (grows_addDeclaration _ d) (fun h => h.addDeclaration (hd h)) ?_
  change (s.program.addDeclaration d).kind? s.program.nextDecl = _
  rw [kind?_addDeclaration, if_pos rfl]

theorem safe_addExpression {e : Expression}
    (he : s.program.WellKinded → e.WellKinded s.program) :
    Safe tokens (addExpression e) s fun id p => p.HasExpression id :=
  .onState rfl rfl (grows_addExpression _ e) (fun h => h.addExpression (he h))
    (hasExpression_nextExpr _ e)

theorem safe_addStatement {form : StmtForm} {place : Position}
    (hform : s.program.WellKinded → (⟨form, place⟩ : Statement).WellKinded s.program) :
    Safe tokens (addStatement form place) s fun id p => p.HasStatement id :=
  .onState rfl rfl (grows_addStatement _ _) (fun h => h.addStatement (hform h))
    (hasStatement_nextStmt _ _)

/-- A change of the program that takes nothing away and keeps its references right. -/
theorem safe_modify (change : Program → Program)
    (hgrows : s.program.Grows (change s.program))
    (hkinded : s.program.WellKinded → (change s.program).WellKinded) :
    Safe tokens (modify fun s => { s with program := change s.program }) s fun _ _ => True :=
  .onState rfl rfl hgrows hkinded trivial

theorem safe_deferIf (ref : Reference) (change : Deferred → Deferred) :
    Safe tokens (deferIf ref change) s fun _ _ => True := by
  cases ref <;> exact .onState rfl rfl (.refl _) (fun h => h) trivial

theorem safe_newScope {kind : ScopeKind} (hkind : kind ≠ .builtIn) (parent : ScopeId) :
    Safe tokens (onProgram (Program.newScope kind parent)) s
      fun id p => p.scopes.IsOpen id := by
  have hopen : ∀ scope, s.program.scopes.IsOpen scope →
      (s.program.scopes.nest kind parent).2.IsOpen scope := fun _ h => h.push _
  refine .onState rfl rfl (grows_withScopes hopen) (fun h => h.withScopes ?_ hopen)
    (ScopeTree.isOpen_push_next hkind)
  exact h.scopes.push (by simp)

/-- In an open scope a name can be declared unless it is taken. -/
theorem safe_declareName {kind : DeclKind} {name : String} {decl : DeclId} {place : Position}
    (hopen : s.program.scopes.IsOpen scope) (hdecl : s.program.kind? decl = some kind) :
    Safe tokens (onProgram (Program.declare scope kind name decl place)) s fun _ _ => True := by
  cases hrun : s.program.scopes.declare scope kind name decl place with
  | error e =>
      have heq : onProgram (Program.declare scope kind name decl place) s = .error e s := by
        simp only [onProgram, Program.declare, hrun]
      exact fun _ => .of_eq_error heq (.inl (.inr (ScopeTree.declare_error hopen hrun)))
  | ok t =>
      have hopen' : ∀ scope, s.program.scopes.IsOpen scope → t.IsOpen scope :=
        fun _ h => h.declare hrun
      have heq : onProgram (Program.declare scope kind name decl place) s =
          .ok () { s with program := { s.program with scopes := t } } := by
        simp only [onProgram, Program.declare, hrun]
      exact .onState heq rfl (grows_withScopes hopen')
        (fun h => h.withScopes (h.scopes.declare hdecl hrun) hopen') trivial

/-- An open scope can be extended by a variable unless its name is taken. -/
theorem safe_extendScope {name : String} {decl : DeclId} {place : Position}
    (hopen : s.program.scopes.IsOpen scope) (hdecl : s.program.kind? decl = some .var) :
    Safe tokens (onProgram (Program.extend scope name decl place)) s
      fun id p => p.scopes.IsOpen id := by
  cases hrun : ScopeTree.extend scope name decl place s.program.scopes with
  | error e t =>
      have heq : onProgram (Program.extend scope name decl place) s =
          .error e { s with program := { s.program with scopes := t } } := by
        simp only [onProgram, Program.extend, hrun]
      exact fun _ => .of_eq_error heq (.inl (.inr (ScopeTree.extend_error hopen hrun)))
  | ok id t =>
      obtain ⟨hid, hopen'⟩ := hopen.extend hrun
      have heq : onProgram (Program.extend scope name decl place) s =
          .ok id { s with program := { s.program with scopes := t } } := by
        simp only [onProgram, Program.extend, hrun]
      exact .onState heq rfl (grows_withScopes hopen')
        (fun h => h.withScopes (h.scopes.extend hdecl hrun) hopen') hid

/-- A context makes no other cause of an error. -/
theorem safe_within {m : ParseM α} (context : String) (hm : Safe tokens m s good) :
    Safe tokens (within context m) s good := by
  intro hs
  have hends := hm hs
  cases hrun : m s with
  | ok a s' =>
      have heq : within context m s = .ok a s' := by simp only [within, hrun]
      exact .of_eq_ok heq (hends.of_ok hrun)
  | error e s' =>
      have heq : within context m s = .error (e.within context) s' := by
        simp only [within, hrun]
      have hcause := hends.of_error hrun
      exact .of_eq_error heq hcause

end Parser

end FrontEnd
