/-
**Runs of computations that may fail.**

The front end is written with computations that change a state and may fail.  A run that succeeds
can be taken apart: the steps of a sequence succeed one after the other, a condition that was
required holds, an answer that was asked for was given.  The lemmas below say so, one for each way
in which the computations are put together.

Main definitions:

* `FrontEnd.Run.Meets` — a run that succeeds exactly under a condition, with a known outcome;
* `FrontEnd.Run.Ends` — a run that succeeds or fails as described;
* `FrontEnd.tokensOf` — the tokens of a sample of source text.

Main results:

* `FrontEnd.Run.bind_ok_iff` — a sequence succeeds exactly if its steps do;
* `FrontEnd.Run.require_ok_iff`, `FrontEnd.Run.ofExcept_ok_iff`, `FrontEnd.Run.ask_ok_iff` — when
  the single steps succeed;
* `FrontEnd.Run.Meets.bind` — a sequence meets what its steps meet;
* `FrontEnd.Run.Ends.bind` — a sequence fails like the first step that does.
-/

import FrontEnd.Check
import FrontEnd.Parser.Basic
import FrontEnd.Token.Lexer

set_option relaxedAutoImplicit false
set_option autoImplicit false

namespace FrontEnd

namespace Run

variable {ε σ α β : Type}

/-- **A sequence succeeds exactly if its steps do**, each in the state that the one before left. -/
theorem bind_ok_iff {m : EStateM ε σ α} {f : α → EStateM ε σ β} {s s' : σ} {b : β} :
    (m >>= f) s = .ok b s' ↔ ∃ a s₁, m s = .ok a s₁ ∧ f a s₁ = .ok b s' := by
  change EStateM.bind m f s = .ok b s' ↔ _
  unfold EStateM.bind
  cases m s with
  | ok a s₁ =>
      constructor
      · intro h
        exact ⟨a, s₁, rfl, h⟩
      · rintro ⟨_, _, hm, h⟩
        cases hm
        exact h
  | error e s₁ => simp

/-- The steps of a sequence, put together. -/
theorem bind_ok {m : EStateM ε σ α} {f : α → EStateM ε σ β} {s s₁ s' : σ} {a : α} {b : β}
    (hm : m s = .ok a s₁) (hf : f a s₁ = .ok b s') : (m >>= f) s = .ok b s' :=
  bind_ok_iff.2 ⟨a, s₁, hm, hf⟩

theorem pure_ok_iff {a b : α} {s s' : σ} :
    (pure a : EStateM ε σ α) s = .ok b s' ↔ a = b ∧ s = s' := by
  change EStateM.Result.ok a s = .ok b s' ↔ _
  simp

theorem get_ok_iff {s s' a : σ} : (get : EStateM ε σ σ) s = .ok a s' ↔ s = a ∧ s = s' := by
  change EStateM.Result.ok s s = .ok a s' ↔ _
  simp

theorem modify_ok_iff {f : σ → σ} {s s' : σ} {u : PUnit} :
    (modify f : EStateM ε σ PUnit) s = .ok u s' ↔ s' = f s := by
  change EStateM.Result.ok PUnit.unit (f s) = .ok u s' ↔ _
  simp [eq_comm]

theorem throw_ok_iff {e : ε} {s s' : σ} {a : α} :
    (throw e : EStateM ε σ α) s = .ok a s' ↔ False := by
  change EStateM.Result.error e s = .ok a s' ↔ _
  simp

theorem map_ok_iff {m : EStateM ε σ α} {f : α → β} {s s' : σ} {b : β} :
    (f <$> m) s = .ok b s' ↔ ∃ a, m s = .ok a s' ∧ f a = b := by
  rw [← bind_pure_comp, bind_ok_iff]
  constructor
  · rintro ⟨a, s₁, hm, hf⟩
    obtain ⟨rfl, rfl⟩ := pure_ok_iff.1 hf
    exact ⟨a, hm, rfl⟩
  · rintro ⟨a, hm, rfl⟩
    exact ⟨a, s', hm, rfl⟩

theorem discard_ok_iff {m : EStateM ε σ α} {s s' : σ} {u : PUnit} :
    (discard m) s = .ok u s' ↔ ∃ a, m s = .ok a s' := by
  unfold discard
  rw [map_const, Function.comp_apply]
  simp [map_ok_iff]

theorem ofExcept_ok_iff {x : Except ε α} {s s' : σ} {a : α} :
    (ofExcept x : EStateM ε σ α) s = .ok a s' ↔ x = .ok a ∧ s = s' := by
  cases x with
  | ok b =>
      change EStateM.Result.ok b s = .ok a s' ↔ _
      simp
  | error e =>
      change EStateM.Result.error e s = .ok a s' ↔ _
      simp

/-- What is required of a run that succeeds holds. -/
theorem require_ok_iff {c : Prop} [Decidable c] {e : Error} {s s' : σ} {u : Unit} :
    (require c e : EStateM Error σ Unit) s = .ok u s' ↔ c ∧ s = s' := by
  unfold require
  by_cases hc : c
  · simp [hc, pure_ok_iff]
  · simp [hc, throw_ok_iff]

/-- A question that is answered leaves the program as it is. -/
theorem ask_ok_iff {question : Program → Except Error α} {p p' : Program} {a : α} :
    Program.ask question p = .ok a p' ↔ question p = .ok a ∧ p = p' := by
  unfold Program.ask
  cases question p <;> simp

/-- Naming the context of a failure does not make a success of it. -/
theorem within_ok_iff {context : String} {action : ParseM α} {a : α} {s s' : Parser} :
    Parser.within context action s = .ok a s' ↔ action s = .ok a s' := by
  unfold Parser.within
  cases action s <;> simp

/-! ### Failure -/

/-- A sequence goes on where its first step succeeds. -/
theorem bind_of_ok {m : EStateM ε σ α} {f : α → EStateM ε σ β} {s s₁ : σ} {a : α}
    (hm : m s = .ok a s₁) : (m >>= f) s = f a s₁ := by
  change EStateM.bind m f s = _
  unfold EStateM.bind
  rw [hm]

/-- A sequence fails where its first step fails. -/
theorem bind_of_error {m : EStateM ε σ α} {f : α → EStateM ε σ β} {s s₁ : σ} {e : ε}
    (hm : m s = .error e s₁) : (m >>= f) s = .error e s₁ := by
  change EStateM.bind m f s = _
  unfold EStateM.bind
  rw [hm]

/-- **A sequence fails exactly if one of its steps does**, and then like the first one. -/
theorem bind_error_iff {m : EStateM ε σ α} {f : α → EStateM ε σ β} {s s' : σ} {e : ε} :
    (m >>= f) s = .error e s' ↔
      m s = .error e s' ∨ ∃ a s₁, m s = .ok a s₁ ∧ f a s₁ = .error e s' := by
  cases hm : m s with
  | error e' s₁ => simp [bind_of_error hm]
  | ok a s₁ =>
      rw [bind_of_ok hm]
      constructor
      · intro h
        exact .inr ⟨a, s₁, rfl, h⟩
      · rintro (h | ⟨_, _, ha, h⟩)
        · cases h
        · cases ha
          exact h

theorem map_error_iff {m : EStateM ε σ α} {f : α → β} {s s' : σ} {e : ε} :
    (f <$> m) s = .error e s' ↔ m s = .error e s' := by
  rw [← bind_pure_comp, bind_error_iff]
  refine or_iff_left ?_
  rintro ⟨a, s₁, -, h⟩
  cases h

theorem discard_error_iff {m : EStateM ε σ α} {s s' : σ} {e : ε} :
    (discard m) s = .error e s' ↔ m s = .error e s' := by
  unfold discard
  rw [map_const, Function.comp_apply]
  exact map_error_iff

/-- A question that is not answered leaves the program as it is, too. -/
theorem ask_error_iff {question : Program → Except Error α} {p p' : Program} {e : Error} :
    Program.ask question p = .error e p' ↔ question p = .error e ∧ p = p' := by
  unfold Program.ask
  cases question p <;> simp

/-! ### Conditions for success -/

/-- From the given state the computation succeeds exactly under the condition, and what it then
comes to is as described. -/
structure Meets (m : EStateM ε σ α) (s : σ) (condition : Prop) (outcome : α → σ → Prop) : Prop where
  of_ok : ∀ {a s'}, m s = .ok a s' → condition ∧ outcome a s'
  exists_ok : condition → ∃ a s', m s = .ok a s'

namespace Meets

variable {m : EStateM ε σ α} {s : σ} {c k : Prop} {q q' : α → σ → Prop}

/-- Success is equivalent to the condition. -/
theorem ok_iff (h : Meets m s c q) : (∃ a s', m s = .ok a s') ↔ c := by
  constructor
  · rintro ⟨a, s', hm⟩
    exact (h.of_ok hm).1
  · exact h.exists_ok

/-- A computation whose outcome is known meets any description of it. -/
theorem of_eq {a : α} {s' : σ} (hm : m s = .ok a s') (hq : q a s') : Meets m s True q where
  of_ok hm' := by
    rw [hm] at hm'
    cases hm'
    exact ⟨trivial, hq⟩
  exists_ok _ := ⟨a, s', hm⟩

/-- What another computation meets, if it runs in the same way. -/
theorem of_run {n : EStateM ε σ α} (h : Meets m s c q) (hrun : n s = m s) : Meets n s c q where
  of_ok hn := h.of_ok (hrun ▸ hn)
  exists_ok hc := hrun ▸ h.exists_ok hc

/-- A computation succeeds where its condition holds. -/
theorem succeeds {a : α} {s' : σ} (hm : m s = .ok a s') (hc : c) (hq : q a s') : Meets m s c q where
  of_ok hm' := by
    rw [hm] at hm'
    cases hm'
    exact ⟨hc, hq⟩
  exists_ok _ := ⟨a, s', hm⟩

/-- A computation fails where its condition does not hold. -/
theorem fails (hm : ∀ a s', m s ≠ .ok a s') (hc : ¬ c) : Meets m s c q where
  of_ok hm' := absurd hm' (hm _ _)
  exists_ok hc' := absurd hc' hc

/-- The condition may be put in other words, and the description may say less. -/
theorem imp (h : Meets m s c q) (hc : c ↔ k) (hq : ∀ {a s'}, q a s' → q' a s') :
    Meets m s k q' where
  of_ok hm := ⟨hc.1 (h.of_ok hm).1, hq (h.of_ok hm).2⟩
  exists_ok hk := h.exists_ok (hc.2 hk)

/-- **A sequence meets what its steps meet.** -/
theorem bind {f : α → EStateM ε σ β} {q' : β → σ → Prop} (hm : Meets m s c q)
    (hf : ∀ a s', q a s' → Meets (f a) s' k q') : Meets (m >>= f) s (c ∧ k) q' where
  of_ok h := by
    obtain ⟨a, s₁, ha, hb⟩ := bind_ok_iff.1 h
    obtain ⟨hc, hq⟩ := hm.of_ok ha
    obtain ⟨hk, hq'⟩ := (hf a s₁ hq).of_ok hb
    exact ⟨⟨hc, hk⟩, hq'⟩
  exists_ok := by
    rintro ⟨hc, hk⟩
    obtain ⟨a, s₁, ha⟩ := hm.exists_ok hc
    obtain ⟨b, s', hb⟩ := (hf a s₁ (hm.of_ok ha).2).exists_ok hk
    exact ⟨b, s', bind_ok ha hb⟩

/-- A sequence whose other steps always succeed meets what its first step meets. -/
theorem bind_always {f : α → EStateM ε σ β} {q' : β → σ → Prop} (hm : Meets m s c q)
    (hf : ∀ a s', q a s' → Meets (f a) s' True q') : Meets (m >>= f) s c q' :=
  (hm.bind hf).imp (iff_of_eq (and_true c)) id

/-- A sequence meets a condition that covers the one of its first step. -/
theorem bind_of {f : α → EStateM ε σ β} {q' : β → σ → Prop} (hm : Meets m s c q) (hc : k → c)
    (hf : ∀ a s', q a s' → Meets (f a) s' k q') : Meets (m >>= f) s k q' :=
  (hm.bind hf).imp ⟨And.right, fun hk => ⟨hc hk, hk⟩⟩ fun h => h

/-- A sequence that starts with a step of known outcome. -/
theorem bind_eq {f : α → EStateM ε σ β} {q' : β → σ → Prop} {a : α} {s₁ : σ} (hm : m s = .ok a s₁)
    (hf : Meets (f a) s₁ c q') : Meets (m >>= f) s c q' where
  of_ok h := by
    obtain ⟨a', s₁', ha, hb⟩ := bind_ok_iff.1 h
    rw [hm] at ha
    cases ha
    exact hf.of_ok hb
  exists_ok hc := by
    obtain ⟨b, s', hb⟩ := hf.exists_ok hc
    exact ⟨b, s', bind_ok hm hb⟩

/-- A question meets the condition that it is answered. -/
theorem ask {question : Program → Except Error α} {p : Program} {c : α → Prop}
    (h : ∀ a, question p = .ok a ↔ c a) :
    Meets (Program.ask question) p (∃ a, c a) fun a p' => c a ∧ p' = p where
  of_ok hok := by
    obtain ⟨ha, rfl⟩ := ask_ok_iff.1 hok
    exact ⟨⟨_, (h _).1 ha⟩, (h _).1 ha, rfl⟩
  exists_ok := by
    rintro ⟨a, ha⟩
    exact ⟨a, p, ask_ok_iff.2 ⟨(h a).2 ha, rfl⟩⟩

/-- What is required is the condition. -/
theorem require {c k : Prop} [Decidable c] {e : Error} {q : Unit → σ → Prop} {s : σ}
    (hc : c ↔ k) (hq : k → q () s) :
    Meets (FrontEnd.require c e : EStateM Error σ Unit) s k q where
  of_ok h := by
    obtain ⟨hcond, rfl⟩ := require_ok_iff.1 h
    exact ⟨hc.1 hcond, hq (hc.1 hcond)⟩
  exists_ok hk := ⟨(), s, require_ok_iff.2 ⟨hc.2 hk, rfl⟩⟩

/-- A loop meets what its steps meet, one after the other.  The invariant tells which items are
done. -/
theorem forM {ι : Type} {step : ι → EStateM ε σ PUnit} {c : ι → Prop} (inv : List ι → σ → Prop)
    (hstep : ∀ i done s, inv done s → Meets (step i) s (c i) fun _ s' => inv (i :: done) s')
    (items done : List ι) {s : σ} (h : inv done s) :
    Meets (items.forM step) s (∀ i ∈ items, c i) fun _ s' => inv (items.reverse ++ done) s' := by
  induction items generalizing done s with
  | nil => exact succeeds rfl (by simp) h
  | cons i items ih =>
      rw [List.forM]
      refine ((hstep i done s h).bind fun _ s₁ h₁ => ih (i :: done) h₁).imp (by simp) fun h => ?_
      simpa using h

end Meets

/-! ### Both outcomes -/

/-- What a run comes to, without the state that it leaves. -/
def answer : EStateM.Result ε σ α → Except ε α
  | .ok a _ => .ok a
  | .error e _ => .error e

/-- The state that a run leaves, whether it succeeds or fails. -/
def left : EStateM.Result ε σ α → σ
  | .ok _ s => s
  | .error _ s => s

theorem answer_ok_iff {r : EStateM.Result ε σ α} {a : α} :
    answer r = .ok a ↔ ∃ s, r = .ok a s := by
  cases r <;> simp [answer]

/-! What is computed of a result tells how the run ended. -/

theorem exists_of_isSome {x : Except ε α} (h : x.toOption.isSome = true) : ∃ a, x = .ok a := by
  cases x with
  | ok a => exact ⟨a, rfl⟩
  | error e => cases h

theorem exists_of_any {x : Except ε α} {f : α → Bool} (h : x.toOption.any f = true) :
    ∃ a, x = .ok a ∧ f a = true := by
  cases x with
  | ok a => exact ⟨a, rfl, h⟩
  | error e => cases h

theorem exists_error_of_isOk {x : Except ε α} (h : (!x.isOk) = true) : ∃ e, x = .error e := by
  cases x with
  | ok a => cases h
  | error e => exact ⟨e, rfl⟩

theorem exists_ok_of_answer {r : EStateM.Result ε σ Unit} (h : (answer r).isOk = true) :
    ∃ s, r = .ok () s := by
  cases r with
  | ok a s => exact ⟨s, rfl⟩
  | error e s => cases h

theorem exists_error_of_answer {r : EStateM.Result ε σ α} (h : (!(answer r).isOk) = true) :
    ∃ e s, r = .error e s := by
  cases r with
  | ok a s => cases h
  | error e s => exact ⟨e, s, rfl⟩

/-- From the given state the computation succeeds or fails as described. -/
structure Ends (m : EStateM ε σ α) (s : σ) (outcome : α → σ → Prop) (failure : ε → σ → Prop) :
    Prop where
  of_ok : ∀ {a s'}, m s = .ok a s' → outcome a s'
  of_error : ∀ {e s'}, m s = .error e s' → failure e s'

namespace Ends

variable {m : EStateM ε σ α} {s : σ} {q q' : α → σ → Prop} {x x' : ε → σ → Prop}

/-- A computation that is known to succeed. -/
theorem of_eq_ok {a : α} {s' : σ} (hm : m s = .ok a s') (hq : q a s') : Ends m s q x where
  of_ok hm' := by
    rw [hm] at hm'
    cases hm'
    exact hq
  of_error hm' := by
    rw [hm] at hm'
    cases hm'

/-- A computation that is known to fail. -/
theorem of_eq_error {e : ε} {s' : σ} (hm : m s = .error e s') (hx : x e s') : Ends m s q x where
  of_ok hm' := by
    rw [hm] at hm'
    cases hm'
  of_error hm' := by
    rw [hm] at hm'
    cases hm'
    exact hx

/-- What another computation comes to, if it runs in the same way. -/
theorem of_run {n : EStateM ε σ α} (h : Ends m s q x) (hrun : n s = m s) : Ends n s q x where
  of_ok hn := h.of_ok (hrun ▸ hn)
  of_error hn := h.of_error (hrun ▸ hn)

theorem imp (h : Ends m s q x) (hq : ∀ {a s'}, q a s' → q' a s')
    (hx : ∀ {e s'}, x e s' → x' e s') : Ends m s q' x' where
  of_ok hm := hq (h.of_ok hm)
  of_error hm := hx (h.of_error hm)

/-- **A sequence fails like the first step that does.** -/
theorem bind {f : α → EStateM ε σ β} {q' : β → σ → Prop} (hm : Ends m s q x)
    (hf : ∀ a s', q a s' → Ends (f a) s' q' x) : Ends (m >>= f) s q' x where
  of_ok h := by
    obtain ⟨a, s₁, ha, hb⟩ := bind_ok_iff.1 h
    exact (hf a s₁ (hm.of_ok ha)).of_ok hb
  of_error h := by
    rcases bind_error_iff.1 h with he | ⟨a, s₁, ha, he⟩
    · exact hm.of_error he
    · exact (hf a s₁ (hm.of_ok ha)).of_error he

/-- A loop keeps what its steps keep, as far as it goes. -/
theorem forM {ι : Type} {step : ι → EStateM ε σ PUnit} {inv : σ → Prop} {items : List ι}
    (hstep : ∀ i ∈ items, ∀ s, inv s → Ends (step i) s (fun _ s' => inv s') x) (h : inv s) :
    Ends (items.forM step) s (fun _ s' => inv s') x := by
  induction items generalizing s with
  | nil => exact of_eq_ok rfl h
  | cons i items ih =>
      rw [List.forM]
      exact (hstep i List.mem_cons_self s h).bind fun _ s₁ h₁ =>
        ih (fun j hj => hstep j (List.mem_cons_of_mem i hj)) h₁

end Ends

end Run

/-! ### Samples -/

/-- The tokens of a text that has no lexical error. -/
def tokensOf (source : String) : List Token := (tokenize source).toOption.getD []

end FrontEnd
