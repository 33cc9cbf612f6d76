/-
**Errors stay in their stage.**

A source text goes through four stages, and each refuses it for reasons of its own: the lexer
because of a faulty lexeme, the parser because of the grammar or because a name is taken, resolution
because a name is not found, and typing because of its rules.  The errors that tell of a defect of
the front end itself are never reported: each stage hands on what the next one relies on, and what is
looked up again within a stage, such as the match of a pattern or a built-in type, is found again.

Main definitions:

* `FrontEnd.Cause.isDefect` — the causes that no source text gives rise to.

Main results:

* `FrontEnd.resolve_error`, `FrontEnd.complete_of_resolve` — what resolution comes to in a file that
  was read;
* `FrontEnd.errors_stay_in_stage` — all stages.
-/

import FrontEnd.Compile
import FrontEnd.Proofs.Stages.Refusing
import FrontEnd.Proofs.Stages.TypeErrors

set_option relaxedAutoImplicit false
set_option autoImplicit false

namespace FrontEnd

open Run

/-! ### Defects -/

/-- Whether the cause would be a defect of the front end: a node that refers to nothing or to
something of the wrong kind, a token that is read as something that it is not, or a declaration next
to the built-in ones. -/
def Cause.isDefect : Cause → Bool
  | .internal _ | .wrongPayload _ _ | .builtInDeclaration _ => true
  | _ => false

section Causes

variable {c : Cause}

theorem Cause.isDefect_of_lexing (h : c.stage = .lexing) : c.isDefect = false := by
  revert h
  cases c <;> simp [stage, isDefect]

theorem Cause.isDefect_of_refusal (h : c.IsRefusal) : c.isDefect = false := by
  rcases h with ⟨hstage, hpayload⟩ | ⟨_, _, _, rfl⟩ | ⟨_, _, rfl⟩
  · revert hstage hpayload
    cases c <;> simp [stage, isWrongPayload, isDefect]
  · rfl
  · rfl

theorem Cause.isDefect_of_notFound (h : c.IsNotFound) : c.isDefect = false := by
  obtain ⟨name, rfl | rfl | rfl⟩ := h <;> rfl

theorem Cause.isDefect_of_typeError (h : c.IsTypeError) : c.isDefect = false := by
  obtain ⟨hstage, hinternal⟩ := h
  revert hstage hinternal
  cases c <;> simp [stage, isInternal, isDefect]

end Causes

/-! ### Resolution -/

variable {tokens : List Token} {p q : Program} {d : Deferred} {e : Error}

/-- **Resolution of a file fails because a name is not found.** -/
theorem resolve_error (h : parseFile tokens = .ok (p, d))
    (herror : Program.resolve d p = .error e q) : e.cause.IsNotFound := by
  obtain ⟨fs, -, -, hreading⟩ := isReading_of_parseFile h
  have hlists : Program.Lists p d := hreading.lists
  rcases ((Program.resolve_ends p d).of_error herror).2 with hcause | ⟨decl, hlisted, hno⟩
  · exact hcause
  · obtain ⟨v, hv⟩ : ∃ v, p.declaration? decl = some (.var v) := by
      rcases hlisted with hfield | ⟨id, hid, hdecl⟩
      · exact hlists.fields decl hfield
      · exact hlists.declares id hid decl hdecl
    exact absurd hv (hno v)

/-- **In a file whose names are all found there is all that typing asks for.** -/
theorem complete_of_resolve (h : parseFile tokens = .ok (p, d))
    (hok : Program.resolve d p = .ok () q) : q.Complete := by
  obtain ⟨fs, -, -, hreading⟩ := isReading_of_parseFile h
  have hsettled : p.PartlySettled q := (Program.resolve_ends p d).of_ok hok
  have hkinded := (wellKinded_of_parseFile h).partlySettled hsettled
  have hresolved : q.IsResolved := by
    obtain ⟨hall, rfl⟩ := (Program.resolve_ok_iff hreading.lists).1 hok
    exact hall
  exact ⟨hkinded, hkinded.linked hresolved, hreading.rightlyNoted.of_partlySettled hsettled⟩

/-- A text that is accepted was read, and all its references were found. -/
theorem parse_ok (h : parse tokens = .ok q) :
    ∃ p d, parseFile tokens = .ok (p, d) ∧ Program.resolve d p = .ok () q := by
  unfold parse at h
  split at h
  · cases h
  · next p d hread =>
      split at h
      · next u q' hresolve =>
          cases h
          exact ⟨p, d, hread, hresolve⟩
      · cases h

/-- A program that was read and resolved is complete. -/
theorem complete_of_parse (h : parse tokens = .ok q) : q.Complete := by
  obtain ⟨p, d, hread, hresolve⟩ := parse_ok h
  exact complete_of_resolve hread hresolve

/-- A refusal of the parser comes from the grammar, from a name that is taken or from one that is
not found, unless a token does not fit. -/
theorem parse_error (h : parse tokens = .error e) :
    e.cause.IsRefusal ∨ e.cause.IsNotFound ∨ ∃ t ∈ tokens, ¬ t.Fits := by
  unfold parse at h
  split at h
  · next e' hread =>
      cases h
      exact (parseFile_error hread).imp id .inr
  · next p d hread =>
      split at h
      · cases h
      · next e' q hresolve =>
          cases h
          exact .inr (.inl (resolve_error hread hresolve))

/-! ### All stages -/

variable {source : String}

/-- The tokens of a text are read, or refused. -/
theorem parseFile_error_of_tokenize (h : tokenize source = .ok tokens)
    (herror : parseFile tokens = .error e) : e.cause.IsRefusal :=
  (parseFile_error herror).resolve_right fun ⟨t, hmem, hfits⟩ => hfits (tokenize_fits h t hmem)

/-- **No defect is reported of any source text.** -/
theorem compile_isDefect (h : compile source = .error e) : e.cause.isDefect = false := by
  unfold compile at h
  split at h
  · next e' htokens =>
      cases h
      exact Cause.isDefect_of_lexing (tokenize_error htokens)
  · next tokens htokens =>
      split at h
      · next e' hparse =>
          cases h
          rcases parse_error hparse with hrefused | hmissing | ⟨t, hmem, hfits⟩
          · exact Cause.isDefect_of_refusal hrefused
          · exact Cause.isDefect_of_notFound hmissing
          · exact absurd (tokenize_fits htokens t hmem) hfits
      · next p hparse =>
          split at h
          · cases h
          · next e' q hanalyze =>
              cases h
              exact Cause.isDefect_of_typeError ((complete_of_parse hparse).analyze_error hanalyze)

/-- **Every stage refuses a source text for its own reasons only.**  The lexer reports lexical
faults.  On its tokens the parser reports that the grammar asks for something else or that a name is
taken, and on what the parser makes resolution reports that a name is not found.  What typing then
reports are its own errors, none of them internal.  So the whole never reports a defect of the front
end, since in a program that was read and resolved every reference leads to a declaration of the
right kind. -/
theorem errors_stay_in_stage (source : String) :
    (∀ e, tokenize source = .error e → e.cause.stage = .lexing) ∧
      (∀ tokens, tokenize source = .ok tokens →
        (∀ e, parseFile tokens = .error e → e.cause.IsRefusal) ∧
          ∀ p d, parseFile tokens = .ok (p, d) →
            (∀ e q, Program.resolve d p = .error e q → e.cause.IsNotFound) ∧
              ∀ q, Program.resolve d p = .ok () q →
                ∀ e q', Program.analyze q = .error e q' → e.cause.IsTypeError) ∧
      (∀ e, compile source = .error e → e.cause.isDefect = false) ∧
      ∀ tokens p, parse tokens = .ok p → p.Linked := by
  refine ⟨fun e => tokenize_error, fun tokens htokens => ⟨fun e => ?_, fun p d hread => ⟨?_, ?_⟩⟩,
    fun e => compile_isDefect, fun tokens p hparse => (complete_of_parse hparse).linked⟩
  · exact parseFile_error_of_tokenize htokens
  · exact fun e q => resolve_error hread
  · exact fun q hresolve e q' => (complete_of_resolve hread hresolve).analyze_error

/-- Every stage has something to refuse: a character that starts no token, a function without a
name, a call of nothing, and a condition that is no truth value. -/
theorem errors_stay_in_stage_examples :
    (∃ e, tokenize "@" = .error e ∧ e.cause.stage = .lexing) ∧
      (∃ tokens e, tokenize "func" = .ok tokens ∧ parseFile tokens = .error e ∧
        e.cause.IsRefusal) ∧
      (∃ tokens p d e q, tokenize "func main() \x7b f(); \x7d" = .ok tokens ∧
        parseFile tokens = .ok (p, d) ∧ Program.resolve d p = .error e q ∧ e.cause.IsNotFound) ∧
      ∃ tokens p d q e q', tokenize "func main() \x7b while 1 \x7b\x7d \x7d" = .ok tokens ∧
        parseFile tokens = .ok (p, d) ∧ Program.resolve d p = .ok () q ∧
          Program.analyze q = .error e q' ∧ e.cause.IsTypeError := by
  refine ⟨?_, ?_, ?_, ?_⟩
  · have hfails : (!(tokenize "@").isOk) = true := by decide +kernel
    obtain ⟨e, he⟩ := exists_error_of_isOk hfails
    exact ⟨e, he, (errors_stay_in_stage "@").1 e he⟩
  · have hfails : ((tokenize "func").toOption.any fun tokens =>
        !(parseFile tokens).isOk) = true := by decide +kernel
    obtain ⟨tokens, htokens, hread⟩ := exists_of_any hfails
    obtain ⟨e, he⟩ := exists_error_of_isOk hread
    obtain ⟨-, hstages, -⟩ := errors_stay_in_stage "func"
    exact ⟨tokens, e, htokens, he, (hstages tokens htokens).1 e he⟩
  · have hfails : ((tokenize "func main() \x7b f(); \x7d").toOption.any fun tokens =>
        (parseFile tokens).toOption.any fun r =>
          !(answer (Program.resolve r.2 r.1)).isOk) = true := by decide +kernel
    obtain ⟨tokens, htokens, hread⟩ := exists_of_any hfails
    obtain ⟨⟨p, d⟩, hp, hresolve⟩ := exists_of_any hread
    obtain ⟨e, q, he⟩ := exists_error_of_answer hresolve
    obtain ⟨-, hstages, -⟩ := errors_stay_in_stage "func main() \x7b f(); \x7d"
    exact ⟨tokens, p, d, e, q, htokens, hp, he, ((hstages tokens htokens).2 p d hp).1 e q he⟩
  · have hfails : ((tokenize "func main() \x7b while 1 \x7b\x7d \x7d").toOption.any fun tokens =>
        (parseFile tokens).toOption.any fun r =>
          (answer (Program.resolve r.2 r.1)).isOk &&
            !(answer (Program.analyze (left (Program.resolve r.2 r.1)))).isOk) = true := by
      decide +kernel
    obtain ⟨tokens, htokens, hread⟩ := exists_of_any hfails
    obtain ⟨⟨p, d⟩, hp, hstages⟩ := exists_of_any hread
    obtain ⟨hresolve, hanalyze⟩ := (Bool.and_eq_true _ _).mp hstages
    obtain ⟨q, hq⟩ := exists_ok_of_answer hresolve
    rw [hq] at hanalyze
    obtain ⟨e, q', he⟩ := exists_error_of_answer hanalyze
    obtain ⟨-, hstages, -⟩ := errors_stay_in_stage "func main() \x7b while 1 \x7b\x7d \x7d"
    exact ⟨tokens, p, d, q, e, q', htokens, hp, hq, he,
      ((hstages tokens htokens).2 p d hp).2 q hq e q' he⟩

end FrontEnd
