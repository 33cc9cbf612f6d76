/-
**Errors point into the source text.**

A name that is not found is reported where it is written, which the program remembers; resolution
that finds other names before brings no further places.  So whichever stage refuses a source text
reports it where a token starts, or where a lexeme cannot be read, and both are on lines of the text
as they are shown.  That there is no function to start in is the only thing that is reported without
a place.

Main results:

* `FrontEnd.Program.resolve_blames` — resolution fails at a node;
* `FrontEnd.pointsTo_of_parse_error`, `FrontEnd.pointsTo_of_analyze_error` — the stages behind the
  lexer fail at a token;
* `FrontEnd.errors_point_into_source` — all stages.
-/

import FrontEnd.Proofs.Pointing.Checking
import FrontEnd.Proofs.Pointing.Lines
import FrontEnd.Proofs.Pointing.Reading
import FrontEnd.Proofs.Stages.Compiling

set_option relaxedAutoImplicit false
set_option autoImplicit false

namespace FrontEnd

open Run

/-! ### Settled references -/

section Settled

variable (find : ScopeId → String → Option DeclId)

/-- A reference that is settled keeps its place or loses it. -/
theorem placesOf_settle_subset (place : Position) (ref : Reference) :
    placesOf place (some (ref.settle find)) ⊆ placesOf place (some ref) := by
  cases ref with
  | resolved id => exact List.Subset.refl _
  | pending name scope written =>
      rw [Reference.settle]
      cases find scope name with
      | none => exact List.Subset.refl _
      | some id => exact List.cons_subset_cons _ (List.nil_subset _)

theorem Declaration.places_settle_subset (d : Declaration) : (d.settle find).places ⊆ d.places := by
  cases d with
  | var v => exact placesOf_settle_subset find v.position v.type
  | type t => exact List.Subset.refl _
  | func f => exact List.Subset.refl _

theorem Expression.places_settle_subset (e : Expression) : (e.settle find).places ⊆ e.places := by
  obtain ⟨form, place, types?⟩ := e
  cases form with
  | identifier name ref => exact placesOf_settle_subset find place ref
  | _ => exact List.Subset.refl _

theorem Statement.places_settle_subset (s : Statement) : (s.settle find).places ⊆ s.places := by
  obtain ⟨form, place⟩ := s
  cases form with
  | change target change => exact placesOf_settle_subset find place target
  | _ => exact List.Subset.refl _

end Settled

namespace Program

variable {p q q' : Program} {place : Position} {e : Error}

/-- A program with some nodes settled holds no further places. -/
theorem PartlySettled.hasPlace (h : PartlySettled p q) (hplace : q.HasPlace place) :
    p.HasPlace place := by
  obtain ⟨ds, es, ss, h⟩ := h
  cases hplace with
  | declaration hd hmem =>
      rw [h.declaration] at hd
      split at hd
      · obtain ⟨d, hd', rfl⟩ := Option.map_eq_some_iff.1 hd
        exact .declaration hd' (Declaration.places_settle_subset _ d hmem)
      · exact .declaration hd hmem
  | expression he hmem =>
      rw [h.expression] at he
      split at he
      · obtain ⟨x, he', rfl⟩ := Option.map_eq_some_iff.1 he
        exact .expression he' (Expression.places_settle_subset _ x hmem)
      · exact .expression he hmem
  | statement hs hmem =>
      rw [h.statement] at hs
      split at hs
      · obtain ⟨s, hs', rfl⟩ := Option.map_eq_some_iff.1 hs
        exact .statement hs' (Statement.places_settle_subset _ s hmem)
      · exact .statement hs hmem

theorem PartlySettled.blames (h : PartlySettled p q) (he : q.Blames e) : p.Blames e :=
  he.imp id fun ⟨place, hplace, hholds⟩ => ⟨place, hplace, h.hasPlace hholds⟩

/-! ### Names that are not found -/

theorem mem_placesOf_pending (written : Position) (name : String) (scope : ScopeId)
    (place : Position) : place ∈ placesOf written (some (.pending name scope place)) :=
  List.mem_cons_of_mem written List.mem_cons_self

/-- What is not found is reported where it is looked for. -/
theorem blames_of_found_error {found? : Option DeclId} {cause : Cause}
    (h : found found? cause place = .error e) (hplace : p.HasPlace place) : p.Blames e := by
  cases found? with
  | none =>
      cases h
      exact blames_at hplace cause
  | some id => cases h

/-- A type that is not found is reported where it is written, and the variable holds that place. -/
theorem blames_of_resolveType_error {decl : DeclId} (h : resolveType decl q = .error e q') :
    q.Blames e := by
  unfold resolveType at h
  split at h
  · next v hv =>
      split at h
      · cases h
      · next name scope place htype =>
          have hplace : place ∈ (Declaration.var v).places := by
            rw [Declaration.places, htype]
            exact mem_placesOf_pending _ _ _ _
          split at h
          · next hfound =>
              cases h
              exact blames_of_found_error hfound (.declaration hv hplace)
          · cases h
  · cases h
    exact .inl rfl

/-- A name that is not found is reported where it is written, and the expression holds that
place. -/
theorem blames_of_resolveIdentifier_error {id : ExprId}
    (h : resolveIdentifier id q = .error e q') : q.Blames e := by
  unfold resolveIdentifier at h
  split at h
  · next name scope place hpending =>
      obtain ⟨x, hx, href⟩ := Option.bind_eq_some_iff.1 hpending
      have hplace : place ∈ x.places := by
        rw [Expression.places, href]
        exact mem_placesOf_pending _ _ _ _
      split at h
      · next hfound =>
          cases h
          exact blames_of_found_error hfound (.expression hx hplace)
      · cases h
  · cases h

/-- So it is with the type or the variable of a statement. -/
theorem blames_of_resolveStatement_error {id : StmtId}
    (h : resolveStatement id q = .error e q') : q.Blames e := by
  unfold resolveStatement at h
  split at h
  · cases h
  · next s hs =>
      split at h
      · exact blames_of_resolveType_error h
      · unfold resolveTarget at h
        split at h
        · next name scope place htarget =>
            have hplace : place ∈ s.places := by
              rw [Statement.places, htarget]
              exact mem_placesOf_pending _ _ _ _
            split at h
            · next hfound =>
                cases h
                exact blames_of_found_error hfound (.statement hs hplace)
            · cases h
        · cases h

/-- **Resolution that fails is reported at a node** of the program that it starts with. -/
theorem resolve_blames (p : Program) (d : Deferred) :
    Ends (resolve d) p (fun _ q => PartlySettled p q) fun e _ => p.Blames e := by
  unfold resolve
  refine (Ends.forM (fun decl _ q h => ⟨h.resolveType, fun herror => ?_⟩) (.refl p)).bind
    fun _ q₁ h₁ => (Ends.forM (fun id _ q h => ⟨h.resolveIdentifier, fun herror => ?_⟩) h₁).bind
      fun _ q₂ h₂ => .forM (fun id _ q h => ⟨h.resolveStatement, fun herror => ?_⟩) h₂
  · exact h.blames (blames_of_resolveType_error herror)
  · exact h.blames (blames_of_resolveIdentifier_error herror)
  · exact h.blames (blames_of_resolveStatement_error herror)

end Program

/-! ### All stages -/

variable {tokens : List Token} {p q : Program} {d : Deferred} {e : Error} {source : String}

theorem Cause.isInternal_of_notFound {c : Cause} (h : c.IsNotFound) : c.isInternal = false := by
  obtain ⟨name, rfl | rfl | rfl⟩ := h <;> rfl

/-- **A file that is not read or not resolved is refused at one of its tokens.** -/
theorem pointsTo_of_parse_error (h : parse tokens = .error e) : e.PointsTo tokens := by
  unfold parse at h
  split at h
  · next hread =>
      cases h
      exact pointsTo_of_parseFile_error hread
  · next p d hread =>
      split at h
      · cases h
      · next e' q hresolve =>
          cases h
          have hexternal := Cause.isInternal_of_notFound (resolve_error hread hresolve)
          rcases (Program.resolve_blames p d).of_error hresolve with hinternal | ⟨place, he, hplace⟩
          · rw [hexternal] at hinternal
            cases hinternal
          · exact ⟨place, he, startsAt_of_parseFile hread hplace⟩

/-- **A program that is ill typed is refused at one of the tokens it was read from**, unless it has
nothing to start with. -/
theorem pointsTo_of_analyze_error (hparse : parse tokens = .ok p)
    (h : Program.analyze p = .error e q) : e = Cause.missingMain.nowhere ∨ e.PointsTo tokens := by
  refine ((complete_of_parse hparse).position_of_analyze_error h).imp id ?_
  rintro ⟨place, he, hplace⟩
  obtain ⟨p₀, d, hread, hresolve⟩ := parse_ok hparse
  have hsettled := (Program.resolve_blames p₀ d).of_ok hresolve
  exact ⟨place, he, startsAt_of_parseFile hread (hsettled.hasPlace hplace)⟩

/-- **Every error points into the source text**, except that a missing function to start in has no
place.  The place is inside of a line as it is shown, and where a token starts unless the error is
lexical. -/
theorem errors_point_into_source (h : compile source = .error e) :
    (e.cause = .missingMain ∧ e.position? = none) ∨
      ∃ place, e.position? = some place ∧ PointsInto source place ∧
        (e.cause.stage ≠ .lexing → ∃ tokens, tokenize source = .ok tokens ∧
          StartsAt tokens place) := by
  have hbehind : ∀ tokens, tokenize source = .ok tokens → e.PointsTo tokens →
      ∃ place, e.position? = some place ∧ PointsInto source place ∧
        (e.cause.stage ≠ .lexing → ∃ tokens, tokenize source = .ok tokens ∧
          StartsAt tokens place) := by
    rintro tokens htokens ⟨place, he, t, ht, rfl⟩
    exact ⟨_, he, pointsInto_of_mem htokens ht, fun _ => ⟨tokens, htokens, t, ht, rfl⟩⟩
  unfold compile at h
  split at h
  · next htokens =>
      cases h
      obtain ⟨place, he, hinside⟩ := pointsInto_of_tokenize_error htokens
      exact .inr ⟨place, he, hinside, fun hstage => absurd (tokenize_error htokens) hstage⟩
  · next tokens htokens =>
      split at h
      · next hparse =>
          cases h
          exact .inr (hbehind tokens htokens (pointsTo_of_parse_error hparse))
      · next p hparse =>
          split at h
          · cases h
          · next hanalyze =>
              cases h
              rcases pointsTo_of_analyze_error hparse hanalyze with rfl | hplace
              · exact .inl ⟨rfl, rfl⟩
              · exact .inr (hbehind tokens htokens hplace)

/-- An operator behind a character of two bytes, on a line that ends in a carriage return. -/
theorem errors_point_into_source_wideCharacter :
    ∃ e place, compile "func main() \x7b\r\n\twhile \"é\" == 1 \x7b\x7d\r\n\x7d\r" = .error e ∧
      e.position? = some place ∧
      PointsInto "func main() \x7b\r\n\twhile \"é\" == 1 \x7b\x7d\r\n\x7d\r" place ∧
      ∃ tokens, tokenize "func main() \x7b\r\n\twhile \"é\" == 1 \x7b\x7d\r\n\x7d\r" = .ok tokens ∧
        StartsAt tokens place := by
  have hfails : compile "func main() \x7b\r\n\twhile \"é\" == 1 \x7b\x7d\r\n\x7d\r" =
      .error ((Cause.operandMismatch "String" "Int").at ⟨1, 12⟩) := by decide +kernel
  rcases errors_point_into_source hfails with ⟨hcause, -⟩ | ⟨place, he, hinside, htoken⟩
  · cases hcause
  · exact ⟨_, place, hfails, he, hinside, htoken (by decide)⟩

end FrontEnd
