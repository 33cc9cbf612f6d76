/-
**Places that a program holds.**

Declarations, expressions and statements know where they stand, and a reference that is pending
knows where it is written.  These are the places that errors are reported at once a file was read.
Building a program adds the places of the nodes that are built, and no others.

Main definitions:

* `FrontEnd.Program.HasPlace` — the places that the nodes of a program hold;
* `FrontEnd.StartsAt` — the places where tokens start;
* `FrontEnd.Error.PointsTo`, `FrontEnd.Reference.PointsTo` — errors and references there.

Main results:

* `FrontEnd.Program.HasPlace.of_addExpression` and the like — what a further node adds;
* `FrontEnd.Program.HasPlace.of_nodes` — scopes add nothing.
-/

import FrontEnd.Program

set_option relaxedAutoImplicit false
set_option autoImplicit false

namespace FrontEnd

/-! ### Places of nodes -/

/-- Where a reference is written, as long as it is pending. -/
def Reference.place? : Reference → Option Position
  | resolved _ => none
  | pending _ _ place => some place

/-- The place of a node, and that of its reference while it is pending. -/
def placesOf (place : Position) (ref? : Option Reference) : List Position :=
  place :: (ref?.bind Reference.place?).toList

/-- The places that a declaration holds: its own and that of the type of a variable. -/
def Declaration.places : Declaration → List Position
  | var v => placesOf v.position (some v.type)
  | type t => t.position?.toList
  | func f => [f.position]

def Expression.places (e : Expression) : List Position := placesOf e.position e.reference?

def Statement.places (s : Statement) : List Position := placesOf s.position s.target?

namespace Program

/-- A node of the program holds the place. -/
inductive HasPlace (p : Program) (place : Position) : Prop where
  | declaration {id : DeclId} {d : Declaration} (hd : p.declaration? id = some d)
      (hplace : place ∈ d.places)
  | expression {id : ExprId} {e : Expression} (he : p.expression? id = some e)
      (hplace : place ∈ e.places)
  | statement {id : StmtId} {s : Statement} (hs : p.statement? id = some s)
      (hplace : place ∈ s.places)

variable {p : Program} {place : Position}

theorem HasPlace.of_addDeclaration {d : Declaration} (h : (p.addDeclaration d).HasPlace place) :
    p.HasPlace place ∨ place ∈ d.places := by
  cases h with
  | declaration hd hplace =>
      rw [declaration?_addDeclaration] at hd
      split at hd
      · cases hd
        exact .inr hplace
      · exact .inl (.declaration hd hplace)
  | expression he hplace => exact .inl (.expression he hplace)
  | statement hs hplace => exact .inl (.statement hs hplace)

theorem HasPlace.of_addExpression {e : Expression} (h : (p.addExpression e).HasPlace place) :
    p.HasPlace place ∨ place ∈ e.places := by
  cases h with
  | declaration hd hplace => exact .inl (.declaration hd hplace)
  | expression he hplace =>
      rw [expression?_addExpression] at he
      split at he
      · cases he
        exact .inr hplace
      · exact .inl (.expression he hplace)
  | statement hs hplace => exact .inl (.statement hs hplace)

theorem HasPlace.of_addStatement {s : Statement} (h : (p.addStatement s).HasPlace place) :
    p.HasPlace place ∨ place ∈ s.places := by
  cases h with
  | declaration hd hplace => exact .inl (.declaration hd hplace)
  | expression he hplace => exact .inl (.expression he hplace)
  | statement hs hplace =>
      rw [statement?_addStatement] at hs
      split at hs
      · cases hs
        exact .inr hplace
      · exact .inl (.statement hs hplace)

/-- The statements of a body hold their places themselves. -/
theorem HasPlace.of_setBody {decl : DeclId} {body : List StmtId}
    (h : (p.setBody decl body).HasPlace place) : p.HasPlace place := by
  cases h with
  | declaration hd hplace =>
      rw [setBody, declaration?_modifyDeclaration] at hd
      split at hd
      · obtain ⟨d, hd', rfl⟩ := Option.map_eq_some_iff.1 hd
        cases d <;> exact .declaration hd' hplace
      · exact .declaration hd hplace
  | expression he hplace => exact .expression he hplace
  | statement hs hplace => exact .statement hs hplace

/-- Scopes and the order of the functions hold no places of nodes. -/
theorem HasPlace.of_nodes {q : Program} (h : q.HasPlace place)
    (hdeclarations : q.declaration? = p.declaration?)
    (hexpressions : q.expression? = p.expression?) (hstatements : q.statement? = p.statement?) :
    p.HasPlace place := by
  cases h with
  | declaration hd hplace => exact .declaration (hdeclarations ▸ hd) hplace
  | expression he hplace => exact .expression (hexpressions ▸ he) hplace
  | statement hs hplace => exact .statement (hstatements ▸ hs) hplace

/-- Built-in types stand nowhere. -/
theorem not_hasPlace_initial : ¬ Program.initial.HasPlace place := by
  intro h
  cases h with
  | declaration hd hplace =>
      have hmem := Array.mem_of_getElem? hd
      simp only [Program.initial, List.mem_toArray, List.mem_map] at hmem
      obtain ⟨b, -, rfl⟩ := hmem
      cases hplace
  | expression he => cases he
  | statement hs => cases hs

end Program

/-! ### Places of tokens -/

/-- One of the tokens starts at the place. -/
def StartsAt (tokens : List Token) (place : Position) : Prop := ∃ t ∈ tokens, t.position = place

/-- The error is reported where one of the tokens starts. -/
def Error.PointsTo (tokens : List Token) (e : Error) : Prop :=
  ∃ place, e.position? = some place ∧ StartsAt tokens place

/-- The reference, if it is pending, is written where one of the tokens starts. -/
def Reference.PointsTo (tokens : List Token) (ref : Reference) : Prop :=
  ∀ place, ref.place? = some place → StartsAt tokens place

variable {tokens : List Token} {t : Token}

theorem startsAt_of_mem (h : t ∈ tokens) : StartsAt tokens t.position := ⟨t, h, rfl⟩

theorem pointsTo_at {cause : Cause} {place : Position} (h : StartsAt tokens place) :
    (cause.at place).PointsTo tokens := ⟨place, rfl, h⟩

/-- A node holds no other places than its own and that of its reference. -/
theorem startsAt_of_mem_placesOf {place : Position} {ref? : Option Reference}
    (hplace : StartsAt tokens place) (href : ∀ ref, ref? = some ref → ref.PointsTo tokens) :
    ∀ held ∈ placesOf place ref?, StartsAt tokens held := by
  refine List.forall_mem_cons.2 ⟨hplace, fun held h => ?_⟩
  obtain ⟨ref, hsome, hpending⟩ := Option.bind_eq_some_iff.1 (Option.mem_toList.1 h)
  exact href ref hsome held hpending

/-- A name that is not found keeps its place. -/
theorem Reference.pointsTo_ofFound (h : t ∈ tokens) (found? : Option DeclId) (name : String)
    (scope : ScopeId) : (ofFound found? name scope t.position).PointsTo tokens := by
  intro place hplace
  cases found? with
  | none =>
      cases hplace
      exact startsAt_of_mem h
  | some id => cases hplace

end FrontEnd
