/-
**Order in programs that were read.**

In the program of a file parts are older than wholes, only literals come with a note of their type,
and the types of variables are built-in ones or still unknown.  All of this can be seen from single
nodes.

Main definitions:

* `FrontEnd.Syntax.Nodes.Ordered` — nodes of which this is true.

Main results:

* `FrontEnd.Program.Realizes.expression?_iff` and the like — the nodes of the program of a file;
* `FrontEnd.Program.Realizes.partsOlder`, `FrontEnd.Program.Realizes.note`,
  `FrontEnd.Program.Realizes.variableType` — order in it.
-/

import FrontEnd.Proofs.Resolution.TwoPass

set_option relaxedAutoImplicit false
set_option autoImplicit false

namespace FrontEnd

namespace Syntax

variable {o o' : Extent} {x y : Nodes}

/-! ### Ordered nodes -/

/-- Parts are older than wholes, notes tell the types of literals, and variables have built-in
types. -/
structure Nodes.Ordered (o : Extent) (y : Nodes) : Prop where
  expressions : ∀ id e, y.expression? o id = some e →
    ∀ part ∈ e.form.parts, part.index < id.index
  statements : ∀ id s, y.statement? o id = some s → ∀ part ∈ s.form.parts, part.index < id.index
  notes : ∀ id e types, y.expression? o id = some e → e.types? = some types →
    ∃ b, e.form.literalType? = some b ∧ types = [b.declaration]
  types : ∀ decl v type, y.declaration? o decl = some (.var v) → v.type = .resolved type →
    ∃ b : BasicType, type = b.declaration

/-- Ordered nodes behind ordered nodes are ordered: what refers backwards still does. -/
theorem Nodes.Ordered.append (hx : x.Ordered o) (hy : y.Ordered (o + x.count)) :
    (x ++ y).Ordered o where
  expressions := by
    intro id e he
    rcases (expression?_append (.refl _)).1 he with he | he
    · exact hx.expressions id e he
    · exact hy.expressions id e he
  statements := by
    intro id s hs
    rcases (statement?_append (.refl _)).1 hs with hs | hs
    · exact hx.statements id s hs
    · exact hy.statements id s hs
  notes := by
    intro id e types he
    rcases (expression?_append (.refl _)).1 he with he | he
    · exact hx.notes id e types he
    · exact hy.notes id e types he
  types := by
    intro decl v type hd
    rcases (declaration?_append (.refl _)).1 hd with hd | hd
    · exact hx.types decl v type hd
    · exact hy.types decl v type hd

theorem Nodes.Ordered.congr (h : y.Ordered o) (hsame : o.SameNodes o') : y.Ordered o' := by
  obtain ⟨expressions, statements, notes, types⟩ := h
  rw [expression?_congr hsame] at expressions notes
  rw [statement?_congr hsame] at statements
  rw [declaration?_congr hsame] at types
  exact ⟨expressions, statements, notes, types⟩

/-- A list of places is of no account. -/
theorem Nodes.Ordered.append_deferIf (h : y.Ordered o) (ref : Reference) (places : Deferred) :
    (y ++ deferIf ref places).Ordered o := by
  obtain ⟨expressions, statements, notes, types⟩ := h
  rw [← expression?_append_deferIf y ref places] at expressions notes
  rw [← statement?_append_deferIf y ref places] at statements
  rw [← declaration?_append_deferIf y ref places] at types
  exact ⟨expressions, statements, notes, types⟩

/-- An expression by itself is ordered if its parts stand before it and its note, if any, is the
type of a literal. -/
theorem Nodes.ordered_ofExpression {e : Expression}
    (hparts : ∀ part ∈ e.form.parts, part.index < o.exprs)
    (hnote : ∀ types, e.types? = some types →
      ∃ b, e.form.literalType? = some b ∧ types = [b.declaration]) :
    (ofExpression e).Ordered o where
  expressions := by
    intro id e' he
    obtain ⟨rfl, rfl⟩ := expression?_ofExpression.1 he
    exact hparts
  statements := by simp
  notes := by
    intro id e' types he
    obtain ⟨-, rfl⟩ := expression?_ofExpression.1 he
    exact hnote types
  types := by simp

theorem Nodes.ordered_ofStatement {form : StmtForm} {place : Position}
    (hparts : ∀ part ∈ form.parts, part.index < o.stmts) : (ofStatement form place).Ordered o where
  expressions := by simp
  statements := by
    intro id s hs
    obtain ⟨rfl, rfl⟩ := statement?_ofStatement.1 hs
    exact hparts
  notes := by simp
  types := by simp

theorem Nodes.ordered_ofDeclaration {d : Declaration}
    (htypes : ∀ v type, d = .var v → v.type = .resolved type →
      ∃ b : BasicType, type = b.declaration) : (ofDeclaration d).Ordered o where
  expressions := by simp
  statements := by simp
  notes := by simp
  types := by
    intro decl v type hd htype
    exact htypes v type (declaration?_ofDeclaration.1 hd).2 htype

/-- A type that is found is a built-in one. -/
theorem Sight.type_eq_resolved {scope : ScopeId} {name : Name} {type : DeclId}
    (h : Sight.type scope name = .resolved type) : ∃ b : BasicType, type = b.declaration := by
  unfold Sight.type at h
  cases hname : BasicType.ofName? name.text with
  | none => simp [hname] at h
  | some b =>
      simp only [hname, Option.map_some, Reference.ofFound_some, Reference.resolved.injEq] at h
      exact ⟨b, h.symm⟩

/-- The order of parts and wholes is a nodewise property, so every tree that is laid out has it. -/
theorem nodewise_ordered : Nodewise Nodes.Ordered where
  empty o := by constructor <;> simp
  congr := Nodes.Ordered.congr
  append := Nodes.Ordered.append
  literal o value place := by
    refine Nodes.ordered_ofExpression ?_ ?_
    · cases value <;> simp [Literal.form, ExprForm.parts]
    · intro types htypes
      refine ⟨value.type, ?_, (Option.some.inj htypes).symm⟩
      cases value <;> rfl
  name o text ref place := by
    refine (Nodes.ordered_ofExpression ?_ ?_).append_deferIf _ _
    · simp [ExprForm.parts]
    · simp
  whole o form place _ hparts := Nodes.ordered_ofExpression hparts (by simp)
  statement o form place _ _ hparts := Nodes.ordered_ofStatement hparts
  change o ref change place := by
    refine (Nodes.ordered_ofStatement ?_).append_deferIf _ _
    simp [StmtForm.parts]
  declare o name? p place scope type := by
    have hdeclaration := Nodes.ordered_ofDeclaration (o := o)
      (d := .var ⟨name?, p, Sight.type scope type⟩) fun v t hv ht => by
        cases hv
        exact Sight.type_eq_resolved ht
    refine hdeclaration.append ((Nodes.ordered_ofStatement ?_).append_deferIf _ _)
    simp [StmtForm.parts]
  slot o scope slot := by
    refine (Nodes.ordered_ofDeclaration fun v t hv ht => ?_).append_deferIf _ _
    cases hv
    exact Sight.type_eq_resolved ht
  func o f := Nodes.ordered_ofDeclaration (by simp)

end Syntax

/-! ### Nodes of a program -/

namespace Program.Realizes

open Syntax

variable {p : Program} {fs : List Func}

theorem expression?_iff (h : p.Realizes fs) {id : ExprId} {e : Expression} :
    p.expression? id = some e ↔ (fileLayout fs).expression? start id = some e := by
  unfold Program.expression? Nodes.expression? itemAt?
  rw [h.expressions]
  simp [start, Program.extent, Program.initial]

theorem statement?_iff (h : p.Realizes fs) {id : StmtId} {s : Statement} :
    p.statement? id = some s ↔ (fileLayout fs).statement? start id = some s := by
  unfold Program.statement? Nodes.statement? itemAt?
  rw [h.statements]
  simp [start, Program.extent, Program.initial]

theorem declaration?_iff (h : p.Realizes fs) {decl : DeclId} {d : Declaration} :
    p.declaration? decl = some d ↔
      Program.initial.declaration? decl = some d ∨
        (fileLayout fs).declaration? start decl = some d := by
  unfold Program.declaration?
  rw [h.declarations]
  exact getElem?_append_itemAt? Program.initial.declarations (fileLayout fs).declarations decl.index

/-- The built-in declarations are types. -/
theorem initial_declaration? {decl : DeclId} {d : Declaration}
    (h : Program.initial.declaration? decl = some d) : ∃ t, d = .type t := by
  obtain ⟨i⟩ := decl
  have hmem := Array.mem_of_getElem? h
  simp only [Program.initial, List.mem_toArray, List.mem_map] at hmem
  obtain ⟨b, -, rfl⟩ := hmem
  exact ⟨_, rfl⟩

theorem ordered (_ : p.Realizes fs) : (fileLayout fs).Ordered start :=
  nodewise_ordered.fileNodes fs start

/-- Parts are older than wholes. -/
theorem partsOlder (h : p.Realizes fs) : p.PartsOlder where
  expressions := by
    intro id form hform
    obtain ⟨e, he, rfl⟩ := Option.map_eq_some_iff.1 hform
    exact h.ordered.expressions id e (h.expression?_iff.1 he)
  statements := by
    intro id s hs
    exact h.ordered.statements id s (h.statement?_iff.1 hs)

/-- What is noted at first is the type of a literal. -/
theorem note (h : p.Realizes fs) {id : ExprId} {e : Expression} {types : List DeclId}
    (he : p.expression? id = some e) (htypes : e.types? = some types) :
    ∃ b, e.form.literalType? = some b ∧ types = [b.declaration] :=
  h.ordered.notes id e types (h.expression?_iff.1 he) htypes

/-- The types of variables are built in. -/
theorem variableType (h : p.Realizes fs) {decl type : DeclId}
    (htype : p.variableType decl = .ok type) : ∃ b : BasicType, type = b.declaration := by
  obtain ⟨v, hd, hresolved⟩ := Program.variableType_ok_iff.1 htype
  rcases h.declaration?_iff.1 hd with hd | hd
  · obtain ⟨t, ht⟩ := initial_declaration? hd
    cases ht
  · exact h.ordered.types decl v type hd hresolved

end Program.Realizes

end FrontEnd
