/-
**Every pending reference is listed.**

While the nodes of a tree are made, a reference that finds nothing is put into one of three lists:
the type of a parameter or a result, the name in an expression, or a statement, for the type of the
variable that it declares and for the variable that it changes.  So the lists that come with a tree
hold all pending references of its nodes.

Main definitions:

* `FrontEnd.Syntax.Nodes.Listed` — nodes whose pending references are all listed.

Main results:

* `FrontEnd.Syntax.nodewise_listed` — the nodes of every file are such;
* `FrontEnd.Program.lists_add` — the lists of some nodes are lists of the program that they make.
-/

import FrontEnd.Proofs.Layout.Nodewise
import FrontEnd.Proofs.Resolution.Settling

set_option relaxedAutoImplicit false
set_option autoImplicit false

namespace FrontEnd.Syntax

variable {functions : List (String × DeclId)} {o o' : Extent} {v : Sight} {x y : Nodes}

/-! ### Lists of nodes -/

/-- The lists that come with the nodes hold all their pending references, and statements declare
variables. -/
structure Nodes.Listed (o : Extent) (y : Nodes) : Prop where
  types : ∀ decl v, y.declaration? o decl = some (.var v) → v.type.isPending = true →
    decl ∈ y.deferred.fields ∨
      ∃ id ∈ y.deferred.statements, ∃ place, y.statement? o id = some ⟨.declare decl, place⟩
  values : ∀ id e ref, y.expression? o id = some e → e.reference? = some ref →
    ref.isPending = true → id ∈ y.deferred.identifiers
  targets : ∀ id s ref, y.statement? o id = some s → s.target? = some ref →
    ref.isPending = true → id ∈ y.deferred.statements
  fields : ∀ decl ∈ y.deferred.fields, ∃ v, y.declaration? o decl = some (.var v)
  declares : ∀ id decl place, y.statement? o id = some ⟨.declare decl, place⟩ →
    ∃ v, y.declaration? o decl = some (.var v)

theorem Nodes.listed_empty (o : Extent) : ({} : Nodes).Listed o := by
  constructor <;> simp

/-- The nodes of one tree behind those of another. -/
theorem Nodes.Listed.append (hx : x.Listed o) (hy : y.Listed o')
    (h : (o + x.count).SameNodes o') : (x ++ y).Listed o where
  types := by
    intro decl v hd hpending
    rcases (declaration?_append h).1 hd with hd | hd
    · rcases hx.types decl v hd hpending with hmem | ⟨id, hmem, place, hs⟩
      · exact .inl (List.mem_append_left _ hmem)
      · exact .inr ⟨id, List.mem_append_left _ hmem, place, (statement?_append h).2 (.inl hs)⟩
    · rcases hy.types decl v hd hpending with hmem | ⟨id, hmem, place, hs⟩
      · exact .inl (List.mem_append_right _ hmem)
      · exact .inr ⟨id, List.mem_append_right _ hmem, place, (statement?_append h).2 (.inr hs)⟩
  values := by
    intro id e ref he href hpending
    rcases (expression?_append h).1 he with he | he
    · exact List.mem_append_left _ (hx.values id e ref he href hpending)
    · exact List.mem_append_right _ (hy.values id e ref he href hpending)
  targets := by
    intro id s ref hs href hpending
    rcases (statement?_append h).1 hs with hs | hs
    · exact List.mem_append_left _ (hx.targets id s ref hs href hpending)
    · exact List.mem_append_right _ (hy.targets id s ref hs href hpending)
  fields := by
    intro decl hmem
    rcases List.mem_append.1 hmem with hmem | hmem
    · obtain ⟨v, hv⟩ := hx.fields decl hmem
      exact ⟨v, (declaration?_append h).2 (.inl hv)⟩
    · obtain ⟨v, hv⟩ := hy.fields decl hmem
      exact ⟨v, (declaration?_append h).2 (.inr hv)⟩
  declares := by
    intro id decl place hs
    rcases (statement?_append h).1 hs with hs | hs
    · obtain ⟨v, hv⟩ := hx.declares id decl place hs
      exact ⟨v, (declaration?_append h).2 (.inl hv)⟩
    · obtain ⟨v, hv⟩ := hy.declares id decl place hs
      exact ⟨v, (declaration?_append h).2 (.inr hv)⟩

/-- Scopes make no difference to what is listed. -/
theorem Nodes.Listed.congr (h : y.Listed o) (hsame : o.SameNodes o') : y.Listed o' := by
  obtain ⟨types, values, targets, fields, declares⟩ := h
  rw [declaration?_congr hsame, statement?_congr hsame] at types declares
  rw [declaration?_congr hsame] at fields
  rw [expression?_congr hsame] at values
  rw [statement?_congr hsame] at targets
  exact ⟨types, values, targets, fields, declares⟩

/-- The declaration of a function has nothing to list. -/
theorem Nodes.listed_func (f : Function) (o : Extent) : (ofDeclaration (.func f)).Listed o := by
  refine ⟨?_, ?_, ?_, ?_, ?_⟩
  · simp
  · simp
  · simp
  · intro decl hmem
    cases hmem
  · simp

/-- An expression that is no name has nothing to list. -/
theorem Nodes.listed_ofExpression {e : Expression} (he : e.reference? = none) :
    (ofExpression e).Listed o where
  types := by simp
  values := by
    intro id e' ref he' href
    obtain ⟨-, rfl⟩ := expression?_ofExpression.1 he'
    rw [he] at href
    cases href
  targets := by simp
  fields := by simp [ofExpression]
  declares := by simp

/-- A statement that neither declares nor changes a variable has nothing to list. -/
theorem Nodes.listed_ofStatement {form : StmtForm} {place : Position}
    (hdeclare : ∀ decl, form ≠ .declare decl) (hchange : ∀ ref change, form ≠ .change ref change) :
    (ofStatement form place).Listed o where
  types := by simp
  values := by simp
  targets := by
    intro id s ref hs href
    obtain ⟨-, rfl⟩ := statement?_ofStatement.1 hs
    cases form <;> simp [Statement.target?] at href
    exact absurd rfl (hchange _ _)
  fields := by simp [ofStatement]
  declares := by
    intro id decl place' hs
    have hform := (statement?_ofStatement.1 hs).2
    exact absurd (congrArg Statement.form hform) (hdeclare decl)

/-- A name that is pending is listed. -/
theorem Nodes.listed_name (text : String) (ref : Reference) (place : Position) (o : Extent) :
    (ofExpression { form := .identifier text ref, position := place } ++
      deferIf ref { identifiers := [⟨o.exprs⟩] }).Listed o := by
  refine ⟨?_, ?_, ?_, ?_, ?_⟩
  · simp
  · intro id e ref' he href hpending
    simp only [expression?_append_deferIf, expression?_ofExpression] at he
    obtain ⟨rfl, rfl⟩ := he
    obtain rfl := Option.some.inj href
    rw [deferred_append_deferIf hpending]
    exact List.mem_append_right _ List.mem_cons_self
  · simp
  · cases ref <;> simp [deferIf, ofExpression]
  · simp

/-- The changed variable, if it is pending, is listed with the statement. -/
theorem Nodes.listed_change (ref : Reference) (change : Change) (place : Position) (o : Extent) :
    (ofStatement (.change ref change) place ++
      deferIf ref { statements := [⟨o.stmts⟩] }).Listed o := by
  refine ⟨?_, ?_, ?_, ?_, ?_⟩
  · simp
  · simp
  · intro id s target hs htarget hpending
    simp only [statement?_append_deferIf, statement?_ofStatement] at hs
    obtain ⟨rfl, rfl⟩ := hs
    obtain rfl := Option.some.inj htarget
    rw [deferred_append_deferIf hpending]
    exact List.mem_append_right _ List.mem_cons_self
  · cases ref <;> simp [Nodes.deferIf, Nodes.ofStatement]
  · simp

/-- The type of a declared variable, if it is pending, is listed with the statement. -/
theorem Nodes.listed_declare (name? : Option String) (p place : Position) (ref : Reference)
    (o : Extent) :
    (ofDeclaration (.var ⟨name?, p, ref⟩) ++ (ofStatement (.declare ⟨o.decls⟩) place ++
      deferIf ref { statements := [⟨o.stmts⟩] })).Listed o := by
  rw [← Nodes.append_assoc]
  have hdeclaration : ∀ {decl d}, (ofDeclaration (.var ⟨name?, p, ref⟩) ++
      ofStatement (.declare ⟨o.decls⟩) place).declaration? o decl = some d ↔
        decl = ⟨o.decls⟩ ∧ .var ⟨name?, p, ref⟩ = d := by
    intro decl d
    simp [declaration?_append (Extent.SameNodes.refl _)]
  have hstatement : ∀ {id s}, (ofDeclaration (.var ⟨name?, p, ref⟩) ++
      ofStatement (.declare ⟨o.decls⟩) place).statement? o id = some s ↔
        id = ⟨o.stmts⟩ ∧ (⟨.declare ⟨o.decls⟩, place⟩ : Statement) = s := by
    intro id s
    rw [statement?_append (Extent.SameNodes.refl _)]
    simp only [statement?_ofDeclaration, statement?_ofStatement, reduceCtorEq, false_or]
    rfl
  refine ⟨?_, ?_, ?_, ?_, ?_⟩
  · intro decl v hd hpending
    rw [declaration?_append_deferIf] at hd
    obtain ⟨rfl, hv⟩ := hdeclaration.1 hd
    obtain rfl := Declaration.var.inj hv
    rw [deferred_append_deferIf hpending, statement?_append_deferIf]
    exact .inr ⟨⟨o.stmts⟩, List.mem_append_right _ List.mem_cons_self, place,
      hstatement.2 ⟨rfl, rfl⟩⟩
  · simp [expression?_append (Extent.SameNodes.refl _)]
  · intro id s target hs htarget
    rw [statement?_append_deferIf] at hs
    obtain ⟨-, rfl⟩ := hstatement.1 hs
    cases htarget
  · cases ref <;> simp [deferIf, ofStatement, ofDeclaration]
  · intro id decl place' hs
    rw [statement?_append_deferIf] at hs
    have hform := congrArg Statement.form (hstatement.1 hs).2
    obtain rfl := StmtForm.declare.inj hform
    rw [declaration?_append_deferIf]
    exact ⟨_, hdeclaration.2 ⟨rfl, rfl⟩⟩

/-- The type of a parameter or a result, if it is pending, is listed. -/
theorem Slot.listed_nodes (scope : ScopeId) (o : Extent) (slot : Slot) :
    (slot.nodes scope o).Listed o := by
  refine ⟨?_, ?_, ?_, ?_, ?_⟩
  · intro decl v hd hpending
    simp only [nodes, Nodes.declaration?_append_deferIf, Nodes.declaration?_ofDeclaration] at hd
    obtain ⟨rfl, hv⟩ := hd
    obtain rfl := Declaration.var.inj hv
    rw [nodes, Nodes.deferred_append_deferIf hpending]
    exact .inl (List.mem_append_right _ List.mem_cons_self)
  · simp [nodes]
  · simp [nodes]
  · intro decl hmem
    simp only [nodes, Nodes.declaration?_append_deferIf, Nodes.declaration?_ofDeclaration]
    refine ⟨_, ?_, rfl⟩
    cases href : Sight.type scope slot.type <;>
      simp [nodes, Nodes.deferIf, Nodes.ofDeclaration, href] at hmem
    exact hmem
  · simp [nodes]

/-! ### Lists of files -/

/-- That pending references are listed is a nodewise property, so every tree that is laid out has
it. -/
theorem nodewise_listed : Nodewise Nodes.Listed where
  empty := Nodes.listed_empty
  congr := Nodes.Listed.congr
  append hx hy := hx.append hy (.refl _)
  literal o value place := by
    refine Nodes.listed_ofExpression ?_
    cases value <;> rfl
  name o text ref place := Nodes.listed_name text ref place o
  whole o form place hparts _ := by
    refine Nodes.listed_ofExpression ?_
    cases form <;> first | rfl | exact absurd rfl hparts
  statement o form place hdeclare hchange _ := Nodes.listed_ofStatement hdeclare hchange
  change o ref change place := Nodes.listed_change ref change place o
  declare o name? p place scope type := Nodes.listed_declare name? p place _ o
  slot o scope slot := Slot.listed_nodes scope o slot
  func o f := Nodes.listed_func f o

end FrontEnd.Syntax

namespace FrontEnd.Program

open Syntax

variable {d : Draft} {y : Nodes}

/-- The lists of nodes behind a program without pending references are lists of the whole. -/
theorem lists_add (hd : d.program.IsResolved) (hdecls : ∀ id decl place,
    d.program.statement? id ≠ some ⟨.declare decl, place⟩)
    (h : y.Listed d.program.extent) : Lists (d.add y).program y.deferred where
  types := by
    intro decl v hv hpending
    rcases Draft.declaration?_add.1 hv with hv | hv
    · rw [hd.types decl v hv] at hpending
      cases hpending
    · rcases h.types decl v hv hpending with hmem | ⟨id, hmem, place, hs⟩
      · exact .inl hmem
      · refine .inr ⟨id, hmem, ?_⟩
        rw [declaredBy, Draft.statement?_add.2 (.inr hs)]
        exact List.mem_cons_self
  values := by
    intro id ref href hpending
    obtain ⟨e, he, href'⟩ := Option.bind_eq_some_iff.1 href
    rcases Draft.expression?_add.1 he with he | he
    · rw [hd.values id ref (Option.bind_eq_some_iff.2 ⟨e, he, href'⟩)] at hpending
      cases hpending
    · exact h.values id e ref he href' hpending
  targets := by
    intro id ref href hpending
    obtain ⟨s, hs, href'⟩ := Option.bind_eq_some_iff.1 href
    rcases Draft.statement?_add.1 hs with hs | hs
    · rw [hd.targets id ref (Option.bind_eq_some_iff.2 ⟨s, hs, href'⟩)] at hpending
      cases hpending
    · exact h.targets id s ref hs href' hpending
  fields := by
    intro decl hmem
    obtain ⟨v, hv⟩ := h.fields decl hmem
    exact ⟨v, Draft.declaration?_add.2 (.inr hv)⟩
  declares := by
    intro id _ decl hdecl
    unfold declaredBy at hdecl
    cases hs : (d.add y).program.statement? id with
    | none => simp [hs] at hdecl
    | some s =>
        obtain ⟨form, place⟩ := s
        cases form <;> simp [hs] at hdecl
        subst hdecl
        rcases Draft.statement?_add.1 hs with hs | hs
        · exact absurd hs (hdecls _ _ _)
        · obtain ⟨v, hv⟩ := h.declares _ _ _ hs
          exact ⟨v, Draft.declaration?_add.2 (.inr hv)⟩

end FrontEnd.Program
