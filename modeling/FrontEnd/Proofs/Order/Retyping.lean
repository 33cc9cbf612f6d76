/-
**Types under other numbers.**

The typing rules look at declarations, at the forms of expressions and at statements, and at nothing
else of a program.  So in a program that is the same up to the numbers of its nodes, an expression
has the same types, a statement is well typed if it was, and so are functions and the whole program.

Main results:

* `FrontEnd.Program.HasTypes.rename` — the types of an expression;
* `FrontEnd.Program.FormTyped.rename`, `FrontEnd.Program.FunctionTyped.rename`,
  `FrontEnd.Program.WellTyped.rename` — well-typed statements, functions and programs.
-/

import FrontEnd.Proofs.Order.Isomorphic
import FrontEnd.Proofs.Typing.Rules

set_option relaxedAutoImplicit false
set_option autoImplicit false

namespace FrontEnd.Program

variable {ρ : Renaming} {p p' : Program}

/-! ### Declarations -/

namespace SameUpTo

variable {id : ExprId} {decl type : DeclId} {ts : List DeclId}

theorem variableType (h : SameUpTo ρ p p') (htype : p.variableType decl = .ok type) :
    p'.variableType (ρ.decl decl) = .ok (ρ.decl type) := by
  obtain ⟨v, hv, hresolved⟩ := variableType_ok_iff.1 htype
  refine variableType_ok_iff.2 ⟨{ v with type := v.type.rename ρ }, ?_, ?_⟩
  · rw [h.declarations, hv]
    rfl
  · rw [hresolved]
    rfl

theorem fieldTypes (h : SameUpTo ρ p p') {fields : List Field}
    (htypes : p.fieldTypes fields = .ok ts) :
    p'.fieldTypes (fields.map (Field.rename ρ)) = .ok (ts.map ρ.decl) := by
  induction fields generalizing ts with
  | nil =>
      cases htypes
      rfl
  | cons field fields ih =>
      obtain ⟨type, others, htype, hothers, rfl⟩ := fieldTypes_cons_ok_iff.1 htypes
      exact fieldTypes_cons_ok_iff.2 ⟨_, _, h.variableType htype, ih hothers, rfl⟩

theorem function? (h : SameUpTo ρ p p') (decl : DeclId) :
    p'.function? (ρ.decl decl) = (p.function? decl).map (Function.rename ρ) := by
  unfold Program.function?
  rw [h.declarations]
  cases p.declaration? decl with
  | none => rfl
  | some d => cases d <;> rfl

end SameUpTo

/-! ### Expressions -/

/-- Operators know the built-in types only by their numbers. -/
theorem types_rename (hρ : ρ.KeepsTypes) {op : BinaryOperator} {left right type : DeclId}
    (h : op.Types left right type) : op.Types (ρ.decl left) (ρ.decl right) (ρ.decl type) := by
  cases h with
  | logical hop =>
      rw [hρ BasicType.bool]
      exact .logical hop
  | comparison hop =>
      rw [hρ BasicType.bool]
      exact .comparison hop
  | arithmetic hlogical hcomparison => exact .arithmetic hlogical hcomparison

/-- **An expression has the same types under other numbers.** -/
theorem HasTypes.rename {id : ExprId} {ts : List DeclId} (h : SameUpTo ρ p p')
    (hts : p.HasTypes id ts) : p'.HasTypes (ρ.expr id) (ts.map ρ.decl) := by
  have hform' : ∀ {id form}, p.form? id = some form →
      p'.form? (ρ.expr id) = some (form.rename ρ) := by
    intro id form hform
    rw [h.forms, hform]
    rfl
  have hfunction : ∀ {decl f}, p.function? decl = some f →
      p'.function? (ρ.decl decl) = some (f.rename ρ) := by
    intro decl f hf
    rw [h.function?, hf]
    rfl
  induction hts with
  | literal hform htype =>
      rename_i form type
      rw [List.map_cons, h.types]
      refine .literal (hform' hform) ?_
      cases form <;> exact htype
  | var hform htype => exact .var (hform' hform) (h.variableType htype)
  | func hform hf htypes => exact .func (hform' hform) (hfunction hf) (h.fieldTypes htypes)
  | not hform _ ih =>
      rw [List.map_cons, h.types] at ih ⊢
      exact .not (hform' hform) ih
  | binary hform _ _ hop ihLeft ihRight =>
      exact .binary (hform' hform) ihLeft ihRight (types_rename h.types hop)
  | call hform hcallee hf hparameters hcount _ htypes ih =>
      refine .call (hform' hform) (hform' hcallee) (hfunction hf) (h.fieldTypes hparameters)
        (by simpa using hcount) ?_ (h.fieldTypes htypes)
      intro argument' type' hmem
      rw [List.zip_map, List.mem_map] at hmem
      obtain ⟨⟨argument, type⟩, hmem, heq⟩ := hmem
      cases heq
      exact ih argument type hmem

/-! ### Statements -/

variable {results : List DeclId}

theorem ConditionTyped.rename {condition : ExprId} (h : SameUpTo ρ p p')
    (hc : p.ConditionTyped condition) : p'.ConditionTyped (ρ.expr condition) := by
  have hbool := HasTypes.rename h hc
  rwa [List.map_cons, h.types] at hbool

theorem HasTargetType.rename {target : Reference} {type : DeclId} (h : SameUpTo ρ p p')
    (ht : p.HasTargetType target type) : p'.HasTargetType (target.rename ρ) (ρ.decl type) := by
  obtain ⟨decl, rfl, htype⟩ := ht
  exact ⟨ρ.decl decl, rfl, h.variableType htype⟩

/-- Under new numbers a change still fits its variable. -/
theorem ChangeTyped.rename {target : Reference} {c : Change} (h : SameUpTo ρ p p')
    (hc : p.ChangeTyped target c) : p'.ChangeTyped (target.rename ρ) (c.rename ρ) := by
  cases c with
  | assign value =>
      obtain ⟨type, htarget, hvalue⟩ := hc
      exact ⟨ρ.decl type, htarget.rename h, hvalue.rename h⟩
  | add value | subtract value =>
      have htarget := hc.1.rename h
      have hvalue := hc.2.rename h
      rw [List.map_cons, h.types] at hvalue
      rw [h.types] at htarget
      exact ⟨htarget, hvalue⟩
  | increment | decrement =>
      have htarget := HasTargetType.rename h hc
      rw [h.types] at htarget
      exact htarget

/-- A statement is well typed in itself under other numbers. -/
theorem FormTyped.rename {form : StmtForm} (h : SameUpTo ρ p p') (hf : p.FormTyped results form) :
    p'.FormTyped (results.map ρ.decl) (form.rename ρ) := by
  cases form with
  | declare decl =>
      obtain ⟨type, htype⟩ := hf
      exact ⟨ρ.decl type, h.variableType htype⟩
  | change target c => exact ChangeTyped.rename h hf
  | call called =>
      obtain ⟨types, htypes⟩ := hf
      exact ⟨types.map ρ.decl, htypes.rename h⟩
  | branch condition _ _ | whileLoop condition _ | forLoop _ condition _ _ =>
      exact ConditionTyped.rename h hf
  | result values =>
      refine ⟨by simpa [StmtForm.rename] using hf.1, ?_⟩
      intro value' type' hmem
      rw [List.zip_map, List.mem_map] at hmem
      obtain ⟨⟨value, type⟩, hmem, heq⟩ := hmem
      cases heq
      exact (hf.2 value type hmem).rename h

theorem parts_rename (form : StmtForm) : (form.rename ρ).parts = form.parts.map ρ.stmt := by
  cases form with
  | branch condition thenBlock elseBlock? =>
      cases elseBlock? <;> simp [StmtForm.rename, StmtForm.parts, Block.rename]
  | forLoop init? condition action? body =>
      cases init? <;> cases action? <;> simp [StmtForm.rename, StmtForm.parts, Block.rename]
  | _ => simp [StmtForm.rename, StmtForm.parts, Block.rename]

/-- What stands among renamed statements is a renamed statement. -/
theorem Within.of_rename {ids : List StmtId} {id' : StmtId} (h : SameUpTo ρ p p')
    (hid : p'.Within (ids.map ρ.stmt) id') : ∃ id, p.Within ids id ∧ ρ.stmt id = id' := by
  induction hid with
  | own hmem =>
      obtain ⟨id, hid, rfl⟩ := List.mem_map.1 hmem
      exact ⟨id, .own hid, rfl⟩
  | part _ hs hpart ih =>
      obtain ⟨outer, houter, rfl⟩ := ih
      rw [h.statements, Option.map_eq_some_iff] at hs
      obtain ⟨s, hs, rfl⟩ := hs
      rw [Statement.rename, parts_rename] at hpart
      obtain ⟨id, hid, rfl⟩ := List.mem_map.1 hpart
      exact ⟨id, .part houter hs hid, rfl⟩

/-! ### Functions and programs -/

/-- Under new numbers a function is still well typed. -/
theorem FunctionTyped.rename {f : Function} (h : SameUpTo ρ p p') (hf : p.FunctionTyped f) :
    p'.FunctionTyped (f.rename ρ) where
  statements := by
    obtain ⟨results, hresults, hall⟩ := hf.statements
    refine ⟨results.map ρ.decl, h.fieldTypes hresults, fun id' hid' => ?_⟩
    obtain ⟨id, hid, rfl⟩ := Within.of_rename h hid'
    obtain ⟨s, hs, hform⟩ := hall id hid
    refine ⟨s.rename ρ, ?_, hform.rename h⟩
    rw [h.statements, hs]
    rfl
  ending := by
    intro hresults
    obtain ⟨last, s, values, hlast, hs, hform⟩ :=
      hf.ending fun hnil => hresults (by rw [Function.rename, hnil, List.map_nil])
    refine ⟨ρ.stmt last, s.rename ρ, values.map ρ.expr, ?_, ?_, ?_⟩
    · rw [Function.rename, List.getLast?_map, hlast, Option.map_some]
    · rw [h.statements, hs, Option.map_some]
    · rw [Statement.rename, hform, StmtForm.rename]

/-- **A program is well typed under other numbers.** -/
theorem WellTyped.rename (h : SameUpTo ρ p p') (hp : p.WellTyped) : p'.WellTyped := by
  intro id' hid' f' hf'
  obtain ⟨id, hid, rfl⟩ := List.mem_map.1 (h.topLevel.mem_iff.1 hid')
  rw [h.function?, Option.map_eq_some_iff] at hf'
  obtain ⟨f, hf, rfl⟩ := hf'
  exact (hp id hid f hf).rename h

end FrontEnd.Program
