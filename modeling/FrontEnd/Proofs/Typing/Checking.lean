/-
**The check follows the rules.**

A statement is checked together with its parts, a function with all its statements, and a program
with all its functions.  Each of these succeeds exactly if what the rules ask for holds at every
depth.  Types are noted on the way, which changes neither the rules nor what comes later.

Main results:

* `FrontEnd.Program.checkStatement_meets`, `FrontEnd.Program.checkBody_meets` — one statement, one
  function;
* `FrontEnd.Program.check_meets` — all functions of the file.
-/

import FrontEnd.Proofs.Typing.Deciding

set_option relaxedAutoImplicit false
set_option autoImplicit false

namespace FrontEnd.Program

open Run

variable {p q : Program} {results : List DeclId}

/-! ### Expressions in statements -/

theorem HasTargetType.unique {target : Reference} {type type' : DeclId}
    (h : p.HasTargetType target type) (h' : p.HasTargetType target type') : type = type' := by
  obtain ⟨decl, rfl, htype⟩ := h
  obtain ⟨decl', hdecl, htype'⟩ := h'
  cases hdecl
  rw [htype] at htype'
  exact Except.ok.inj htype'

theorem HasTargetType.eq_iff {target : Reference} {type type' : DeclId}
    (h : p.HasTargetType target type) : type = type' ↔ p.HasTargetType target type' := by
  constructor
  · rintro rfl
    exact h
  · intro h'
    exact h.unique h'

/-- The type of a variable is found exactly where the rules give it one. -/
theorem targetType_ok_iff (h : Noted p q) {target : Reference} {type : DeclId} :
    q.targetType target = .ok type ↔ p.HasTargetType target type := by
  unfold targetType HasTargetType
  cases target with
  | pending name scope place => simp [Reference.target]
  | resolved decl =>
      simp only [Reference.target, h.variableType]
      constructor
      · intro htype
        exact ⟨decl, rfl, htype⟩
      · rintro ⟨decl', hdecl, htype⟩
        cases hdecl
        exact htype

section Statements

variable (older : p.PartsOlder)

include older

theorem checkCondition_meets (h : Noted p q) (condition : ExprId) :
    Meets (checkCondition .builtIn condition) q (p.ConditionTyped condition) fun _ q' => Noted p q' := by
  unfold checkCondition
  refine (ask_getExpression_meets q condition).bind_of (fun hc => h.expression?_isSome hc)
    fun e q₁ he => ?_
  obtain ⟨-, rfl⟩ := he
  refine (typeOf_meets older h condition).bind_of (fun hc => ⟨_, hc⟩) fun type q₂ hq₂ => ?_
  obtain ⟨htype, h₂⟩ := hq₂
  exact .require htype.type_eq_iff fun _ => h₂

omit older in
theorem checkIntegerTarget_meets (h : Noted p q) (target : Reference) (operation : String)
    (place : Position) :
    Meets (checkIntegerTarget .builtIn target operation place) q
      (p.HasTargetType target BasicType.int.declaration) fun _ q' => Noted p q' := by
  unfold checkIntegerTarget
  refine (Meets.ask fun type => targetType_ok_iff h).bind_of (fun hc => ⟨_, hc⟩)
    fun type q₁ hq₁ => ?_
  obtain ⟨htype, rfl⟩ := hq₁
  exact Meets.bind_eq rfl (.require htype.eq_iff fun _ => h)

theorem checkIntegerValue_meets (h : Noted p q) (value : ExprId) :
    Meets (checkIntegerValue .builtIn value) q (p.HasTypes value [BasicType.int.declaration])
      fun _ q' => Noted p q' := by
  unfold checkIntegerValue
  refine (ask_getExpression_meets q value).bind_of (fun hc => h.expression?_isSome hc)
    fun e q₁ he => ?_
  obtain ⟨-, rfl⟩ := he
  refine (typeOf_meets older h value).bind_of (fun hc => ⟨_, hc⟩) fun type q₂ hq₂ => ?_
  obtain ⟨htype, h₂⟩ := hq₂
  exact Meets.bind_eq rfl (.require htype.type_eq_iff fun _ => h₂)

/-- A change is accepted exactly if it fits the variable. -/
theorem checkChange_meets (h : Noted p q) (target : Reference) (change : Change)
    (place : Position) :
    Meets (checkChange .builtIn target change place) q (p.ChangeTyped target change)
      fun _ q' => Noted p q' := by
  cases change with
  | assign value =>
      rw [checkChange, ChangeTyped]
      refine (Meets.ask fun type => targetType_ok_iff h).bind_of ?_ fun type q₁ hq₁ => ?_
      · rintro ⟨type, htarget, -⟩
        exact ⟨type, htarget⟩
      obtain ⟨htarget, rfl⟩ := hq₁
      refine (typeOf_meets older h value).bind_of ?_ fun received q₂ hq₂ => ?_
      · rintro ⟨type, -, hvalue⟩
        exact ⟨type, hvalue⟩
      obtain ⟨hvalue, h₂⟩ := hq₂
      refine Meets.bind_eq rfl (.require ?_ fun _ => h₂)
      constructor
      · rintro rfl
        exact ⟨type, htarget, hvalue⟩
      · rintro ⟨type', htarget', hvalue'⟩
        rw [htarget.unique htarget', hvalue.type_unique hvalue']
  | add value =>
      rw [checkChange, ChangeTyped]
      exact (checkIntegerTarget_meets h target _ place).bind fun _ q₁ h₁ =>
        checkIntegerValue_meets older h₁ value
  | subtract value =>
      rw [checkChange, ChangeTyped]
      exact (checkIntegerTarget_meets h target _ place).bind fun _ q₁ h₁ =>
        checkIntegerValue_meets older h₁ value
  | increment => exact checkIntegerTarget_meets h target _ place
  | decrement => exact checkIntegerTarget_meets h target _ place

/-- Returned values are accepted exactly if each of them has the type of its result. -/
theorem checkResults_meets (h : Noted p q) (values : List ExprId) :
    Meets (checkResults results values) q
      (∀ value type, (value, type) ∈ values.zip results → p.HasTypes value [type])
      fun _ q' => Noted p q' := by
  induction results generalizing values q with
  | nil => exact .succeeds rfl (by simp) h
  | cons expected results ih =>
      cases values with
      | nil => exact .succeeds rfl (by simp) h
      | cons value values =>
          rw [checkResults]
          rw [forall_mem_zip_cons]
          refine (ask_getExpression_meets q value).bind_of
            (fun hc => h.expression?_isSome hc.1) fun e q₁ he => ?_
          obtain ⟨-, rfl⟩ := he
          refine (typeOf_meets older h value).bind_of (fun hc => ⟨_, hc.1⟩)
            fun received q₂ hq₂ => ?_
          obtain ⟨hreceived, h₂⟩ := hq₂
          exact Meets.bind_eq rfl (Meets.bind (q := fun _ q' => Noted p q')
            (.require hreceived.type_eq_iff fun _ => h₂) fun _ q₃ h₃ => ih h₃ values)

theorem checkReturn_meets (h : Noted p q) (values : List ExprId) (place : Position) :
    Meets (checkReturn results values place) q (p.FormTyped results (.result values))
      fun _ q' => Noted p q' := by
  unfold checkReturn
  rw [FormTyped]
  exact Meets.bind (q := fun _ q' => Noted p q') (.require Iff.rfl fun _ => h)
    fun _ q₁ h₁ => checkResults_meets older h₁ values

end Statements

/-! ### Statements at any depth -/

/-- The given statements and all that are inside of them are well typed. -/
def AllTyped (p : Program) (results : List DeclId) (ids : List StmtId) : Prop :=
  ∀ id, p.Within ids id → p.StatementTyped results id

theorem allTyped_iff {ids : List StmtId} :
    p.AllTyped results ids ↔ ∀ id ∈ ids, p.AllTyped results [id] := by
  constructor
  · intro h id hmem inner hinner
    exact h inner (within_iff.2 ⟨id, hmem, hinner⟩)
  · intro h inner hinner
    obtain ⟨id, hmem, hwithin⟩ := within_iff.1 hinner
    exact h id hmem inner hwithin

@[simp] theorem allTyped_nil : p.AllTyped results [] := by
  rw [allTyped_iff]
  simp

@[simp] theorem allTyped_append {xs ys : List StmtId} :
    p.AllTyped results (xs ++ ys) ↔ p.AllTyped results xs ∧ p.AllTyped results ys := by
  rw [allTyped_iff, List.forall_mem_append, ← allTyped_iff, ← allTyped_iff]

theorem allTyped_singleton_iff {id : StmtId} {s : Statement} (hs : p.statement? id = some s) :
    p.AllTyped results [id] ↔ p.FormTyped results s.form ∧ p.AllTyped results s.form.parts := by
  constructor
  · intro h
    refine ⟨?_, fun inner hinner => h inner ((within_singleton_iff hs).2 (.inr hinner))⟩
    obtain ⟨s', hs', htyped⟩ := h id (.own List.mem_cons_self)
    rw [hs] at hs'
    cases hs'
    exact htyped
  · rintro ⟨hform, hparts⟩ inner hinner
    rcases (within_singleton_iff hs).1 hinner with rfl | hwithin
    · exact ⟨s, hs, hform⟩
    · exact hparts inner hwithin

/-! ### Checking statements -/

/-- The check of a statement asks for all that is inside of it. -/
def Checks (p : Program) (results : List DeclId) (part : StmtId → ProgramM Unit) (id : StmtId) :
    Prop :=
  ∀ q, Noted p q → Meets (part id) q (p.AllTyped results [id]) fun _ q' => Noted p q'

section Forms

variable {part : StmtId → ProgramM Unit}

/-- Statements are checked one after the other. -/
theorem forM_part_meets {ids : List StmtId} (hparts : ∀ id ∈ ids, Checks p results part id)
    (h : Noted p q) :
    Meets (ids.forM part) q (p.AllTyped results ids) fun _ q' => Noted p q' := by
  induction ids generalizing q with
  | nil => exact .succeeds rfl allTyped_nil h
  | cons id ids ih =>
      rw [List.forM, allTyped_iff, List.forall_mem_cons, ← allTyped_iff]
      exact (hparts id List.mem_cons_self q h).bind fun _ q₁ h₁ =>
        ih (fun other hmem => hparts other (List.mem_cons_of_mem id hmem)) h₁

theorem forM_part?_meets {id? : Option StmtId}
    (hparts : ∀ id ∈ id?.toList, Checks p results part id) (h : Noted p q) :
    Meets (id?.forM part) q (p.AllTyped results id?.toList) fun _ q' => Noted p q' := by
  cases id? with
  | none => exact .succeeds rfl allTyped_nil h
  | some id => exact hparts id List.mem_cons_self q h

/-- A statement is accepted exactly if it and all its parts are well typed, given that of the
parts. -/
theorem checkForm_meets (older : p.PartsOlder) (s : Statement)
    (hparts : ∀ id ∈ s.form.parts, Checks p results part id) (h : Noted p q) :
    Meets (checkForm .builtIn results part s) q
      (p.FormTyped results s.form ∧ p.AllTyped results s.form.parts) fun _ q' => Noted p q' := by
  obtain ⟨form, place⟩ := s
  cases form with
  | declare decl =>
      have hask : ∀ type, q.variableType decl = .ok type ↔ p.variableType decl = .ok type := by
        intro type
        rw [h.variableType]
      refine ((Meets.ask hask).bind_always fun type q' hq' => ?_).imp ?_ id
      · exact .succeeds rfl trivial (hq'.2 ▸ h)
      · simp [FormTyped, StmtForm.parts]
  | change target change =>
      refine (checkChange_meets older h target change place).imp ?_ id
      simp [FormTyped, StmtForm.parts]
  | call call =>
      refine ((typesOf_meets older h call).bind_always fun types q' hq' => ?_).imp ?_ id
      · exact .succeeds rfl trivial hq'.2
      · simp [FormTyped, StmtForm.parts]
  | branch condition thenBlock elseBlock? =>
      -- the condition, then the statements of both blocks
      refine (checkCondition_meets older h condition).bind fun _ q₁ h₁ => ?_
      rw [StmtForm.parts, allTyped_append]
      refine (forM_part_meets (fun id hid => hparts id (List.mem_append_left _ hid)) h₁).bind
        fun _ q₂ h₂ => ?_
      cases elseBlock? with
      | none => exact .succeeds rfl allTyped_nil h₂
      | some elseBlock =>
          exact forM_part_meets (fun id hid => hparts id (List.mem_append_right _ hid)) h₂
  | whileLoop condition body =>
      exact (checkCondition_meets older h condition).bind fun _ q₁ h₁ => forM_part_meets hparts h₁
  | forLoop init? condition action? body =>
      rw [StmtForm.parts, List.forall_mem_append, List.forall_mem_append] at hparts
      obtain ⟨hinit, haction, hbody⟩ := hparts
      rw [StmtForm.parts, allTyped_append, allTyped_append]
      -- the condition is checked between the two statements of the head
      refine Meets.imp (c := p.AllTyped results init?.toList ∧ p.ConditionTyped condition ∧
        p.AllTyped results action?.toList ∧ p.AllTyped results body.statements) ?_
        and_left_comm id
      refine (forM_part?_meets hinit h).bind fun _ q₁ h₁ => ?_
      refine (checkCondition_meets older h₁ condition).bind fun _ q₂ h₂ => ?_
      refine (forM_part?_meets haction h₂).bind fun _ q₃ h₃ => ?_
      exact forM_part_meets hbody h₃
  | result values =>
      refine (checkReturn_meets older h values place).imp ?_ id
      simp [StmtForm.parts]

end Forms

theorem getStatement_ok_iff (h : Noted p q) {id : StmtId} {s : Statement} :
    q.getStatement id = .ok s ↔ p.statement? id = some s := by
  unfold getStatement
  rw [h.statement?]
  cases p.statement? id <;> simp

/-- Going down far enough, a statement is checked with all its parts. -/
theorem checks_checkUpTo (older : p.PartsOlder) {n : Nat} {id : StmtId} (hn : id.index < n) :
    Checks p results (checkUpTo .builtIn results n) id := by
  induction n generalizing id with
  | zero => omega
  | succ n ih =>
      intro q h
      rw [checkUpTo]
      refine (Meets.ask fun s => getStatement_ok_iff h).bind_of ?_ fun s q₁ hq₁ => ?_
      · intro htyped
        obtain ⟨s, hs, -⟩ := htyped id (.own List.mem_cons_self)
        exact ⟨s, hs⟩
      obtain ⟨hs, rfl⟩ := hq₁
      rw [allTyped_singleton_iff hs]
      refine checkForm_meets older s (fun part hpart => ih ?_) h
      have hlt := older.statements id s hs part hpart
      omega

/-- **A statement is checked** exactly if it is well typed with all that is inside of it. -/
theorem checkStatement_meets (older : p.PartsOlder) (id : StmtId) :
    Checks p results (checkStatement .builtIn results) id := by
  intro q h
  have hsize : q.statements.size = p.statements.size := by
    rw [h.statements]
  by_cases hid : id.index < q.statements.size
  · exact (checks_checkUpTo older hid q h).of_run rfl
  · -- there is no such statement
    have hnone : p.statement? id = none := by
      rw [statement?, Array.getElem?_eq_none (by omega)]
    refine .fails (fun u q' hok => ?_) fun htyped => ?_
    · change checkUpTo .builtIn results q.statements.size id q = _ at hok
      cases hn : q.statements.size with
      | zero =>
          rw [hn] at hok
          cases hok
      | succ n =>
          rw [hn, checkUpTo] at hok
          obtain ⟨s, q₁, hs, -⟩ := bind_ok_iff.1 hok
          have hs' := (getStatement_ok_iff h).1 (ask_ok_iff.1 hs).1
          rw [hnone] at hs'
          cases hs'
    · obtain ⟨s, hs, -⟩ := htyped id (.own List.mem_cons_self)
      rw [hnone] at hs
      cases hs

/-! ### Checking functions and programs -/

theorem fieldTypes_eq_nil {fields : List Field} (h : p.fieldTypes fields = .ok results) :
    results = [] ↔ fields = [] := by
  cases fields with
  | nil =>
      cases h
      simp
  | cons field fields =>
      obtain ⟨type, others, -, -, rfl⟩ := fieldTypes_cons_ok_iff.1 h
      simp

/-- Statements end in a `return` if the last of them is one. -/
theorem endsInReturn_iff {ids : List StmtId} : p.endsInReturn ids = true ↔
    ∃ last s values, ids.getLast? = some last ∧ p.statement? last = some s ∧
      s.form = .result values := by
  unfold endsInReturn
  cases ids.getLast? with
  | none => simp
  | some last =>
      cases hs : p.statement? last with
      | none => simp [hs]
      | some s =>
          obtain ⟨form, place⟩ := s
          cases form <;> simp [hs, Statement.isReturn]

/-- **A function is checked** exactly if it is well typed. -/
theorem checkBody_meets (older : p.PartsOlder) (h : Noted p q) (f : Function) :
    Meets (checkBody .builtIn f) q (p.FunctionTyped f) fun _ q' => Noted p q' := by
  unfold checkBody
  have hresults : ∀ results, q.resultTypes f = .ok results ↔ p.resultTypes f = .ok results := by
    intro results
    rw [resultTypes, resultTypes, h.fieldTypes]
  refine (Meets.ask hresults).bind_of ?_ fun results q₁ hq₁ => ?_
  · rintro ⟨⟨results, hresults, -⟩, -⟩
    exact ⟨results, hresults⟩
  obtain ⟨htypes, rfl⟩ := hq₁
  -- from here on the types of the results are known
  have hknown : p.FunctionTyped f ↔ p.AllTyped results f.body ∧
      (results = [] ∨ p.endsInReturn f.body = true) := by
    have hnil : results = [] ↔ f.results = [] := fieldTypes_eq_nil htypes
    rw [endsInReturn_iff, hnil]
    constructor
    · rintro ⟨⟨results', htypes', hall⟩, hending⟩
      rw [htypes] at htypes'
      cases htypes'
      exact ⟨hall, Classical.or_iff_not_imp_left.2 hending⟩
    · rintro ⟨hall, hending⟩
      exact ⟨⟨results, htypes, hall⟩, Classical.or_iff_not_imp_left.1 hending⟩
  rw [hknown]
  refine (forM_part_meets (fun id _ => checkStatement_meets older id) h).bind fun _ q₂ h₂ => ?_
  refine Meets.bind_eq rfl (.require ?_ fun _ => h₂)
  unfold endsInReturn
  simp only [h₂.statement?]

/-- **A program is checked** exactly if it is well typed. -/
theorem check_meets (older : p.PartsOlder) (h : Noted p p) :
    Meets check p p.WellTyped fun _ q' => Noted p q' := by
  unfold check
  refine Meets.bind_eq (congrFun ask_checker p) (.bind_eq rfl ?_)
  refine Meets.imp (Meets.forM (fun _ q => Noted p q) (fun id _ q hq => ?_) p.topLevel [] h)
    Iff.rfl fun hq => hq
  unfold checkDeclaration
  refine Meets.bind_eq rfl ?_
  rw [hq.function?]
  cases hf : p.function? id with
  | none => exact .succeeds rfl (by simp) hq
  | some f =>
      refine (checkBody_meets older hq f).imp ?_ fun hq' => hq'
      simp

end FrontEnd.Program
