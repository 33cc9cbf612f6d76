/-
**The typing rules.**

What the types of an expression's values are is the least relation that is closed under a rule for
each form of expressions.  The values of a statement have to fit together, and a function is well
typed if all its statements are, however deeply they are nested, and if results are returned at its
end.  The rules look at the forms of expressions only, not at the types that are noted in them.

Main definitions:

* `FrontEnd.Program.HasTypes` — the types of an expression's values;
* `FrontEnd.Program.StatementTyped` — statements that are well typed in themselves;
* `FrontEnd.Program.FunctionTyped`, `FrontEnd.Program.WellTyped` — well-typed functions and programs.

Main results:

* `FrontEnd.Program.HasTypes.unique` — the types are determined.
-/

import FrontEnd.Check
import FrontEnd.Proofs.Parts

set_option relaxedAutoImplicit false
set_option autoImplicit false

namespace FrontEnd

/-! ### Operators -/

/-- The rules for operators.  Logical operators join truth values, comparisons take two values of
one type, and arithmetic has that type again. -/
inductive BinaryOperator.Types : BinaryOperator → DeclId → DeclId → DeclId → Prop where
  | logical {op} (h : op.isLogical = true) :
      Types op BasicType.bool.declaration BasicType.bool.declaration BasicType.bool.declaration
  | comparison {op type} (h : op.isComparison = true) :
      Types op type type BasicType.bool.declaration
  | arithmetic {op type} (hlogical : op.isLogical = false) (hcomparison : op.isComparison = false) :
      Types op type type type

/-- The value of an operator has one type. -/
theorem BinaryOperator.Types.unique {op : BinaryOperator} {left right t t' : DeclId}
    (h : op.Types left right t) (h' : op.Types left right t') : t = t' := by
  have hdisjoint : op.isLogical = true → op.isComparison = true → False := by
    cases op <;> simp [isLogical, isComparison]
  cases h with
  | logical hop =>
      cases h' with
      | logical _ => rfl
      | comparison _ => rfl
      | arithmetic hno _ => exact absurd hop (by simp [hno])
  | comparison hop =>
      cases h' with
      | logical _ => rfl
      | comparison _ => rfl
      | arithmetic _ hno => exact absurd hop (by simp [hno])
  | arithmetic hlogical hcomparison =>
      cases h' with
      | logical hop => exact absurd hop (by simp [hlogical])
      | comparison hop => exact absurd hop (by simp [hcomparison])
      | arithmetic _ _ => rfl

namespace Program

/-! ### Expressions -/

/-- **The types of an expression's values.**  Literals have the built-in types, variables their
declared ones, functions and calls the types of the results; operators take one value on each side,
and a call one argument for each parameter, of the type of the parameter. -/
inductive HasTypes (p : Program) : ExprId → List DeclId → Prop where
  | literal {id form type} (h : p.form? id = some form) (hform : form.literalType? = some type) :
      HasTypes p id [type.declaration]
  | var {id name decl type} (h : p.form? id = some (.identifier name (.resolved decl)))
      (htype : p.variableType decl = .ok type) : HasTypes p id [type]
  | func {id name decl f types} (h : p.form? id = some (.identifier name (.resolved decl)))
      (hf : p.function? decl = some f) (htypes : p.resultTypes f = .ok types) : HasTypes p id types
  | not {id operand} (h : p.form? id = some (.not operand))
      (hoperand : HasTypes p operand [BasicType.bool.declaration]) :
      HasTypes p id [BasicType.bool.declaration]
  | binary {id op left right leftType rightType type}
      (h : p.form? id = some (.binary op left right)) (hleft : HasTypes p left [leftType])
      (hright : HasTypes p right [rightType]) (hop : op.Types leftType rightType type) :
      HasTypes p id [type]
  | call {id callee arguments name decl f parameters types}
      (h : p.form? id = some (.call callee arguments))
      (hcallee : p.form? callee = some (.identifier name (.resolved decl)))
      (hf : p.function? decl = some f) (hparameters : p.parameterTypes f = .ok parameters)
      (hcount : parameters.length = arguments.length)
      (harguments : ∀ argument type, (argument, type) ∈ arguments.zip parameters →
        HasTypes p argument [type])
      (htypes : p.resultTypes f = .ok types) : HasTypes p id types

section Inversion

variable {p : Program} {id operand left right callee : ExprId} {arguments : List ExprId}
  {name : String} {ref : Reference} {op : BinaryOperator} {ts ts' : List DeclId}

/-- What has types is an expression. -/
theorem HasTypes.form?_isSome (h : p.HasTypes id ts) : ∃ form, p.form? id = some form := by
  cases h with
  | literal h _ | var h _ | func h _ _ | not h _ | binary h _ _ _ | call h _ _ _ _ _ _ =>
      exact ⟨_, h⟩

/-- A literal has its own type and no other. -/
theorem hasTypes_literal_iff {form : ExprForm} {type : BasicType} (h : p.form? id = some form)
    (hform : form.literalType? = some type) : p.HasTypes id ts ↔ ts = [type.declaration] := by
  constructor
  · intro hts
    cases hts with
    | literal h' hform' =>
        rw [h] at h'
        cases h'
        rw [hform] at hform'
        cases hform'
        rfl
    | var h' _ | func h' _ _ | not h' _ | binary h' _ _ _ | call h' _ _ _ _ _ _ =>
        rw [h] at h'
        cases h'
        cases hform
  · rintro rfl
    exact .literal h hform

/-- What a name stands for in a program. -/
def NameTypes (p : Program) (ref : Reference) (ts : List DeclId) : Prop :=
  ∃ decl, ref = .resolved decl ∧
    ((∃ type, p.variableType decl = .ok type ∧ ts = [type]) ∨
      ∃ f, p.function? decl = some f ∧ p.resultTypes f = .ok ts)

/-- An identifier has the types of what its name stands for. -/
theorem hasTypes_identifier_iff (h : p.form? id = some (.identifier name ref)) :
    p.HasTypes id ts ↔ p.NameTypes ref ts := by
  constructor
  · intro hts
    cases hts with
    | var h' htype =>
        rw [h] at h'
        cases h'
        exact ⟨_, rfl, .inl ⟨_, htype, rfl⟩⟩
    | func h' hf htypes =>
        rw [h] at h'
        cases h'
        exact ⟨_, rfl, .inr ⟨_, hf, htypes⟩⟩
    | not h' _ | binary h' _ _ _ | call h' _ _ _ _ _ _ =>
        rw [h] at h'
        cases h'
    | literal h' hform =>
        rw [h] at h'
        cases h'
        cases hform
  · rintro ⟨decl, rfl, ⟨type, htype, rfl⟩ | ⟨f, hf, htypes⟩⟩
    · exact .var h htype
    · exact .func h hf htypes

/-- A negation is a truth value, and so is what is negated. -/
theorem hasTypes_not_iff (h : p.form? id = some (.not operand)) :
    p.HasTypes id ts ↔ p.HasTypes operand [BasicType.bool.declaration] ∧
      ts = [BasicType.bool.declaration] := by
  constructor
  · intro hts
    cases hts with
    | not h' hoperand =>
        rw [h] at h'
        cases h'
        exact ⟨hoperand, rfl⟩
    | var h' _ | func h' _ _ | binary h' _ _ _ | call h' _ _ _ _ _ _ =>
        rw [h] at h'
        cases h'
    | literal h' hform =>
        rw [h] at h'
        cases h'
        cases hform
  · rintro ⟨hoperand, rfl⟩
    exact .not h hoperand

/-- An operator has the type that its rule gives for the types of the operands. -/
theorem hasTypes_binary_iff (h : p.form? id = some (.binary op left right)) :
    p.HasTypes id ts ↔ ∃ leftType rightType type, p.HasTypes left [leftType] ∧
      p.HasTypes right [rightType] ∧ op.Types leftType rightType type ∧ ts = [type] := by
  constructor
  · intro hts
    cases hts with
    | binary h' hleft hright hop =>
        rw [h] at h'
        cases h'
        exact ⟨_, _, _, hleft, hright, hop, rfl⟩
    | var h' _ | func h' _ _ | not h' _ | call h' _ _ _ _ _ _ =>
        rw [h] at h'
        cases h'
    | literal h' hform =>
        rw [h] at h'
        cases h'
        cases hform
  · rintro ⟨leftType, rightType, type, hleft, hright, hop, rfl⟩
    exact .binary h hleft hright hop

/-- The function that is called. -/
def Calls (p : Program) (callee : ExprId) (f : Function) : Prop :=
  ∃ name decl, p.form? callee = some (.identifier name (.resolved decl)) ∧ p.function? decl = some f

theorem Calls.unique {f f' : Function} (h : p.Calls callee f) (h' : p.Calls callee f') :
    f = f' := by
  obtain ⟨name, decl, hcallee, hf⟩ := h
  obtain ⟨name', decl', hcallee', hf'⟩ := h'
  rw [hcallee] at hcallee'
  cases hcallee'
  rw [hf] at hf'
  exact Option.some.inj hf'

/-- A call has the types that the called function returns, if the arguments fit its parameters. -/
theorem hasTypes_call_iff (h : p.form? id = some (.call callee arguments)) :
    p.HasTypes id ts ↔ ∃ f parameters, p.Calls callee f ∧ p.parameterTypes f = .ok parameters ∧
      parameters.length = arguments.length ∧
        (∀ argument type, (argument, type) ∈ arguments.zip parameters →
          p.HasTypes argument [type]) ∧ p.resultTypes f = .ok ts := by
  constructor
  · intro hts
    cases hts with
    | call h' hcallee hf hparameters hcount harguments htypes =>
        rw [h] at h'
        cases h'
        exact ⟨_, _, ⟨_, _, hcallee, hf⟩, hparameters, hcount, harguments, htypes⟩
    | var h' _ | func h' _ _ | not h' _ | binary h' _ _ _ =>
        rw [h] at h'
        cases h'
    | literal h' hform =>
        rw [h] at h'
        cases h'
        cases hform
  · rintro ⟨f, parameters, ⟨name, decl, hcallee, hf⟩, hparameters, hcount, harguments, htypes⟩
    exact .call h hcallee hf hparameters hcount harguments htypes

/-- The call of a known function with known parameters. -/
theorem Calls.hasTypes_iff {f : Function} {parameters : List DeclId} (hf : p.Calls callee f)
    (h : p.form? id = some (.call callee arguments))
    (hparameters : p.parameterTypes f = .ok parameters) :
    p.HasTypes id ts ↔ parameters.length = arguments.length ∧
      (∀ argument type, (argument, type) ∈ arguments.zip parameters →
        p.HasTypes argument [type]) ∧ p.resultTypes f = .ok ts := by
  rw [hasTypes_call_iff h]
  constructor
  · rintro ⟨f', parameters', hf', hparameters', hcall⟩
    obtain rfl := hf.unique hf'
    rw [hparameters] at hparameters'
    cases hparameters'
    exact hcall
  · intro hcall
    exact ⟨f, parameters, hf, hparameters, hcall⟩

/-- What is a variable is no function. -/
theorem function?_of_variableType {decl type : DeclId} (h : p.variableType decl = .ok type) :
    p.function? decl = none := by
  obtain ⟨v, hv, -⟩ := variableType_ok_iff.1 h
  unfold function?
  rw [hv]

/-- A name stands for values of one list of types. -/
theorem NameTypes.unique (h : p.NameTypes ref ts) (h' : p.NameTypes ref ts') : ts = ts' := by
  obtain ⟨decl, rfl, hcase⟩ := h
  obtain ⟨decl', hdecl, hcase'⟩ := h'
  obtain rfl := Reference.resolved.inj hdecl
  rcases hcase with ⟨type, htype, rfl⟩ | ⟨f, hf, htypes⟩
  · rcases hcase' with ⟨type', htype', rfl⟩ | ⟨f', hf', -⟩
    · rw [htype] at htype'
      cases htype'
      rfl
    · rw [function?_of_variableType htype] at hf'
      cases hf'
  · rcases hcase' with ⟨type', htype', rfl⟩ | ⟨f', hf', htypes'⟩
    · rw [function?_of_variableType htype'] at hf
      cases hf
    · rw [hf] at hf'
      cases hf'
      rw [htypes] at htypes'
      exact Except.ok.inj htypes'

/-- **The types of an expression are determined.** -/
theorem HasTypes.unique (h : p.HasTypes id ts) (h' : p.HasTypes id ts') : ts = ts' := by
  induction h generalizing ts' with
  | literal h hform => exact ((hasTypes_literal_iff h hform).1 h').symm
  | var h htype =>
      exact NameTypes.unique ⟨_, rfl, .inl ⟨_, htype, rfl⟩⟩ ((hasTypes_identifier_iff h).1 h')
  | func h hf htypes =>
      exact NameTypes.unique ⟨_, rfl, .inr ⟨_, hf, htypes⟩⟩ ((hasTypes_identifier_iff h).1 h')
  | not h _ _ => exact ((hasTypes_not_iff h).1 h').2.symm
  | binary h _ _ hop ihLeft ihRight =>
      obtain ⟨leftType, rightType, type, hleft, hright, hop', rfl⟩ := (hasTypes_binary_iff h).1 h'
      cases ihLeft hleft
      cases ihRight hright
      rw [hop.unique hop']
  | call h hcallee hf _ _ _ htypes _ =>
      obtain ⟨f', _, hcalls, -, -, -, htypes'⟩ := (hasTypes_call_iff h).1 h'
      obtain rfl := hcalls.unique ⟨_, _, hcallee, hf⟩
      rw [htypes] at htypes'
      exact Except.ok.inj htypes'

/-- An expression with one value has one type. -/
theorem HasTypes.type_unique {type type' : DeclId} (h : p.HasTypes id [type])
    (h' : p.HasTypes id [type']) : type = type' := (List.cons.inj (h.unique h')).1

/-- The one type of an expression is compared with another one. -/
theorem HasTypes.type_eq_iff {type type' : DeclId} (h : p.HasTypes id [type]) :
    type = type' ↔ p.HasTypes id [type'] := by
  constructor
  · rintro rfl
    exact h
  · intro h'
    exact h.type_unique h'

end Inversion

/-! ### Statements -/

/-- The type of what a statement changes. -/
def HasTargetType (p : Program) (target : Reference) (type : DeclId) : Prop :=
  ∃ decl, target = .resolved decl ∧ p.variableType decl = .ok type

/-- A condition is a truth value. -/
def ConditionTyped (p : Program) (condition : ExprId) : Prop :=
  p.HasTypes condition [BasicType.bool.declaration]

/-- A change fits the variable: an assignment has its type, and arithmetic is for integers. -/
def ChangeTyped (p : Program) (target : Reference) : Change → Prop
  | .assign value => ∃ type, p.HasTargetType target type ∧ p.HasTypes value [type]
  | .add value | .subtract value =>
      p.HasTargetType target BasicType.int.declaration ∧
        p.HasTypes value [BasicType.int.declaration]
  | .increment | .decrement => p.HasTargetType target BasicType.int.declaration

/-- The expressions of a statement of a function with the given results fit together. -/
def FormTyped (p : Program) (results : List DeclId) : StmtForm → Prop
  | .declare decl => ∃ type, p.variableType decl = .ok type
  | .change target change => p.ChangeTyped target change
  | .call call => ∃ types, p.HasTypes call types
  | .branch condition _ _ | .whileLoop condition _ | .forLoop _ condition _ _ =>
      p.ConditionTyped condition
  | .result values => values.length = results.length ∧
      ∀ value type, (value, type) ∈ values.zip results → p.HasTypes value [type]

/-- The statement of the given number is well typed in itself; its parts may not be. -/
def StatementTyped (p : Program) (results : List DeclId) (id : StmtId) : Prop :=
  ∃ s, p.statement? id = some s ∧ p.FormTyped results s.form

/-! ### Functions and programs -/

/-- **A function is well typed**: its statements are, at any depth, and if it has results, the last
one of its own statements is a `return`. -/
structure FunctionTyped (p : Program) (f : Function) : Prop where
  statements : ∃ results, p.resultTypes f = .ok results ∧
    ∀ id, p.Within f.body id → p.StatementTyped results id
  ending : f.results ≠ [] →
    ∃ last s values, f.body.getLast? = some last ∧ p.statement? last = some s ∧
      s.form = .result values

/-- **A program is well typed** if all functions of its file are. -/
def WellTyped (p : Program) : Prop :=
  ∀ id ∈ p.topLevel, ∀ f, p.function? id = some f → p.FunctionTyped f

end Program

end FrontEnd
