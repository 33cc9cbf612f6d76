/-
**Why files are refused.**

Reading a file is safe from its first token to its last: one reading function after the other comes
to a program in which every reference is of the right kind, or fails because the grammar asks for
something else or a name is taken.  The names of parameters, variables and functions are declared in
scopes that were opened for them; expressions need no scope, since a name that is not found is kept
for later.

Main results:

* `FrontEnd.Parser.safe_expression`, `FrontEnd.Parser.safe_statements`,
  `FrontEnd.Parser.safe_function`, `FrontEnd.Parser.safe_file` — reading is safe;
* `FrontEnd.parseFile_error`, `FrontEnd.wellKinded_of_parseFile` — what this means for files.
-/

import FrontEnd.Parser.File
import FrontEnd.Proofs.Stages.SafeSteps
import FrontEnd.Proofs.Syntax.Reading

set_option relaxedAutoImplicit false
set_option autoImplicit false

namespace FrontEnd

namespace Parser

open Run Program

variable {tokens : List Token} {s : Parser} {scope : ScopeId}

/-! ### Expressions -/

/-- The value of a literal is told if the token fits. -/
theorem literalForm_error {t : Token} {e : Error} (h : literalForm t = .error e) :
    e.cause.IsRefusal ∨ ¬ t.Fits := by
  unfold literalForm at h
  split at h
  · next hkind =>
      cases hvalue : t.integer with
      | error e' => exact .inr (Token.integer_error hvalue hkind)
      | ok value => simp [hvalue, Except.map] at h
  · next hkind =>
      cases hvalue : t.character with
      | error e' => exact .inr (Token.character_error hvalue hkind)
      | ok byte => simp [hvalue, Except.map] at h
  · next hkind =>
      cases hvalue : t.string with
      | error e' => exact .inr (Token.string_error hvalue hkind)
      | ok text => simp [hvalue, Except.map] at h
  · cases h
  · cases h
  · cases h
    exact .inl (.inl ⟨rfl, rfl⟩)

/-- An expression that is no name refers to no declaration. -/
theorem wellKinded_of_reference?_eq_none {p : Program} {e : Expression}
    (h : e.reference? = none) : e.WellKinded p := by
  intro ref href
  rw [h] at href
  cases href

/-- A literal may be none that its token can stand for; its type is found. -/
theorem safe_literal : Safe tokens literal s fun id p => p.HasExpression id := by
  rw [literal_eq]
  refine safe_advance.bind fun t _ _ hmem => ?_
  have hform : ∀ e, literalForm t = .error e → e.cause.IsRefusal ∨ ∃ t ∈ tokens, ¬ t.Fits :=
    fun e he => (literalForm_error he).imp id fun hfits => ⟨t, hmem, hfits⟩
  refine (Safe.ofExcept hform).bind fun ⟨form, basic⟩ _ _ hok => ?_
  obtain ⟨value, -, rfl, -⟩ := literalForm_ok_iff.1 hok
  refine safe_addExpression fun _ => wellKinded_of_reference?_eq_none ?_
  cases value <;> rfl

/-- A name in an expression may be unknown. -/
theorem safe_identifier (scope : ScopeId) :
    Safe tokens (identifier scope) s fun id p => p.HasExpression id := by
  refine safe_expectName.bind fun (t, name) s₁ _ _ => .get_bind ?_
  refine (safe_addExpression fun h => ?_).bind fun id s₂ _ hid => ?_
  · rintro ref ⟨⟩
    exact h.valueReference scope name t.position
  · exact (safe_deferIf _ _).bind fun _ s₃ h₃ _ => .pure (hid.mono h₃)

section Parts

variable {part : ScopeId → BindingPower → ParseM ExprId}
  (hpart : ∀ scope power (s : Parser),
    Safe tokens (part scope power) s fun id p => p.HasExpression id)

include hpart

theorem safe_negation (scope : ScopeId) :
    Safe tokens (negation part scope) s fun id p => p.HasExpression id := by
  refine (safe_expect .not).bind fun t s₁ _ _ => ?_
  refine (hpart scope .unary s₁).bind fun operand _ _ _ => ?_
  exact safe_addExpression fun _ => wellKinded_of_reference?_eq_none rfl

theorem safe_grouping (scope : ScopeId) :
    Safe tokens (grouping part scope) s fun id p => p.HasExpression id := by
  refine (safe_expect .leftParenthesis).discard.bind fun _ s₁ _ _ => ?_
  refine (hpart scope .default s₁).bind fun inner _ _ hinner => ?_
  exact (safe_expect .rightParenthesis).discard.bind fun _ _ h _ => .pure (hinner.mono h)

theorem safe_start (rule : PrefixRule) (scope : ScopeId) :
    Safe tokens (start part rule scope) s fun id p => p.HasExpression id := by
  cases rule with
  | literal => exact safe_literal
  | identifier => exact safe_identifier scope
  | negation => exact safe_negation hpart scope
  | grouping => exact safe_grouping hpart scope

theorem safe_binary (scope : ScopeId) (left : ExprId) (power : BindingPower) :
    Safe tokens (binary part scope left power) s fun id p => p.HasExpression id := by
  refine safe_advance.bind fun t s₁ _ _ => ?_
  split
  · exact .throw (.inl ⟨rfl, rfl⟩)
  · exact (hpart scope power s₁).bind fun _ _ _ _ =>
      safe_addExpression fun _ => wellKinded_of_reference?_eq_none rfl

/-- A call is refused for its grammar only: that something else is called is one of the refusals. -/
theorem safe_call (scope : ScopeId) (called : ExprId) :
    Safe tokens (call part scope called) s fun id p => p.HasExpression id := by
  have hnotCallable : Cause.notCallable.IsRefusal := .inl ⟨rfl, rfl⟩
  refine (safe_expect .leftParenthesis).bind fun opening s₁ _ _ => .get_bind ?_
  split
  · exact .throw hnotCallable
  · refine (Safe.require hnotCallable).bind fun _ s₂ _ _ => ?_
    have harguments : Safe tokens (separated .rightParenthesis (part scope .default)) s₂
        fun xs p => ∀ x ∈ xs, p.HasExpression x :=
      safe_separated stable_true (fun x p q h hx => hx.mono h)
        (fun s _ => hpart scope .default s) trivial
    refine harguments.bind fun _ _ _ _ => ?_
    refine (safe_expect .rightParenthesis).discard.bind fun _ _ _ _ => ?_
    exact safe_addExpression fun _ => wellKinded_of_reference?_eq_none rfl

theorem safe_continuation (rule : InfixRule) (scope : ScopeId) (left : ExprId)
    (power : BindingPower) :
    Safe tokens (continuation part rule scope left power) s fun id p => p.HasExpression id := by
  cases rule with
  | binary => exact safe_binary hpart scope left power
  | call => exact safe_call hpart scope left

/-- Continuing an expression comes to an expression that exists, by induction on the rounds. -/
theorem safe_extendUpTo (g : Grammar) (scope : ScopeId) (power : BindingPower) (n : Nat)
    {left : ExprId} (hleft : s.program.HasExpression left) :
    Safe tokens (extendUpTo part g scope power n left) s fun id p => p.HasExpression id := by
  induction n generalizing s left with
  | zero => exact .pure hleft
  | succ n ih =>
      refine .get_bind ?_
      split
      · exact .pure hleft
      · refine .ite (fun _ => ?_) fun _ => .pure hleft
        exact (safe_continuation hpart _ scope left _).bind fun left' _ _ hleft' => ih hleft'

theorem safe_extend (g : Grammar) (scope : ScopeId) (power : BindingPower) {left : ExprId}
    (hleft : s.program.HasExpression left) :
    Safe tokens (extend part g scope power left) s fun id p => p.HasExpression id :=
  (safe_extendUpTo hpart g scope power s.rest.length hleft).of_run rfl

end Parts

/-- Reading an expression comes to one that exists, by induction on the depth. -/
theorem safe_expressionUpTo (g : Grammar) (n : Nat) (scope : ScopeId) (power : BindingPower)
    (s : Parser) :
    Safe tokens (expressionUpTo g n scope power) s fun id p => p.HasExpression id := by
  induction n generalizing scope power s with
  | zero => exact safe_refuse _
  | succ n ih =>
      refine .get_bind ?_
      split
      · exact safe_refuse _
      · exact (safe_start ih _ scope).bind fun left _ _ hleft => safe_extend ih g scope power hleft

/-- **Reading an expression is safe** in any scope. -/
theorem safe_expression (g : Grammar) (scope : ScopeId) (power : BindingPower) :
    Safe tokens (expression g scope power) s fun id p => p.HasExpression id :=
  (safe_expressionUpTo g s.rest.length scope power s).of_run rfl

/-! ### Signatures -/

/-- The name of a type is found, or kept for later. -/
theorem safe_typeName (scope : ScopeId) :
    Safe tokens (typeName scope) s fun r p => r.1.LeadsTo p [.type] :=
  safe_expectName.bind fun (t, name) _ _ _ => .get_bind <| .of_sound fun hs =>
    .pure (hs.program.typeReference scope name t.position)

theorem safe_addField (name? : Option String) {type : Reference}
    (htype : type.LeadsTo s.program [.type]) (place : Position) :
    Safe tokens (addField name? type place) s fun field p => p.kind? field.decl = some .var :=
  (safe_addDeclaration (d := .var ⟨name?, place, type⟩) fun _ => htype).bind
    fun decl _ _ hdecl => (safe_deferIf _ _).bind fun _ _ h _ => .pure (h.kinds decl .var hdecl)

/-- A parameter is declared in an open scope. -/
theorem safe_parameter (hopen : s.program.scopes.IsOpen scope) :
    Safe tokens (parameter scope) s fun field p => p.kind? field.decl = some .var := by
  refine safe_expectName.bind fun (t, name) s₁ h₁ _ => ?_
  refine (safe_typeName scope).bind fun (type, _) s₂ h₂ htype => ?_
  refine (safe_addField (some name) htype t.position).bind fun field s₃ h₃ hfield => ?_
  have hopen' := h₃.scopes _ (h₂.scopes _ (h₁.scopes _ hopen))
  exact (safe_declareName hopen' hfield).bind fun _ _ h _ => .pure (h.kinds _ _ hfield)

/-- That a scope is open is true of all later programs. -/
theorem stable_isOpen (scope : ScopeId) : Stable fun p => p.scopes.IsOpen scope :=
  fun _ _ h hopen => h.scopes scope hopen

/-- That a declaration is one of a variable is true of all later programs. -/
theorem stable_field (field : Field) : Stable fun p => p.kind? field.decl = some .var :=
  fun _ _ h hfield => h.kinds _ _ hfield

theorem safe_parameters (hopen : s.program.scopes.IsOpen scope) :
    Safe tokens (parameters scope) s
      fun fields p => ∀ field ∈ fields, p.kind? field.decl = some .var := by
  refine (safe_expect .leftParenthesis).discard.bind fun _ s₁ h₁ _ => ?_
  refine (safe_separated (stable_isOpen scope) stable_field (fun _ => safe_parameter)
    (h₁.scopes scope hopen)).bind fun fields _ _ hfields => ?_
  refine (safe_expect .rightParenthesis).discard.bind fun _ _ h _ => .pure ?_
  exact fun field hmem => stable_field field _ _ h (hfields field hmem)

theorem safe_resultField (scope : ScopeId) :
    Safe tokens (resultField scope) s fun field p => p.kind? field.decl = some .var :=
  (safe_typeName scope).bind fun (_, place) _ _ htype => safe_addField none htype place

/-- The results of a function are variables. -/
theorem safe_results (scope : ScopeId) : Safe tokens (results scope) s
    fun fields p => ∀ field ∈ fields, p.kind? field.decl = some .var := by
  refine .get_bind ?_
  split
  · exact (safe_resultField scope).bind fun field _ _ hfield =>
      .pure fun other hother => List.mem_singleton.1 hother ▸ hfield
  · refine safe_advance.discard.bind fun _ s₁ _ _ => ?_
    refine (safe_separated stable_true stable_field
      (fun _ _ => safe_resultField scope) trivial).bind fun fields _ _ hfields => ?_
    refine (safe_expect .rightParenthesis).discard.bind fun _ _ h _ => .pure ?_
    exact fun field hmem => stable_field field _ _ h (hfields field hmem)
  · exact .pure (by simp)

/-! ### Statements without blocks -/

/-- The answer of a statement is a statement, and the scope behind it is open. -/
def IsStep (r : StmtId × ScopeId) (p : Program) : Prop :=
  p.HasStatement r.1 ∧ p.scopes.IsOpen r.2

/-- A statement that is neither a declaration nor a change refers to its expressions only. -/
theorem wellKinded_of_expressions {p : Program} {form : StmtForm} {place : Position}
    (hdeclare : ∀ decl, form ≠ .declare decl) (hchange : ∀ ref change, form ≠ .change ref change)
    (h : ∀ id ∈ form.expressions, p.HasExpression id) :
    (⟨form, place⟩ : Statement).WellKinded p where
  target := by
    cases form with
    | change ref change => exact absurd rfl (hchange ref change)
    | _ =>
        intro ref href
        cases href
  declared decl hdecl := absurd hdecl (hdeclare decl)
  expressions := h

/-- A variable is declared behind an open scope. -/
theorem safe_declareStatement (hopen : s.program.scopes.IsOpen scope) :
    Safe tokens (declareStatement scope) s IsStep := by
  refine (safe_expect .varWord).bind fun first s₁ h₁ _ => ?_
  refine safe_expectName.bind fun (t, name) s₂ h₂ _ => ?_
  refine (safe_typeName scope).bind fun (type, _) s₃ h₃ htype => ?_
  refine (safe_expect .semicolon).discard.bind fun _ s₄ h₄ _ => ?_
  refine (safe_addDeclaration (d := .var ⟨some name, t.position, type⟩) fun _ =>
    htype.mono h₄).bind fun decl s₅ h₅ hdecl => ?_
  have hgrows := h₁.trans (h₂.trans (h₃.trans (h₄.trans h₅)))
  refine (safe_extendScope (hgrows.scopes scope hopen) hdecl).bind fun behind s₆ h₆ hbehind => ?_
  refine (safe_addStatement fun _ => ⟨?_, ?_, ?_⟩).bind fun id s₇ h₇ hid => ?_
  · rintro ref ⟨⟩
  · rintro decl' ⟨⟩
    exact h₆.kinds decl .var hdecl
  · intro id hid
    cases hid
  · refine (safe_deferIf _ _).bind fun _ s₈ h₈ _ => .pure ⟨hid.mono h₈, ?_⟩
    exact (h₇.trans h₈).scopes behind hbehind

theorem safe_change (g : Grammar) (scope : ScopeId) (kind : TokenKind) :
    Safe tokens (change g scope kind) s fun c p => ∀ id ∈ c.expressions, p.HasExpression id := by
  unfold change
  split
  · exact (safe_expression g scope .default).map fun h => by simpa [Change.expressions] using h
  · exact (safe_expression g scope .default).map fun h => by simpa [Change.expressions] using h
  · exact (safe_expression g scope .default).map fun h => by simpa [Change.expressions] using h
  · exact .pure (by simp [Change.expressions])
  · exact .pure (by simp [Change.expressions])

theorem safe_callStatement (g : Grammar) (scope : ScopeId) :
    Safe tokens (callStatement g scope) s fun id p => p.HasStatement id := by
  refine .get_bind ((safe_expression g scope .default).bind fun call s₁ _ hcall => .get_bind ?_)
  refine .ite (fun _ => ?_) fun _ => .throw (.inl ⟨rfl, rfl⟩)
  refine safe_addStatement fun _ => wellKinded_of_expressions (by simp) (by simp) ?_
  simpa [StmtForm.expressions] using hcall

/-- A changed variable may be unknown. -/
theorem safe_changeStatement (g : Grammar) (scope : ScopeId) :
    Safe tokens (changeStatement g scope) s fun id p => p.HasStatement id := by
  refine .get_bind (safe_expectName.bind fun (t, name) s₁ _ _ => .get_bind (.of_sound fun hs => ?_))
  have htarget := hs.program.variableReference scope name t.position
  refine (safe_expectOneOf changeTokens).bind fun sign s₂ h₂ _ => ?_
  refine (safe_change g scope sign.kind).bind fun change s₃ h₃ hchange => ?_
  refine (safe_addStatement fun _ => ⟨?_, ?_, ?_⟩).bind fun id s₄ _ hid => ?_
  · rintro ref ⟨⟩
    exact htarget.mono (h₂.trans h₃)
  · rintro decl ⟨⟩
  · exact hchange
  · exact (safe_deferIf _ _).bind fun _ _ h _ => .pure (hid.mono h)

theorem safe_simple (g : Grammar) (scope : ScopeId) :
    Safe tokens (simple g scope) s fun id p => p.HasStatement id :=
  .get_bind (.ite (fun _ => safe_callStatement g scope) fun _ => safe_changeStatement g scope)

theorem safe_simpleStatement (g : Grammar) (hopen : s.program.scopes.IsOpen scope) :
    Safe tokens (simpleStatement g scope) s IsStep :=
  (safe_simple g scope).bind fun _ _ h₁ hid => (safe_expect .semicolon).discard.bind
    fun _ _ h₂ _ => .pure ⟨hid.mono h₂, (h₁.trans h₂).scopes scope hopen⟩

theorem safe_moreValuesUpTo (g : Grammar) (scope : ScopeId) (n : Nat) :
    Safe tokens (moreValuesUpTo g scope n) s fun ids p => ∀ id ∈ ids, p.HasExpression id := by
  induction n generalizing s with
  | zero => exact .pure (by simp)
  | succ n ih =>
      refine .get_bind (.ite (fun _ => ?_) fun _ => .pure (by simp))
      refine safe_advance.discard.bind fun _ _ _ _ => ?_
      refine (safe_expression g scope .default).bind fun _ _ _ hvalue => ?_
      refine ih.bind fun _ _ h hothers => .pure ?_
      exact List.forall_mem_cons.2 ⟨hvalue.mono h, hothers⟩

theorem safe_values (g : Grammar) (scope : ScopeId) :
    Safe tokens (values g scope) s fun ids p => ∀ id ∈ ids, p.HasExpression id := by
  refine .get_bind (.ite (fun _ => .pure (by simp)) fun _ => ?_)
  refine (safe_expression g scope .default).bind fun _ s₁ _ hvalue => ?_
  have hmore : Safe tokens (moreValues g scope) s₁ fun ids p => ∀ id ∈ ids, p.HasExpression id :=
    (safe_moreValuesUpTo g scope s₁.rest.length).of_run rfl
  refine hmore.bind fun _ _ h hothers => .pure ?_
  exact List.forall_mem_cons.2 ⟨hvalue.mono h, hothers⟩

theorem safe_resultStatement (g : Grammar) (hopen : s.program.scopes.IsOpen scope) :
    Safe tokens (resultStatement g scope) s IsStep := by
  refine (safe_expect .returnWord).bind fun first _ h₁ _ => ?_
  refine (safe_values g scope).bind fun values _ h₂ hvalues => ?_
  refine (safe_expect .semicolon).discard.bind fun _ _ h₃ _ => ?_
  refine (safe_addStatement fun _ => wellKinded_of_expressions (by simp) (by simp) ?_).bind
    fun id _ h₄ hid => .pure ⟨hid, ?_⟩
  · exact fun id hmem => (hvalues id hmem).mono h₃
  · exact (h₁.trans (h₂.trans (h₃.trans h₄))).scopes scope hopen

/-! ### Statements with blocks -/

section Lists

variable (g : Grammar) {list : ScopeId → ParseM (List StmtId)}
  (hlist : ∀ scope (s : Parser), s.program.scopes.IsOpen scope →
    Safe tokens (list scope) s fun ids p => ∀ id ∈ ids, p.HasStatement id)

include hlist

theorem safe_braced (hopen : s.program.scopes.IsOpen scope) :
    Safe tokens (braced list scope) s fun ids p => ∀ id ∈ ids, p.HasStatement id := by
  refine (safe_expect .leftBrace).discard.bind fun _ s₁ h₁ _ => ?_
  refine (hlist scope s₁ (h₁.scopes scope hopen)).bind fun ids _ _ hids => ?_
  refine (safe_expect .rightBrace).discard.bind fun _ _ h _ => .pure ?_
  exact fun id hid => (hids id hid).mono h

/-- The scope of a block is opened for it. -/
theorem safe_blockOf (scope : ScopeId) : Safe tokens (blockOf list scope) s fun _ _ => True :=
  (safe_newScope (by decide) scope).bind fun _ _ _ hopen => (safe_braced hlist hopen).bind
    fun _ _ _ _ => .pure trivial

theorem safe_elseBlock (scope : ScopeId) :
    Safe tokens (elseBlock list scope) s fun _ _ => True :=
  .get_bind (.ite (fun _ => safe_advance.discard.bind fun _ _ _ _ =>
    (safe_blockOf hlist scope).map fun _ => trivial) fun _ => .pure trivial)

theorem safe_branchStatement (hopen : s.program.scopes.IsOpen scope) :
    Safe tokens (branchStatement g list scope) s IsStep := by
  refine (safe_expect .ifWord).bind fun first _ h₁ _ => ?_
  refine (safe_expression g scope .default).bind fun condition _ h₂ hcondition => ?_
  refine (safe_blockOf hlist scope).bind fun _ _ h₃ _ => ?_
  refine (safe_elseBlock hlist scope).bind fun _ _ h₄ _ => ?_
  refine (safe_addStatement fun _ => wellKinded_of_expressions (by simp) (by simp) ?_).bind
    fun id _ h₅ hid => .pure ⟨hid, ?_⟩
  · simpa [StmtForm.expressions] using hcondition.mono (h₃.trans h₄)
  · exact (h₁.trans (h₂.trans (h₃.trans (h₄.trans h₅)))).scopes scope hopen

theorem safe_whileStatement (hopen : s.program.scopes.IsOpen scope) :
    Safe tokens (whileStatement g list scope) s IsStep := by
  refine (safe_expect .whileWord).bind fun first _ h₁ _ => ?_
  refine (safe_expression g scope .default).bind fun condition _ h₂ hcondition => ?_
  refine (safe_blockOf hlist scope).bind fun _ _ h₃ _ => ?_
  refine (safe_addStatement fun _ => wellKinded_of_expressions (by simp) (by simp) ?_).bind
    fun id _ h₄ hid => .pure ⟨hid, ?_⟩
  · simpa [StmtForm.expressions] using hcondition.mono h₃
  · exact (h₁.trans (h₂.trans (h₃.trans h₄))).scopes scope hopen

omit hlist in
theorem safe_simpleUnless (kind : TokenKind) (scope : ScopeId) :
    Safe tokens (simpleUnless g kind scope) s fun _ _ => True :=
  .get_bind (.ite (fun _ => .pure trivial) fun _ => (safe_simple g scope).map fun _ => trivial)

/-- A counted repetition is read in an open scope, and comes to a statement. -/
theorem safe_forStatement (hopen : s.program.scopes.IsOpen scope) :
    Safe tokens (forStatement g list scope) s IsStep := by
  refine (safe_expect .forWord).bind fun first _ h₁ _ => ?_
  refine (safe_simpleUnless g .semicolon scope).bind fun init? _ h₂ _ => ?_
  refine (safe_expect .semicolon).discard.bind fun _ _ h₃ _ => ?_
  refine (safe_expression g scope .default).bind fun condition _ h₄ hcondition => ?_
  refine (safe_expect .semicolon).discard.bind fun _ _ h₅ _ => ?_
  refine (safe_simpleUnless g .leftBrace scope).bind fun action? _ h₆ _ => ?_
  refine (safe_blockOf hlist scope).bind fun _ _ h₇ _ => ?_
  refine (safe_addStatement fun _ => wellKinded_of_expressions (by simp) (by simp) ?_).bind
    fun id _ h₈ hid => .pure ⟨hid, ?_⟩
  · simpa [StmtForm.expressions] using hcondition.mono (h₅.trans (h₆.trans h₇))
  · exact (h₁.trans (h₂.trans (h₃.trans (h₄.trans (h₅.trans (h₆.trans (h₇.trans h₈))))))).scopes
      scope hopen

theorem safe_statementOf (hopen : s.program.scopes.IsOpen scope) :
    Safe tokens (statementOf g list scope) s IsStep := by
  refine .get_bind ?_
  split
  · exact safe_refuse _
  · exact safe_declareStatement hopen
  · exact safe_simpleStatement g hopen
  · exact safe_branchStatement g hlist hopen
  · exact safe_whileStatement g hlist hopen
  · exact safe_forStatement g hlist hopen
  · exact safe_resultStatement g hopen

end Lists

/-- A list is read in an open scope, and comes to statements, by induction on their number. -/
theorem safe_statementsUpTo (g : Grammar) (n : Nat) (closed : Bool) (scope : ScopeId) (s : Parser)
    (hopen : s.program.scopes.IsOpen scope) :
    Safe tokens (statementsUpTo g n closed scope) s
      fun ids p => ∀ id ∈ ids, p.HasStatement id := by
  induction n generalizing closed scope s with
  | zero => exact safe_refuse _
  | succ n ih =>
      refine .get_bind ?_
      split
      · exact safe_refuse _
      · refine .ite (fun _ => .pure (by simp)) fun _ => ?_
        have hclosed : Cause.returnNotLast.IsRefusal :=
          .inl ⟨rfl, rfl⟩
        refine (Safe.require hclosed).bind fun _ s₁ h₁ _ => ?_
        refine (safe_statementOf g (ih false) (h₁.scopes scope hopen)).bind fun r s₂ _ hr => ?_
        refine .get_bind ((ih _ r.2 s₂ hr.2).bind fun others _ h hothers => .pure ?_)
        exact List.forall_mem_cons.2 ⟨hr.1.mono h, hothers⟩

/-- **Reading statements is safe** in an open scope. -/
theorem safe_statements (g : Grammar) (scope : ScopeId) (s : Parser)
    (hopen : s.program.scopes.IsOpen scope) :
    Safe tokens (statements g scope) s fun ids p => ∀ id ∈ ids, p.HasStatement id :=
  (safe_statementsUpTo g s.rest.length false scope s hopen).of_run rfl

/-! ### Functions and files -/

/-- The parameters are declared in a scope that is opened for them, and the function in one that is
open. -/
theorem safe_functionRest (g : Grammar) (hopen : s.program.scopes.IsOpen scope) :
    Safe tokens (functionRest g scope) s fun _ _ => True := by
  refine safe_expectName.bind fun (t, name) s₁ h₁ _ => ?_
  refine (safe_newScope (by decide) scope).bind fun inner s₂ h₂ hinner => ?_
  refine (safe_parameters hinner).bind fun parameters s₃ h₃ hparameters => ?_
  refine (safe_results inner).bind fun results s₄ h₄ hresults => ?_
  refine (safe_addDeclaration
    (d := .func ⟨name, t.position, parameters, results, [], inner⟩) fun _ => ⟨?_, ?_⟩).bind
      fun decl s₅ h₅ hdecl => ?_
  · intro field hmem
    exact (List.mem_append.1 hmem).elim (fun hmem => h₄.kinds _ _ (hparameters field hmem))
      (hresults field)
  · simp
  · have hgrows := h₁.trans (h₂.trans (h₃.trans (h₄.trans h₅)))
    refine (safe_declareName (hgrows.scopes scope hopen) hdecl).bind fun _ s₆ h₆ _ => ?_
    have hinner' := (h₃.trans (h₄.trans (h₅.trans h₆))).scopes inner hinner
    refine (safe_braced (safe_statements g) hinner').bind fun body s₇ _ hbody => ?_
    exact (safe_modify (fun p => p.setBody decl body) (grows_setBody _ decl body)
      fun h => h.setBody decl hbody).bind fun _ _ _ _ => .pure trivial

/-- **Reading a function is safe** in an open scope. -/
theorem safe_function (g : Grammar) (hopen : s.program.scopes.IsOpen scope) :
    Safe tokens (function g scope) s fun _ _ => True :=
  (safe_expect .funcWord).bind fun _ _ h _ =>
    safe_within _ (safe_functionRest g (h.scopes scope hopen))

/-- Functions are read in the open scope of the file, by induction on their number. -/
theorem safe_functionsUpTo (g : Grammar) (n : Nat) (hopen : s.program.scopes.IsOpen .file) :
    Safe tokens (functionsUpTo g n) s fun _ _ => True := by
  induction n generalizing s with
  | zero => exact .pure trivial
  | succ n ih =>
      refine .get_bind ?_
      split
      · exact .pure trivial
      · refine .ite (fun _ => ?_) fun _ => safe_refuse _
        refine (safe_function g hopen).bind fun decl s₁ h₁ _ => ?_
        exact (safe_modify (fun p => p.addTopLevel decl) (grows_addTopLevel _ decl)
          fun h => h.addTopLevel decl).bind fun _ _ h₂ _ =>
            ih ((h₁.trans h₂).scopes .file hopen)

/-- **Reading a file is safe.** -/
theorem safe_file (g : Grammar) (hopen : s.program.scopes.IsOpen .file) :
    Safe tokens (file g) s fun _ _ => True :=
  (safe_functionsUpTo g s.rest.length hopen).of_run rfl

theorem sound_ofTokens (tokens : List Token) : (ofTokens tokens).Sound tokens :=
  ⟨fun _ h => h, wellKinded_initial⟩

/-- What reading a file comes to. -/
theorem file_ends (tokens : List Token) :
    Ends (file .standard) (.ofTokens tokens) (fun _ s => s.program.WellKinded)
      fun e _ => e.cause.IsRefusal ∨ ∃ t ∈ tokens, ¬ t.Fits :=
  (safe_file .standard ScopeTree.isOpen_initial_file (sound_ofTokens tokens)).imp
    (fun ⟨hsound, _⟩ => hsound.program) fun he => he

end Parser

variable {tokens : List Token}

/-- **A file is refused because the grammar asks for something else or a name is taken**, if all its
tokens fit. -/
theorem parseFile_error {e : Error} (h : parseFile tokens = .error e) :
    e.cause.IsRefusal ∨ ∃ t ∈ tokens, ¬ t.Fits := by
  unfold parseFile at h
  split at h
  · cases h
  · next e' s hrun =>
      cases h
      exact (Parser.file_ends tokens).of_error hrun

/-- **In a file that was read all references are of the right kind.** -/
theorem wellKinded_of_parseFile {p : Program} {d : Deferred} (h : parseFile tokens = .ok (p, d)) :
    p.WellKinded := by
  unfold parseFile at h
  split at h
  · next u s hrun =>
      cases h
      exact (Parser.file_ends tokens).of_ok hrun
  · cases h

end FrontEnd
