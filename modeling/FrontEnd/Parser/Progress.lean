/-
**Reading takes tokens.**

Whatever reads an expression, a statement or a function takes its tokens from the front, and does
not succeed without taking one.  So the number of tokens left bounds every recursion of the parser.

Main definition:

* `FrontEnd.Parser.Reads` — taking at least a given number of tokens on success.

Main results:

* `FrontEnd.Parser.reads_expression`, `FrontEnd.Parser.reads_statement`,
  `FrontEnd.Parser.reads_block`, `FrontEnd.Parser.reads_function` — reading takes a token;
* `FrontEnd.Parser.reads_file` — also a whole file is read from the front.
-/

import FrontEnd.Parser.File

set_option relaxedAutoImplicit false
set_option autoImplicit false

namespace FrontEnd.Parser

variable {α β : Type} {j k : Nat}

/-! ### Taking tokens from the front -/

/-- The computation takes tokens from the front only, and at least `k` of them if it succeeds. -/
def Reads (k : Nat) (m : ParseM α) : Prop :=
  ∀ s, match m s with
    | .ok _ s' => s'.rest <:+ s.rest ∧ s'.rest.length + k ≤ s.rest.length
    | .error _ s' => s'.rest <:+ s.rest

namespace Reads

/-- On success the tokens left are some of those at the end, and fewer by `k`. -/
theorem of_ok {m : ParseM α} (h : Reads k m) {s s' : Parser} {a : α} (hs : m s = .ok a s') :
    s'.rest <:+ s.rest ∧ s'.rest.length + k ≤ s.rest.length := by
  have := h s
  rwa [hs] at this

theorem of_error {m : ParseM α} (h : Reads k m) {s s' : Parser} {e : Error}
    (hs : m s = .error e s') : s'.rest <:+ s.rest := by
  have := h s
  rwa [hs] at this

theorem mono {m : ParseM α} (h : Reads k m) (hjk : j ≤ k) : Reads j m := by
  intro s
  cases hs : m s with
  | error e s' => exact h.of_error hs
  | ok a s' =>
      obtain ⟨hsuffix, hlength⟩ := h.of_ok hs
      exact ⟨hsuffix, by omega⟩

/-- Two steps take the tokens of both. -/
theorem bind {m : ParseM α} {f : α → ParseM β} (hm : Reads j m) (hf : ∀ a, Reads k (f a)) :
    Reads (j + k) (m >>= f) := by
  intro s
  change match EStateM.bind m f s with
    | .ok _ s' => s'.rest <:+ s.rest ∧ s'.rest.length + (j + k) ≤ s.rest.length
    | .error _ s' => s'.rest <:+ s.rest
  unfold EStateM.bind
  cases hs : m s with
  | error e s' => exact hm.of_error hs
  | ok a s' =>
      obtain ⟨hsuffix, hlength⟩ := hm.of_ok hs
      cases hs' : f a s' with
      | error e s'' =>
          simp only [hs']
          exact ((hf a).of_error hs').trans hsuffix
      | ok b s'' =>
          obtain ⟨hsuffix', hlength'⟩ := (hf a).of_ok hs'
          simp only [hs']
          exact ⟨hsuffix'.trans hsuffix, by omega⟩

/-- A first step that takes enough, whatever follows. -/
theorem bind_left {m : ParseM α} {f : α → ParseM β} (hm : Reads k m) (hf : ∀ a, Reads 0 (f a)) :
    Reads k (m >>= f) := hm.bind hf

/-- A first step that may take any number of tokens, before others that take enough. -/
theorem bind_right {m : ParseM α} {f : α → ParseM β} (hm : Reads j m) (hf : ∀ a, Reads k (f a)) :
    Reads k (m >>= f) := (hm.bind hf).mono (Nat.le_add_left k j)

/-- A state that keeps its tokens. -/
theorem of_rest_eq {m : ParseM α} (h : ∀ s, ∃ a s', m s = .ok a s' ∧ s'.rest = s.rest) :
    Reads 0 m := by
  intro s
  obtain ⟨a, s', hs, hrest⟩ := h s
  rw [hs]
  simp [hrest]

theorem pure (a : α) : Reads 0 (Pure.pure a : ParseM α) := of_rest_eq fun s => ⟨a, s, rfl, rfl⟩

theorem get : Reads 0 (MonadState.get : ParseM Parser) := of_rest_eq fun s => ⟨s, s, rfl, rfl⟩

theorem onState {f : Parser → Parser} (h : ∀ s, (f s).rest = s.rest) :
    Reads 0 (modify f : ParseM Unit) := of_rest_eq fun s => ⟨(), f s, rfl, h s⟩

/-- What fails need not have taken anything. -/
theorem throw (e : Error) : Reads k (MonadExcept.throw e : ParseM α) := fun s =>
  List.suffix_refl s.rest

theorem refuse (expected : String) : Reads k (Parser.refuse expected : ParseM α) := fun s =>
  List.suffix_refl s.rest

theorem map {m : ParseM α} (f : α → β) (hm : Reads k m) : Reads k (f <$> m) := by
  rw [← bind_pure_comp]
  exact hm.bind_left fun a => pure (f a)

theorem discard {m : ParseM α} (hm : Reads k m) : Reads k (discard m) := hm.map _

/-- Both ways of a choice take enough. -/
theorem ite {c : Prop} [Decidable c] {m m' : ParseM α} (hm : Reads k m) (hm' : Reads k m') :
    Reads k (if c then m else m') := by
  split
  · exact hm
  · exact hm'

theorem require (c : Prop) [Decidable c] (e : Error) : Reads 0 (require c e : ParseM Unit) :=
  ite (pure ()) (throw e)

theorem ofExcept (x : Except Error α) : Reads 0 (ofExcept x : ParseM α) := by
  cases x with
  | ok a => exact pure a
  | error e => exact throw e

/-- Looking at the state before going on. -/
theorem get_bind {f : Parser → ParseM α} (hf : ∀ s, Reads k (f s)) :
    Reads k (MonadState.get >>= f) := get.bind_right hf

end Reads

/-! ### Tokens and nodes -/

/-- The next token is taken if there is one. -/
theorem reads_advance : Reads 1 advance := by
  intro s
  unfold advance
  cases hrest : s.rest with
  | nil => simp [hrest]
  | cons t rest => simp

/-- A token that the grammar does not ask for is left. -/
theorem reads_expectOneOf (kinds : List TokenKind) : Reads 1 (expectOneOf kinds) := by
  intro s
  unfold expectOneOf
  cases hrest : s.rest with
  | nil => simp [hrest]
  | cons t rest => by_cases ht : t.isOneOf kinds = true <;> simp [ht, hrest]

theorem reads_expect (kind : TokenKind) : Reads 1 (expect kind) := reads_expectOneOf [kind]

theorem reads_expectName : Reads 1 expectName := by
  refine (reads_expect .identifier).bind_left fun t => ?_
  exact (Reads.ofExcept t.identifier).bind_right fun name => .pure _

/-- What works on the program takes no token. -/
theorem reads_onProgram (action : ProgramM α) : Reads 0 (onProgram action) := by
  intro s
  unfold onProgram
  cases action s.program <;> simp

theorem reads_addDeclaration (d : Declaration) : Reads 0 (addDeclaration d) :=
  .of_rest_eq fun _ => ⟨_, _, rfl, rfl⟩

theorem reads_addExpression (e : Expression) : Reads 0 (addExpression e) :=
  .of_rest_eq fun _ => ⟨_, _, rfl, rfl⟩

theorem reads_addStatement (form : StmtForm) (place : Position) :
    Reads 0 (addStatement form place) := .of_rest_eq fun _ => ⟨_, _, rfl, rfl⟩

theorem reads_deferIf (ref : Reference) (change : Deferred → Deferred) :
    Reads 0 (deferIf ref change) :=
  .of_rest_eq fun s => ⟨_, _, rfl, by cases ref <;> rfl⟩

theorem reads_within {m : ParseM α} (context : String) (hm : Reads k m) :
    Reads k (within context m) := by
  intro s
  unfold within
  cases hs : m s with
  | ok a s' => exact hm.of_ok hs
  | error e s' => exact hm.of_error hs

/-- A comma is taken in front of all items but the first. -/
theorem reads_comma (isFirst : Bool) : Reads 0 (comma isFirst) :=
  .ite (.pure ()) ((reads_expect .comma).discard.mono (Nat.zero_le 1))

/-- There may be no items, so a list need not take a token. -/
theorem reads_separatedUpTo {close : TokenKind} {item : ParseM α} (hitem : Reads 1 item) (n : Nat)
    (isFirst : Bool) : Reads 0 (separatedUpTo close item n isFirst) := by
  induction n generalizing isFirst with
  | zero => exact .pure []
  | succ n ih =>
      refine .get_bind fun s => .ite (.pure []) ?_
      refine (reads_comma isFirst).bind_right fun _ => ?_
      refine hitem.bind_right fun x => ?_
      exact (ih false).bind_right fun others => .pure _

theorem reads_separatedFrom {close : TokenKind} {item : ParseM α} (hitem : Reads 1 item)
    (isFirst : Bool) : Reads 0 (separatedFrom close item isFirst) := fun s =>
  reads_separatedUpTo hitem (s.rest.length + 1) isFirst s

theorem reads_separated {close : TokenKind} {item : ParseM α} (hitem : Reads 1 item) :
    Reads 0 (separated close item) := reads_separatedFrom hitem true

/-! ### Expressions -/

theorem reads_literal : Reads 1 literal := by
  rw [literal_eq]
  refine reads_advance.bind_left fun t => ?_
  exact (Reads.ofExcept _).bind_right fun (form, basic) => reads_addExpression _

theorem reads_identifier (scope : ScopeId) : Reads 1 (identifier scope) := by
  refine reads_expectName.bind_left fun (t, name) => .get_bind fun s => ?_
  refine (reads_addExpression _).bind_right fun id => ?_
  exact (reads_deferIf _ _).bind_right fun _ => .pure id

section Parts

variable {part : ScopeId → BindingPower → ParseM ExprId} (hpart : ∀ scope power,
  Reads 1 (part scope power))

include hpart

theorem reads_negation (scope : ScopeId) : Reads 1 (negation part scope) := by
  refine (reads_expect .not).bind_left fun t => ?_
  exact (hpart scope .unary).bind_right fun operand => reads_addExpression _

theorem reads_grouping (scope : ScopeId) : Reads 1 (grouping part scope) := by
  refine (reads_expect .leftParenthesis).discard.bind_left fun _ => ?_
  refine (hpart scope .default).bind_right fun inner => ?_
  exact (reads_expect .rightParenthesis).discard.bind_right fun _ => .pure inner

/-- Every way in which an expression starts takes a token. -/
theorem reads_start (rule : PrefixRule) (scope : ScopeId) : Reads 1 (start part rule scope) := by
  cases rule with
  | literal => exact reads_literal
  | identifier => exact reads_identifier scope
  | negation => exact reads_negation hpart scope
  | grouping => exact reads_grouping hpart scope

theorem reads_binary (scope : ScopeId) (left : ExprId) (power : BindingPower) :
    Reads 1 (binary part scope left power) := by
  refine reads_advance.bind_left fun t => ?_
  split
  · exact .throw _
  · exact (hpart scope power).bind_right fun right => reads_addExpression _

theorem reads_call (scope : ScopeId) (called : ExprId) : Reads 1 (call part scope called) := by
  refine (reads_expect .leftParenthesis).bind_left fun opening => .get_bind fun s => ?_
  split
  · exact .throw _
  · refine (Reads.require _ _).bind_right fun _ => ?_
    refine (reads_separated (hpart scope .default)).bind_right fun arguments => ?_
    refine (reads_expect .rightParenthesis).discard.bind_right fun _ => ?_
    exact reads_addExpression _

/-- Every way in which an expression goes on takes a token. -/
theorem reads_continuation (rule : InfixRule) (scope : ScopeId) (left : ExprId)
    (power : BindingPower) : Reads 1 (continuation part rule scope left power) := by
  cases rule with
  | binary => exact reads_binary hpart scope left power
  | call => exact reads_call hpart scope left

theorem reads_extendUpTo (g : Grammar) (scope : ScopeId) (power : BindingPower) (n : Nat)
    (left : ExprId) : Reads 0 (extendUpTo part g scope power n left) := by
  induction n generalizing left with
  | zero => exact .pure left
  | succ n ih =>
      refine .get_bind fun s => ?_
      split
      · exact .pure left
      · refine .ite ?_ (.pure left)
        exact (reads_continuation hpart _ scope left _).bind_right fun left => ih left

/-- An expression need not go on. -/
theorem reads_extend (g : Grammar) (scope : ScopeId) (power : BindingPower) (left : ExprId) :
    Reads 0 (extend part g scope power left) := fun s =>
  reads_extendUpTo hpart g scope power s.rest.length left s

end Parts

theorem reads_expressionUpTo (g : Grammar) (n : Nat) (scope : ScopeId) (power : BindingPower) :
    Reads 1 (expressionUpTo g n scope power) := by
  induction n generalizing scope power with
  | zero => exact .refuse _
  | succ n ih =>
      refine .get_bind fun s => ?_
      split
      · exact .refuse _
      · exact (reads_start ih _ scope).bind_left fun left => reads_extend ih g scope power left

/-- An expression takes a token. -/
theorem reads_expression (g : Grammar) (scope : ScopeId) (power : BindingPower) :
    Reads 1 (expression g scope power) := fun s =>
  reads_expressionUpTo g s.rest.length scope power s

/-! ### Signatures -/

theorem reads_typeName (scope : ScopeId) : Reads 1 (typeName scope) :=
  reads_expectName.bind_left fun _ => .get_bind fun _ => .pure _

theorem reads_addField (name? : Option String) (type : Reference) (place : Position) :
    Reads 0 (addField name? type place) := by
  refine (reads_addDeclaration _).bind_right fun decl => ?_
  exact (reads_deferIf _ _).bind_right fun _ => .pure _

/-- A parameter takes a token. -/
theorem reads_parameter (scope : ScopeId) : Reads 1 (parameter scope) := by
  refine reads_expectName.bind_left fun (t, name) => ?_
  refine (reads_typeName scope).bind_right fun (type, _) => ?_
  refine (reads_addField _ _ _).bind_right fun field => ?_
  exact (reads_onProgram _).bind_right fun _ => .pure field

theorem reads_parameters (scope : ScopeId) : Reads 1 (parameters scope) := by
  refine (reads_expect .leftParenthesis).discard.bind_left fun _ => ?_
  refine (reads_separated (reads_parameter scope)).bind_right fun fields => ?_
  exact (reads_expect .rightParenthesis).discard.bind_right fun _ => .pure fields

theorem reads_resultField (scope : ScopeId) : Reads 1 (resultField scope) :=
  (reads_typeName scope).bind_left fun _ => reads_addField _ _ _

/-- A function without results has nothing in the place of their types. -/
theorem reads_results (scope : ScopeId) : Reads 0 (results scope) := by
  refine .get_bind fun s => ?_
  split
  · exact (reads_resultField scope).bind_right fun field => .pure _
  · refine reads_advance.discard.bind_right fun _ => ?_
    refine (reads_separated (reads_resultField scope)).bind_right fun fields => ?_
    exact (reads_expect .rightParenthesis).discard.bind_right fun _ => .pure fields
  · exact .pure _

/-! ### Statements -/

theorem reads_declareStatement (scope : ScopeId) : Reads 1 (declareStatement scope) := by
  refine (reads_expect .varWord).bind_left fun first => ?_
  refine reads_expectName.bind_right fun (t, name) => ?_
  refine (reads_typeName scope).bind_right fun (type, _) => ?_
  refine (reads_expect .semicolon).discard.bind_right fun _ => ?_
  refine (reads_addDeclaration _).bind_right fun decl => ?_
  refine (reads_onProgram _).bind_right fun behind => ?_
  refine (reads_addStatement _ _).bind_right fun id => ?_
  exact (reads_deferIf _ _).bind_right fun _ => .pure _

/-- Counting up and down take nothing behind their sign. -/
theorem reads_change (g : Grammar) (scope : ScopeId) (kind : TokenKind) :
    Reads 0 (change g scope kind) := by
  have hvalue : Reads 0 (expression g scope .default) :=
    (reads_expression g scope .default).mono (Nat.zero_le 1)
  unfold change
  split
  · exact hvalue.map _
  · exact hvalue.map _
  · exact hvalue.map _
  · exact .pure _
  · exact .pure _

theorem reads_callStatement (g : Grammar) (scope : ScopeId) :
    Reads 1 (callStatement g scope) := by
  refine .get_bind fun s => ?_
  refine (reads_expression g scope .default).bind_left fun call => .get_bind fun s' => ?_
  exact .ite (reads_addStatement _ _) (.throw _)

theorem reads_changeStatement (g : Grammar) (scope : ScopeId) :
    Reads 1 (changeStatement g scope) := by
  refine .get_bind fun s => reads_expectName.bind_left fun (t, name) => .get_bind fun s' => ?_
  refine (reads_expectOneOf changeTokens).bind_right fun sign => ?_
  refine (reads_change g scope _).bind_right fun change => ?_
  refine (reads_addStatement _ _).bind_right fun id => ?_
  exact (reads_deferIf _ _).bind_right fun _ => .pure id

/-- A simple statement takes a token, whichever of the two it is taken for. -/
theorem reads_simple (g : Grammar) (scope : ScopeId) : Reads 1 (simple g scope) :=
  .get_bind fun _ => .ite (reads_callStatement g scope) (reads_changeStatement g scope)

theorem reads_simpleStatement (g : Grammar) (scope : ScopeId) :
    Reads 1 (simpleStatement g scope) := by
  refine (reads_simple g scope).bind_left fun id => ?_
  exact (reads_expect .semicolon).discard.bind_right fun _ => .pure _

theorem reads_moreValuesUpTo (g : Grammar) (scope : ScopeId) (n : Nat) :
    Reads 0 (moreValuesUpTo g scope n) := by
  induction n with
  | zero => exact .pure []
  | succ n ih =>
      refine .get_bind fun s => .ite ?_ (.pure [])
      refine reads_advance.discard.bind_right fun _ => ?_
      refine (reads_expression g scope .default).bind_right fun value => ?_
      exact ih.bind_right fun others => .pure _

theorem reads_moreValues (g : Grammar) (scope : ScopeId) : Reads 0 (moreValues g scope) := fun s =>
  reads_moreValuesUpTo g scope s.rest.length s

/-- A `return` may have no values. -/
theorem reads_values (g : Grammar) (scope : ScopeId) : Reads 0 (values g scope) := by
  refine .get_bind fun s => .ite (.pure []) ?_
  refine (reads_expression g scope .default).bind_right fun value => ?_
  exact (reads_moreValues g scope).bind_right fun others => .pure _

theorem reads_resultStatement (g : Grammar) (scope : ScopeId) :
    Reads 1 (resultStatement g scope) := by
  refine (reads_expect .returnWord).bind_left fun first => ?_
  refine (reads_values g scope).bind_right fun values => ?_
  refine (reads_expect .semicolon).discard.bind_right fun _ => ?_
  exact (reads_addStatement _ _).bind_right fun id => .pure _

section Lists

variable (g : Grammar) {list : ScopeId → ParseM (List StmtId)} (hlist : ∀ scope,
  Reads 0 (list scope))

include hlist

/-- The braces are taken even if there is nothing in between. -/
theorem reads_braced (scope : ScopeId) : Reads 1 (braced list scope) := by
  refine (reads_expect .leftBrace).discard.bind_left fun _ => ?_
  refine (hlist scope).bind_right fun statements => ?_
  exact (reads_expect .rightBrace).discard.bind_right fun _ => .pure statements

theorem reads_blockOf (scope : ScopeId) : Reads 1 (blockOf list scope) := by
  refine (reads_onProgram _).bind_right fun inner => ?_
  exact (reads_braced hlist inner).bind_left fun statements => .pure _

theorem reads_elseBlock (scope : ScopeId) : Reads 0 (elseBlock list scope) := by
  refine .get_bind fun s => .ite ?_ (.pure none)
  have hblock : Reads 0 (blockOf list scope) := (reads_blockOf hlist scope).mono (Nat.zero_le 1)
  exact reads_advance.discard.bind_right fun _ => hblock.map _

theorem reads_branchStatement (scope : ScopeId) : Reads 1 (branchStatement g list scope) := by
  refine (reads_expect .ifWord).bind_left fun first => ?_
  refine (reads_expression g scope .default).bind_right fun condition => ?_
  refine (reads_blockOf hlist scope).bind_right fun thenBlock => ?_
  refine (reads_elseBlock hlist scope).bind_right fun elseBlock? => ?_
  exact (reads_addStatement _ _).bind_right fun id => .pure _

theorem reads_whileStatement (scope : ScopeId) : Reads 1 (whileStatement g list scope) := by
  refine (reads_expect .whileWord).bind_left fun first => ?_
  refine (reads_expression g scope .default).bind_right fun condition => ?_
  refine (reads_blockOf hlist scope).bind_right fun body => ?_
  exact (reads_addStatement _ _).bind_right fun id => .pure _

omit hlist in
/-- A part of the head of a counted repetition may be left out. -/
theorem reads_simpleUnless (kind : TokenKind) (scope : ScopeId) :
    Reads 0 (simpleUnless g kind scope) := by
  have hsimple : Reads 0 (simple g scope) := (reads_simple g scope).mono (Nat.zero_le 1)
  exact .get_bind fun s => .ite (.pure none) (hsimple.map _)

theorem reads_forStatement (scope : ScopeId) : Reads 1 (forStatement g list scope) := by
  refine (reads_expect .forWord).bind_left fun first => ?_
  refine (reads_simpleUnless g .semicolon scope).bind_right fun init? => ?_
  refine (reads_expect .semicolon).discard.bind_right fun _ => ?_
  refine (reads_expression g scope .default).bind_right fun condition => ?_
  refine (reads_expect .semicolon).discard.bind_right fun _ => ?_
  refine (reads_simpleUnless g .leftBrace scope).bind_right fun action? => ?_
  refine (reads_blockOf hlist scope).bind_right fun body => ?_
  exact (reads_addStatement _ _).bind_right fun id => .pure _

/-- Whatever the rule, a statement takes a token if its lists are taken from the front. -/
theorem reads_statementOf (scope : ScopeId) : Reads 1 (statementOf g list scope) := by
  refine .get_bind fun s => ?_
  split
  · exact .refuse _
  · exact reads_declareStatement scope
  · exact reads_simpleStatement g scope
  · exact reads_branchStatement g hlist scope
  · exact reads_whileStatement g hlist scope
  · exact reads_forStatement g hlist scope
  · exact reads_resultStatement g scope

end Lists

theorem reads_statementsUpTo (g : Grammar) (n : Nat) (closed : Bool) (scope : ScopeId) :
    Reads 0 (statementsUpTo g n closed scope) := by
  induction n generalizing closed scope with
  | zero => exact .refuse _
  | succ n ih =>
      refine .get_bind fun s => ?_
      split
      · exact .refuse _
      · refine .ite (.pure []) ((Reads.require _ _).bind_right fun _ => ?_)
        refine (reads_statementOf g (ih false) scope).bind_right fun (id, behind) => ?_
        exact .get_bind fun s' => (ih _ _).bind_right fun others => .pure _

theorem reads_statementsFrom (g : Grammar) (closed : Bool) (scope : ScopeId) :
    Reads 0 (statementsFrom g closed scope) := fun s =>
  reads_statementsUpTo g s.rest.length closed scope s

theorem reads_statements (g : Grammar) (scope : ScopeId) : Reads 0 (statements g scope) :=
  reads_statementsFrom g false scope

/-- A statement takes a token. -/
theorem reads_statement (g : Grammar) (scope : ScopeId) : Reads 1 (statement g scope) :=
  reads_statementOf g (reads_statements g) scope

/-- A block takes a token. -/
theorem reads_block (g : Grammar) (scope : ScopeId) : Reads 1 (block g scope) :=
  reads_blockOf (reads_statements g) scope

/-! ### Functions -/

theorem reads_functionRest (g : Grammar) (scope : ScopeId) : Reads 1 (functionRest g scope) := by
  refine reads_expectName.bind_left fun (t, name) => ?_
  refine (reads_onProgram _).bind_right fun inner => ?_
  refine (reads_parameters inner).bind_right fun parameters => ?_
  refine (reads_results inner).bind_right fun results => ?_
  refine (reads_addDeclaration _).bind_right fun decl => ?_
  refine (reads_onProgram _).bind_right fun _ => ?_
  refine (reads_braced (reads_statements g) inner).bind_right fun body => ?_
  exact .bind_right (.onState fun _ => by rfl) fun _ => .pure decl

/-- A function takes a token. -/
theorem reads_function (g : Grammar) (scope : ScopeId) : Reads 1 (function g scope) := by
  refine (reads_expect .funcWord).bind_left fun first => ?_
  exact (reads_within _ (reads_functionRest g scope)).mono (Nat.zero_le 1)

theorem reads_functionsUpTo (g : Grammar) (n : Nat) : Reads 0 (functionsUpTo g n) := by
  induction n with
  | zero => exact .pure ()
  | succ n ih =>
      refine .get_bind fun s => ?_
      split
      · exact .pure ()
      · refine .ite ((reads_function g .file).bind_right fun decl => ?_) (.refuse _)
        exact .bind_right (.onState fun _ => by rfl) fun _ => ih

/-- A file is read from the front. -/
theorem reads_file (g : Grammar) : Reads 0 (file g) := fun s =>
  reads_functionsUpTo g s.rest.length s

end FrontEnd.Parser
