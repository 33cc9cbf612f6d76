/-
**Reading only appends.**

All parts of the parser work on one program, and each may stop at any token.  Whatever they have
added by then stays, and what was there before is as it was.  This is said by relations between the
state before and the state that is left, on success and on failure alike.  Each of them holds where
only tokens are taken, and one step can be put after the other; so it is shown of the single steps
and follows for all that is made of them.

A function is the one part that changes what it has added itself: it is declared before its body is
read, and gets the body afterwards.

Main definitions:

* `FrontEnd.Parser.IsFrame`, `FrontEnd.Parser.IsBuilding` — relations that can be put together in
  this way, and those that allow for the steps that build something;
* `FrontEnd.Parser.Leaves` — computations that leave a related state;
* `FrontEnd.Parser.OnlyAppends` — what each part of the parser adds.

Main results:

* `FrontEnd.Parser.leaves_expression` — an expression adds expressions;
* `FrontEnd.Parser.appends_parameters` — parameters add names to their own scope only;
* `FrontEnd.Parser.appends_statement`, `FrontEnd.Parser.appends_statements`,
  `FrontEnd.Parser.appends_block` — statements add no name to a scope that was there;
* `FrontEnd.Parser.leaves_function` — a function adds its own name and no other;
* `FrontEnd.Parser.onlyAppends` — **reading only appends, also when it fails**.
-/

import FrontEnd.Parser.File
import FrontEnd.Proofs.Parts
import FrontEnd.Proofs.Reading.Kept

set_option relaxedAutoImplicit false
set_option autoImplicit false

namespace FrontEnd.Parser

open Run

open ScopeTree (nowhere)

variable {α β : Type} {R : Parser → Parser → Prop} {may : ScopeId → Prop} {s s' : Parser}

/-! ### Relations between states -/

/-- The relation holds where nothing but tokens is taken, and one step can follow another. -/
class IsFrame (R : Parser → Parser → Prop) : Prop where
  of_eq : ∀ {s s'}, s'.program = s.program → s'.deferred = s.deferred → R s s'
  trans : ∀ {s s' s''}, R s s' → R s' s'' → R s s''

instance : IsFrame (Appends may) := ⟨.of_eq, .trans⟩

instance : IsFrame AddsExpressions := ⟨.of_eq, .trans⟩

/-- Whether the computation succeeds or fails, it leaves a state that is related to the first. -/
def Leaves (R : Parser → Parser → Prop) (m : ParseM α) : Prop := ∀ s, R s (left (m s))

/-- What is left of a sequence is left by its first step, or by the others behind it. -/
theorem left_bind {P : Parser → Prop} {m : ParseM α} {f : α → ParseM β} (hm : P (left (m s)))
    (hf : ∀ a s', m s = .ok a s' → P s' → P (left (f a s'))) : P (left ((m >>= f) s)) := by
  cases h : m s with
  | ok a s' =>
      rw [bind_of_ok h]
      rw [h] at hm
      exact hf a s' h hm
  | error e s' =>
      rw [bind_of_error h]
      rwa [h] at hm

namespace Leaves

/-- What a success leaves is related to the first state too. -/
theorem of_ok {m : ParseM α} {a : α} (h : Leaves R m) (hm : m s = .ok a s') : R s s' := by
  have hs := h s
  rwa [hm] at hs

theorem imp {R' : Parser → Parser → Prop} {m : ParseM α} (h : Leaves R m)
    (himp : ∀ {s s'}, R s s' → R' s s') : Leaves R' m := fun s => himp (h s)

variable [IsFrame R]

/-- One step follows another. -/
theorem bind {m : ParseM α} {f : α → ParseM β} (hm : Leaves R m) (hf : ∀ a, Leaves R (f a)) :
    Leaves R (m >>= f) := by
  intro s
  refine left_bind (hm s) fun a s' _ h => ?_
  exact IsFrame.trans h (hf a s')

theorem pure (a : α) : Leaves R (Pure.pure a : ParseM α) := fun _ => IsFrame.of_eq rfl rfl

theorem throw (e : Error) : Leaves R (MonadExcept.throw e : ParseM α) := fun _ =>
  IsFrame.of_eq rfl rfl

theorem refuse (expected : String) : Leaves R (Parser.refuse expected : ParseM α) := fun _ =>
  IsFrame.of_eq rfl rfl

omit [IsFrame R] in
/-- Looking at the state before going on. -/
theorem get_bind {f : Parser → ParseM α} (hf : ∀ s, Leaves R (f s)) :
    Leaves R (MonadState.get >>= f) := fun s => hf s s

theorem map {m : ParseM α} (f : α → β) (hm : Leaves R m) : Leaves R (f <$> m) := by
  rw [← bind_pure_comp]
  exact hm.bind fun a => pure (f a)

theorem discard {m : ParseM α} (hm : Leaves R m) : Leaves R (discard m) := hm.map _

omit [IsFrame R] in
/-- Either way of a choice. -/
theorem ite {c : Prop} [Decidable c] {m m' : ParseM α} (hm : Leaves R m) (hm' : Leaves R m') :
    Leaves R (if c then m else m') := by
  split
  · exact hm
  · exact hm'

theorem require (c : Prop) [Decidable c] (e : Error) :
    Leaves R (FrontEnd.require c e : ParseM Unit) := ite (pure ()) (throw e)

theorem ofExcept (x : Except Error α) : Leaves R (MonadExcept.ofExcept x : ParseM α) := by
  cases x with
  | ok a => exact pure a
  | error e => exact throw e

end Leaves

/-! ### Tokens -/

section Tokens

variable [IsFrame R]

/-- Taking a token touches neither the program nor the places of pending references. -/
theorem leaves_advance : Leaves R advance := by
  intro s
  unfold advance
  cases s.rest with
  | nil => exact IsFrame.of_eq rfl rfl
  | cons t rest => exact IsFrame.of_eq rfl rfl

/-- Taking a token of one of some kinds leaves all but the tokens, and so does refusing one. -/
theorem leaves_expectOneOf (kinds : List TokenKind) : Leaves R (expectOneOf kinds) := by
  intro s
  unfold expectOneOf
  cases s.rest with
  | nil => exact IsFrame.of_eq rfl rfl
  | cons t rest =>
      dsimp only
      split
      · exact IsFrame.of_eq rfl rfl
      · exact IsFrame.of_eq rfl rfl

theorem leaves_expect (kind : TokenKind) : Leaves R (expect kind) := leaves_expectOneOf [kind]

theorem leaves_expectName : Leaves R expectName := by
  refine (leaves_expect .identifier).bind fun t => ?_
  exact (Leaves.ofExcept t.identifier).bind fun name => .pure _

theorem leaves_comma (isFirst : Bool) : Leaves R (comma isFirst) :=
  .ite (.pure ()) (leaves_expect .comma).discard

/-- A list leaves what its items leave. -/
theorem leaves_separatedUpTo {close : TokenKind} {item : ParseM α} (hitem : Leaves R item) (n : Nat)
    (isFirst : Bool) : Leaves R (separatedUpTo close item n isFirst) := by
  induction n generalizing isFirst with
  | zero => exact .pure []
  | succ n ih =>
      refine .get_bind fun s => .ite (.pure []) ((leaves_comma isFirst).bind fun _ => ?_)
      exact hitem.bind fun x => (ih false).bind fun others => .pure _

theorem leaves_separated {close : TokenKind} {item : ParseM α} (hitem : Leaves R item) :
    Leaves R (separated close item) := fun s => leaves_separatedUpTo hitem _ true s

end Tokens

/-! ### Expressions -/

/-- Expressions are added behind those that are there. -/
theorem leaves_addExpression (e : Expression) : Leaves AddsExpressions (addExpression e) := by
  intro s
  exact ⟨rfl, fun id old hold => Program.expression?_add_of_some hold e, rfl, rfl, rfl, rfl,
    List.prefix_refl _, rfl⟩

/-- A pending name is listed behind those that are listed. -/
theorem leaves_deferIdentifier (ref : Reference) (id : ExprId) :
    Leaves AddsExpressions (deferIf ref (·.addIdentifier id)) := by
  intro s
  unfold deferIf
  cases ref with
  | resolved decl => exact .of_eq rfl rfl
  | pending name scope place =>
      exact ⟨rfl, fun _ _ h => h, rfl, rfl, rfl, rfl, List.prefix_append _ _, rfl⟩

theorem leaves_literal : Leaves AddsExpressions literal := by
  rw [literal_eq]
  refine leaves_advance.bind fun t => ?_
  exact (Leaves.ofExcept _).bind fun (form, basic) => leaves_addExpression _

theorem leaves_identifier (scope : ScopeId) : Leaves AddsExpressions (identifier scope) := by
  refine leaves_expectName.bind fun (t, name) => .get_bind fun s => ?_
  refine (leaves_addExpression _).bind fun id => ?_
  exact (leaves_deferIdentifier _ id).bind fun _ => .pure id

section Parts

variable {part : ScopeId → BindingPower → ParseM ExprId} (hpart : ∀ scope power,
  Leaves AddsExpressions (part scope power))

include hpart

theorem leaves_negation (scope : ScopeId) : Leaves AddsExpressions (negation part scope) := by
  refine (leaves_expect .not).bind fun t => ?_
  exact (hpart scope .unary).bind fun operand => leaves_addExpression _

theorem leaves_grouping (scope : ScopeId) : Leaves AddsExpressions (grouping part scope) := by
  refine (leaves_expect .leftParenthesis).discard.bind fun _ => ?_
  refine (hpart scope .default).bind fun inner => ?_
  exact (leaves_expect .rightParenthesis).discard.bind fun _ => .pure inner

/-- Every way in which an expression starts adds expressions, if its parts do. -/
theorem leaves_start (rule : PrefixRule) (scope : ScopeId) :
    Leaves AddsExpressions (start part rule scope) := by
  cases rule with
  | literal => exact leaves_literal
  | identifier => exact leaves_identifier scope
  | negation => exact leaves_negation hpart scope
  | grouping => exact leaves_grouping hpart scope

theorem leaves_binary (scope : ScopeId) (left : ExprId) (power : BindingPower) :
    Leaves AddsExpressions (binary part scope left power) := by
  refine leaves_advance.bind fun t => ?_
  split
  · exact .throw _
  · exact (hpart scope power).bind fun right => leaves_addExpression _

theorem leaves_call (scope : ScopeId) (called : ExprId) :
    Leaves AddsExpressions (call part scope called) := by
  refine (leaves_expect .leftParenthesis).bind fun opening => .get_bind fun s => ?_
  split
  · exact .throw _
  · refine (Leaves.require _ _).bind fun _ => ?_
    refine (leaves_separated (hpart scope .default)).bind fun arguments => ?_
    exact (leaves_expect .rightParenthesis).discard.bind fun _ => leaves_addExpression _

/-- Every way in which an expression goes on adds expressions, if its parts do. -/
theorem leaves_continuation (rule : InfixRule) (scope : ScopeId) (left : ExprId)
    (power : BindingPower) :
    Leaves AddsExpressions (continuation part rule scope left power) := by
  cases rule with
  | binary => exact leaves_binary hpart scope left power
  | call => exact leaves_call hpart scope left

theorem leaves_extendUpTo (g : Grammar) (scope : ScopeId) (power : BindingPower) (n : Nat)
    (left : ExprId) : Leaves AddsExpressions (extendUpTo part g scope power n left) := by
  induction n generalizing left with
  | zero => exact .pure left
  | succ n ih =>
      refine .get_bind fun s => ?_
      split
      · exact .pure left
      · exact .ite ((leaves_continuation hpart _ scope left _).bind fun left => ih left)
          (.pure left)

end Parts

theorem leaves_expressionUpTo (g : Grammar) (n : Nat) (scope : ScopeId) (power : BindingPower) :
    Leaves AddsExpressions (expressionUpTo g n scope power) := by
  induction n generalizing scope power with
  | zero => exact .refuse _
  | succ n ih =>
      refine .get_bind fun s => ?_
      split
      · exact .refuse _
      · refine (leaves_start ih _ scope).bind fun left s' => ?_
        exact leaves_extendUpTo ih g scope power _ left s'

/-- **An expression adds expressions**, and changes no scope. -/
theorem leaves_expression (g : Grammar) (scope : ScopeId) (power : BindingPower) :
    Leaves AddsExpressions (expression g scope power) := fun s =>
  leaves_expressionUpTo g _ scope power s

theorem leaves_change (g : Grammar) (scope : ScopeId) (kind : TokenKind) :
    Leaves AddsExpressions (change g scope kind) := by
  have hvalue := leaves_expression g scope .default
  unfold change
  split
  · exact hvalue.map _
  · exact hvalue.map _
  · exact hvalue.map _
  · exact .pure _
  · exact .pure _

theorem leaves_moreValuesUpTo (g : Grammar) (scope : ScopeId) (n : Nat) :
    Leaves AddsExpressions (moreValuesUpTo g scope n) := by
  induction n with
  | zero => exact .pure []
  | succ n ih =>
      refine .get_bind fun s => .ite ?_ (.pure [])
      refine leaves_advance.discard.bind fun _ => ?_
      refine (leaves_expression g scope .default).bind fun value => ?_
      exact ih.bind fun others => .pure _

/-- The values of a `return` are expressions. -/
theorem leaves_values (g : Grammar) (scope : ScopeId) :
    Leaves AddsExpressions (values g scope) := by
  refine .get_bind fun _ => .ite (.pure []) ?_
  refine (leaves_expression g scope .default).bind fun value => ?_
  exact Leaves.bind (fun s => leaves_moreValuesUpTo g scope _ s) fun others => .pure _

/-! ### Steps that build something -/

/-- The relation also holds where a variable, an expression or a statement without parts is added,
where a reference is noted as pending, and where a scope is made or extended. -/
class IsBuilding (R : Parser → Parser → Prop) : Prop extends IsFrame R where
  of_expressions : ∀ {s s'}, AddsExpressions s s' → R s s'
  addVariable : ∀ v, Leaves R (addDeclaration (.var v))
  addStatement : ∀ form place, form.parts = [] → Leaves R (addStatement form place)
  deferField : ∀ ref decl, Leaves R (deferIf ref (·.addField decl))
  deferStatement : ∀ ref id, Leaves R (deferIf ref (·.addStatement id))
  newScope : ∀ kind parent, Leaves R (onProgram (Program.newScope kind parent))
  extend : ∀ scope name decl place, Leaves R (onProgram (Program.extend scope name decl place))

/-- What adds expressions only builds something. -/
theorem Leaves.building [IsBuilding R] {m : ParseM α} (h : Leaves AddsExpressions m) : Leaves R m :=
  h.imp IsBuilding.of_expressions

/-- Declarations are added behind those that are there. -/
theorem appends_addDeclaration (d : Declaration) : Leaves (Appends may) (addDeclaration d) := by
  intro s
  exact ⟨fun id old hold => Program.declaration?_add_of_some hold d, fun _ _ h => h,
    fun _ _ h => h, rfl, List.prefix_refl _, List.prefix_refl _, List.prefix_refl _, .refl may _⟩

/-- Statements are added behind those that are there. -/
theorem appends_addStatement (form : StmtForm) (place : Position) :
    Leaves (Appends may) (addStatement form place) := by
  intro s
  exact ⟨fun _ _ h => h, fun _ _ h => h,
    fun id old hold => Program.statement?_add_of_some hold ⟨form, place⟩, rfl,
    List.prefix_refl _, List.prefix_refl _, List.prefix_refl _, .refl may _⟩

/-- Noting the place of a pending reference behind the earlier ones. -/
theorem appends_deferIf (ref : Reference) {change : Deferred → Deferred}
    (hfields : ∀ d, d.fields <+: (change d).fields)
    (hidentifiers : ∀ d, d.identifiers <+: (change d).identifiers)
    (htargets : ∀ d, d.statements <+: (change d).statements) :
    Leaves (Appends may) (deferIf ref change) := by
  intro s
  unfold deferIf
  cases ref with
  | resolved decl => exact .of_eq rfl rfl
  | pending name scope place =>
      exact ⟨fun _ _ h => h, fun _ _ h => h, fun _ _ h => h, rfl, hfields _, hidentifiers _,
        htargets _, .refl may _⟩

/-- A change of the scopes alone. -/
theorem Appends.onScopes {scopes : ScopeTree} (h : s.program.scopes.Retains may scopes) :
    Appends may s { s with program := { s.program with scopes } } :=
  ⟨fun _ _ h => h, fun _ _ h => h, fun _ _ h => h, rfl, List.prefix_refl _, List.prefix_refl _,
    List.prefix_refl _, h⟩

/-- The variable is declared in a copy of the scope, which stays if the variable is refused. -/
theorem appends_extend (scope : ScopeId) (name : String) (decl : DeclId) (place : Position) :
    Leaves (Appends nowhere) (onProgram (Program.extend scope name decl place)) := by
  intro s
  have hretains := ScopeTree.retains_extend scope name decl place s.program.scopes
  unfold onProgram Program.extend
  cases h : ScopeTree.extend scope name decl place s.program.scopes with
  | error e scopes =>
      rw [h] at hretains
      exact .onScopes hretains
  | ok id scopes =>
      rw [h] at hretains
      exact .onScopes hretains

instance : IsBuilding (Appends may) where
  of_expressions h := h.appends
  addVariable v := appends_addDeclaration (.var v)
  addStatement form place _ := appends_addStatement form place
  deferField ref _ := appends_deferIf ref (fun _ => List.prefix_append _ _)
    (fun _ => List.prefix_refl _) fun _ => List.prefix_refl _
  deferStatement ref _ := appends_deferIf ref (fun _ => List.prefix_refl _)
    (fun _ => List.prefix_refl _) fun _ => List.prefix_append _ _
  newScope _ _ _ := .onScopes ((ScopeTree.retains_push _ _).mono fun _ hid => hid.elim)
  extend scope name decl place :=
    (appends_extend scope name decl place).imp fun h => h.mono fun _ hid => hid.elim

/-- A name that is declared is added to its scope; one that is refused is not. -/
theorem appends_declare (scope : ScopeId) (kind : DeclKind) (name : String) (decl : DeclId)
    (place : Position) :
    Leaves (Appends (· = scope)) (onProgram (Program.declare scope kind name decl place)) := by
  intro s
  unfold onProgram Program.declare
  cases h : s.program.scopes.declare scope kind name decl place with
  | error e => exact .of_eq rfl rfl
  | ok scopes => exact .onScopes (ScopeTree.retains_declare h)

section Building

variable [IsBuilding R] (g : Grammar) (scope : ScopeId)

/-! ### Signatures -/

omit [IsBuilding R] in
theorem leaves_typeName [IsFrame R] : Leaves R (typeName scope) :=
  leaves_expectName.bind fun _ => .get_bind fun _ => .pure _

theorem leaves_addField (name? : Option String) (type : Reference) (place : Position) :
    Leaves R (addField name? type place) := by
  refine (IsBuilding.addVariable _).bind fun decl => ?_
  exact (IsBuilding.deferField type decl).bind fun _ => .pure _

/-- Parameters, where their names may be declared. -/
theorem leaves_parameters (hdeclare : ∀ name decl place,
    Leaves R (onProgram (Program.declare scope .var name decl place))) :
    Leaves R (parameters scope) := by
  have hparameter : Leaves R (parameter scope) := by
    refine leaves_expectName.bind fun (t, name) => ?_
    refine (leaves_typeName scope).bind fun (type, _) => ?_
    refine (leaves_addField _ _ _).bind fun field => ?_
    exact (hdeclare _ _ _).bind fun _ => .pure field
  refine (leaves_expect .leftParenthesis).discard.bind fun _ => ?_
  refine (leaves_separated hparameter).bind fun fields => ?_
  exact (leaves_expect .rightParenthesis).discard.bind fun _ => .pure fields

/-- Results have no names, so no scope gets any. -/
theorem leaves_results : Leaves R (results scope) := by
  have hfield : Leaves R (resultField scope) :=
    (leaves_typeName scope).bind fun _ => leaves_addField _ _ _
  refine .get_bind fun s => ?_
  split
  · exact hfield.bind fun field => .pure _
  · refine leaves_advance.discard.bind fun _ => ?_
    refine (leaves_separated hfield).bind fun fields => ?_
    exact (leaves_expect .rightParenthesis).discard.bind fun _ => .pure fields
  · exact .pure _

/-! ### Statements without blocks -/

/-- The declaration of a variable extends the scope. -/
theorem leaves_declareStatement : Leaves R (declareStatement scope) := by
  refine (leaves_expect .varWord).bind fun first => ?_
  refine leaves_expectName.bind fun (t, name) => ?_
  refine (leaves_typeName scope).bind fun (type, _) => ?_
  refine (leaves_expect .semicolon).discard.bind fun _ => ?_
  refine (IsBuilding.addVariable _).bind fun decl => ?_
  refine (IsBuilding.extend scope name decl t.position).bind fun behind => ?_
  refine (IsBuilding.addStatement _ _ rfl).bind fun id => ?_
  exact (IsBuilding.deferStatement type id).bind fun _ => .pure _

theorem leaves_callStatement : Leaves R (callStatement g scope) := by
  refine .get_bind fun s => ?_
  refine (leaves_expression g scope .default).building.bind fun call => .get_bind fun s' => ?_
  exact .ite (IsBuilding.addStatement _ _ rfl) (.throw _)

theorem leaves_changeStatement : Leaves R (changeStatement g scope) := by
  refine .get_bind fun s => leaves_expectName.bind fun (t, name) => .get_bind fun s' => ?_
  refine (leaves_expectOneOf changeTokens).bind fun sign => ?_
  refine (leaves_change g scope sign.kind).building.bind fun change => ?_
  refine (IsBuilding.addStatement _ _ rfl).bind fun id => ?_
  exact (IsBuilding.deferStatement _ id).bind fun _ => .pure id

/-- A simple statement adds itself and its expressions. -/
theorem leaves_simple : Leaves R (simple g scope) :=
  .get_bind fun _ => .ite (leaves_callStatement g scope) (leaves_changeStatement g scope)

theorem leaves_simpleStatement : Leaves R (simpleStatement g scope) := by
  refine (leaves_simple g scope).bind fun id => ?_
  exact (leaves_expect .semicolon).discard.bind fun _ => .pure _

theorem leaves_resultStatement : Leaves R (resultStatement g scope) := by
  refine (leaves_expect .returnWord).bind fun first => ?_
  refine (leaves_values g scope).building.bind fun values => ?_
  refine (leaves_expect .semicolon).discard.bind fun _ => ?_
  exact (IsBuilding.addStatement _ _ rfl).bind fun id => .pure _

theorem leaves_simpleUnless (kind : TokenKind) : Leaves R (simpleUnless g kind scope) :=
  .get_bind fun _ => .ite (.pure none) ((leaves_simple g scope).map _)

end Building

/-- **Parameters add names to their own scope only.** -/
theorem appends_parameters (scope : ScopeId) : Leaves (Appends (· = scope)) (parameters scope) :=
  leaves_parameters scope fun name decl place => appends_declare scope .var name decl place

/-! ### Statements with blocks -/

section Lists

variable (g : Grammar) {list : ScopeId → ParseM (List StmtId)} (hlist : ∀ scope,
  Leaves (Appends nowhere) (list scope))

include hlist

theorem appends_braced (scope : ScopeId) : Leaves (Appends nowhere) (braced list scope) := by
  refine (leaves_expect .leftBrace).discard.bind fun _ => ?_
  refine (hlist scope).bind fun statements => ?_
  exact (leaves_expect .rightBrace).discard.bind fun _ => .pure statements

/-- A block has a new scope, so its names are added to none that was there. -/
theorem appends_blockOf (scope : ScopeId) : Leaves (Appends nowhere) (blockOf list scope) := by
  refine (IsBuilding.newScope .block scope).bind fun inner => ?_
  exact (appends_braced hlist inner).bind fun statements => .pure _

theorem appends_elseBlock (scope : ScopeId) :
    Leaves (Appends nowhere) (elseBlock list scope) := by
  refine .get_bind fun s => .ite ?_ (.pure none)
  exact leaves_advance.discard.bind fun _ => (appends_blockOf hlist scope).map _

theorem appends_branchStatement (scope : ScopeId) :
    Leaves (Appends nowhere) (branchStatement g list scope) := by
  refine (leaves_expect .ifWord).bind fun first => ?_
  refine (leaves_expression g scope .default).building.bind fun condition => ?_
  refine (appends_blockOf hlist scope).bind fun thenBlock => ?_
  refine (appends_elseBlock hlist scope).bind fun elseBlock? => ?_
  exact (appends_addStatement _ _).bind fun id => .pure _

theorem appends_whileStatement (scope : ScopeId) :
    Leaves (Appends nowhere) (whileStatement g list scope) := by
  refine (leaves_expect .whileWord).bind fun first => ?_
  refine (leaves_expression g scope .default).building.bind fun condition => ?_
  refine (appends_blockOf hlist scope).bind fun body => ?_
  exact (appends_addStatement _ _).bind fun id => .pure _

theorem appends_forStatement (scope : ScopeId) :
    Leaves (Appends nowhere) (forStatement g list scope) := by
  refine (leaves_expect .forWord).bind fun first => ?_
  refine (leaves_simpleUnless g scope .semicolon).bind fun init? => ?_
  refine (leaves_expect .semicolon).discard.bind fun _ => ?_
  refine (leaves_expression g scope .default).building.bind fun condition => ?_
  refine (leaves_expect .semicolon).discard.bind fun _ => ?_
  refine (leaves_simpleUnless g scope .leftBrace).bind fun action? => ?_
  refine (appends_blockOf hlist scope).bind fun body => ?_
  exact (appends_addStatement _ _).bind fun id => .pure _

/-- Whatever the rule, a statement adds no name to a scope that was there, if its lists do not. -/
theorem appends_statementOf (scope : ScopeId) :
    Leaves (Appends nowhere) (statementOf g list scope) := by
  refine .get_bind fun s => ?_
  split
  · exact .refuse _
  · exact leaves_declareStatement scope
  · exact leaves_simpleStatement g scope
  · exact appends_branchStatement g hlist scope
  · exact appends_whileStatement g hlist scope
  · exact appends_forStatement g hlist scope
  · exact leaves_resultStatement g scope

end Lists

theorem appends_statementsUpTo (g : Grammar) (n : Nat) (closed : Bool) (scope : ScopeId) :
    Leaves (Appends nowhere) (statementsUpTo g n closed scope) := by
  induction n generalizing closed scope with
  | zero => exact .refuse _
  | succ n ih =>
      refine .get_bind fun s => ?_
      split
      · exact .refuse _
      · refine .ite (.pure []) ((Leaves.require _ _).bind fun _ => ?_)
        refine (appends_statementOf g (ih false) scope).bind fun (id, behind) => ?_
        exact .get_bind fun s' => (ih _ _).bind fun others => .pure _

/-- **Statements add no name to a scope that was there**, however deep their blocks are. -/
theorem appends_statements (g : Grammar) (scope : ScopeId) :
    Leaves (Appends nowhere) (statements g scope) := fun s =>
  appends_statementsUpTo g _ false scope s

theorem appends_statement (g : Grammar) (scope : ScopeId) :
    Leaves (Appends nowhere) (statement g scope) :=
  appends_statementOf g (appends_statements g) scope

theorem appends_block (g : Grammar) (scope : ScopeId) :
    Leaves (Appends nowhere) (block g scope) := appends_blockOf (appends_statements g) scope

/-! ### Functions -/

/-- Naming the context of a failure changes nothing about what is left. -/
theorem left_within (context : String) (m : ParseM α) (s : Parser) :
    left (within context m s) = left (m s) := by
  unfold within
  cases m s <;> rfl

/-- A new declaration may still be changed. -/
theorem DeclaresFunction.setBody {scope : ScopeId} {decl : DeclId} (h : DeclaresFunction scope s s')
    (hfresh : s.program.declaration? decl = none) (body : List StmtId) :
    DeclaresFunction scope s { s' with program := s'.program.setBody decl body } := by
  refine ⟨{ h.appends with declarations := fun id d hd => ?_ }, fun old new hold hnew => ?_⟩
  · change (s'.program.setBody decl body).declaration? id = some d
    rw [Program.setBody, Program.declaration?_modifyDeclaration, if_neg]
    · exact h.appends.declarations id d hd
    · rintro rfl
      rw [hfresh] at hd
      cases hd
  · rcases h.binding old new hold hnew with hnone | ⟨func, f, place, hnew', hfunc, hbindings⟩
    · exact .inl hnone
    · refine .inr ⟨func, if decl = func then { f with body } else f, place, hnew', ?_, ?_⟩
      · change (s'.program.setBody decl body).declaration? func = _
        rw [Program.setBody, Program.declaration?_modifyDeclaration, hfunc]
        split <;> rfl
      · rw [hbindings]
        split <;> rfl

/-- Declaring a new function adds its name to the scope, unless the name is refused. -/
theorem DeclaresFunction.of_declare {decl : DeclId} {f : Function} (h : Appends nowhere s s')
    (hfresh : s.program.declaration? decl = none)
    (hfunction : s'.program.declaration? decl = some (.func f)) (scope : ScopeId)
    (place : Position) :
    DeclaresFunction scope s
      (left (onProgram (Program.declare scope .func f.name decl place) s')) := by
  unfold onProgram Program.declare
  cases hdeclare : s'.program.scopes.declare scope .func f.name decl place with
  | error e => exact .of_appends h
  | ok scopes =>
      have hscopes : Appends (· = scope) s' _ := .onScopes (ScopeTree.retains_declare hdeclare)
      refine ⟨(h.mono fun _ hid => hid.elim).trans hscopes, fun old new hold hnew => ?_⟩
      obtain ⟨mid, hmid, -, hsame⟩ := h.scopes scope old hold
      refine .inr ⟨decl, f, place, hfresh, hfunction, ?_⟩
      rw [ScopeTree.bindings_declare hdeclare hmid hnew, hsame not_false]

/-- What was just added is found under its number. -/
theorem declaration?_of_add {d : Declaration} {decl : DeclId}
    (h : addDeclaration d s = .ok decl s') : s'.program.declaration? decl = some d := by
  cases h
  exact (Program.declaration?_addDeclaration _ _ _).trans (if_pos rfl)

/-- The scope of the parameters is new, so their names are added to no scope that was there. -/
theorem appends_inner {scope inner : ScopeId} {s₁ : Parser}
    (hinner : onProgram (Program.newScope .function scope) s = .ok inner s₁)
    (h : Appends (· = inner) s₁ s') : Appends nowhere s s' := by
  have hscope : Appends nowhere s s₁ := Leaves.of_ok (IsBuilding.newScope .function scope) hinner
  refine hscope.trans_of h fun id old hold hid => ?_
  cases hinner
  subst hid
  exact absurd (ScopeTree.index_lt_size_of_scope? hold) (Nat.lt_irrefl _)

/-- A step that adds no name, on the way to the declaration of the function. -/
theorem left_bind_appends {scope : ScopeId} {s₁ : Parser} {m : ParseM α} {f : α → ParseM β}
    (h : Appends nowhere s s₁) (hm : Leaves (Appends nowhere) m)
    (hf : ∀ a s₂, m s₁ = .ok a s₂ → Appends nowhere s s₂ →
      DeclaresFunction scope s (left (f a s₂))) :
    DeclaresFunction scope s (left ((m >>= f) s₁)) :=
  left_bind (.of_appends (h.trans (hm s₁))) fun a s₂ hok _ => hf a s₂ hok (h.trans (hm.of_ok hok))

/-- Behind its first word a function is added step by step, and only one step adds a name to a scope
that was there. -/
theorem declaresFunction_functionRest (g : Grammar) (scope : ScopeId) {s₀ : Parser}
    (h₀ : Appends nowhere s s₀) : DeclaresFunction scope s (left (functionRest g scope s₀)) := by
  refine left_bind_appends h₀ leaves_expectName fun named s₁ _ h₁ => ?_
  obtain ⟨t, name⟩ := named
  refine left_bind_appends h₁ (IsBuilding.newScope .function scope) fun inner s₂ hinner _ => ?_
  have hparameters : ∀ {s₃}, Appends (· = inner) s₂ s₃ → Appends nowhere s s₃ := fun h =>
    h₁.trans (appends_inner hinner h)
  refine left_bind (.of_appends (hparameters (appends_parameters inner s₂)))
    fun fields s₃ hok _ => ?_
  have h₃ := hparameters ((appends_parameters inner).of_ok hok)
  refine left_bind_appends h₃ (leaves_results inner) fun types s₄ _ h₄ => ?_
  refine left_bind_appends h₄ (appends_addDeclaration _) fun decl s₅ hadd h₅ => ?_
  have hfresh : s.program.declaration? decl = none := by
    cases hadd
    exact h₄.declaration?_nextDecl
  -- From here on the function is declared, and its body adds no name to a scope that was there.
  have hdeclares := DeclaresFunction.of_declare h₅ hfresh (declaration?_of_add hadd) scope
    t.position
  refine left_bind hdeclares fun _ s₆ _ h₆ => ?_
  have hbody := h₆.trans (appends_braced (appends_statements g) inner s₆)
  refine left_bind hbody fun body s₇ _ h₇ => ?_
  exact h₇.setBody hfresh body

/-- **A function adds its own name and no other** to the scopes that were there. -/
theorem leaves_function (g : Grammar) (scope : ScopeId) :
    Leaves (DeclaresFunction scope) (function g scope) := by
  intro s
  refine left_bind_appends (.of_eq rfl rfl) (leaves_expect .funcWord) fun first s₁ _ h₁ => ?_
  rw [left_within]
  exact declaresFunction_functionRest g scope h₁

/-! ### The parts of the parser -/

/-- What each part of the parser adds, whether it succeeds or fails. -/
structure OnlyAppends (g : Grammar) : Prop where
  expression : ∀ scope power, Leaves (Appends nowhere) (expression g scope power)
  onlyExpressions : ∀ scope power, Leaves AddsExpressions (Parser.expression g scope power)
  simple : ∀ scope, Leaves (Appends nowhere) (simple g scope)
  statement : ∀ scope, Leaves (Appends nowhere) (statement g scope)
  statements : ∀ scope, Leaves (Appends nowhere) (statements g scope)
  block : ∀ scope, Leaves (Appends nowhere) (block g scope)
  parameters : ∀ scope, Leaves (Appends (· = scope)) (parameters scope)
  results : ∀ scope, Leaves (Appends nowhere) (results scope)
  function : ∀ scope, Leaves (DeclaresFunction scope) (function g scope)

/-- **Reading only appends, also when it fails**, from every state and in every scope, whatever the
tables of the grammar are. -/
theorem onlyAppends (g : Grammar) : OnlyAppends g where
  expression scope power := (leaves_expression g scope power).building
  onlyExpressions := leaves_expression g
  simple := leaves_simple g
  statement := appends_statement g
  statements := appends_statements g
  block := appends_block g
  parameters := appends_parameters
  results := leaves_results
  function := leaves_function g

end FrontEnd.Parser
