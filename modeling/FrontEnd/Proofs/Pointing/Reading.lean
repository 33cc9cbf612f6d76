/-
**Reading points to tokens.**

One reading function after the other builds and reports only where tokens start: literals, names and
operators at themselves, calls where the called expression is, statements at their first token, and
functions at their names.  So a file that is refused is refused at one of its tokens, and in a
program that was read every node, and every name that is still to be found, is at one.

Main results:

* `FrontEnd.Parser.points_expression`, `FrontEnd.Parser.points_statements`,
  `FrontEnd.Parser.points_file` — reading expressions, statements and files;
* `FrontEnd.pointsTo_of_parseFile_error`, `FrontEnd.startsAt_of_parseFile` — what it comes to.
-/

import FrontEnd.Proofs.Pointing.Steps
import FrontEnd.Proofs.Syntax.Reading

set_option relaxedAutoImplicit false
set_option autoImplicit false

namespace FrontEnd

namespace Parser

open Run

variable {tokens : List Token}

/-! ### Signatures -/

/-- A type is written where its name is. -/
theorem points_typeName (scope : ScopeId) :
    Points tokens (typeName scope) fun r => StartsAt tokens r.2 ∧ r.1.PointsTo tokens :=
  points_expectName.bind fun _ ht => .get_bind fun _ _ =>
    .pure ⟨startsAt_of_mem ht, Reference.pointsTo_ofFound ht _ _ _⟩

theorem points_addField (name? : Option String) {type : Reference} {place : Position}
    (hplace : StartsAt tokens place) (htype : type.PointsTo tokens) :
    Points tokens (addField name? type place) fun _ => True := by
  have hplaces : ∀ held ∈ (Declaration.var ⟨name?, place, type⟩).places, StartsAt tokens held :=
    startsAt_of_mem_placesOf hplace (by rintro _ ⟨⟩; exact htype)
  refine (points_addDeclaration hplaces).bind fun decl _ => ?_
  exact (points_deferIf type _).bind fun _ _ => .pure trivial

/-- A parameter stands where its name is written. -/
theorem points_parameter (scope : ScopeId) :
    Points tokens (parameter scope) fun _ => True := by
  refine points_expectName.bind fun (t, name) ht => ?_
  refine (points_typeName scope).bind fun (type, _) ⟨_, htype⟩ => ?_
  refine (points_addField _ (startsAt_of_mem ht) htype).bind fun field _ => ?_
  exact (points_declareName scope .var name _ (startsAt_of_mem ht)).bind fun _ _ => .pure trivial

theorem points_parameters (scope : ScopeId) :
    Points tokens (parameters scope) fun _ => True := by
  refine (points_expect .leftParenthesis).discard.bind fun _ _ => ?_
  refine (points_separated (points_parameter scope)).bind fun fields _ => ?_
  exact (points_expect .rightParenthesis).discard.bind fun _ _ => .pure trivial

theorem points_resultField (scope : ScopeId) : Points tokens (resultField scope) fun _ => True :=
  (points_typeName scope).bind fun _ ⟨hplace, htype⟩ => points_addField none hplace htype

theorem points_results (scope : ScopeId) : Points tokens (results scope) fun _ => True := by
  refine .get_bind fun _ _ => ?_
  split
  · exact (points_resultField scope).bind fun _ _ => .pure trivial
  · refine points_advance.discard.bind fun _ _ => ?_
    refine (points_separated (points_resultField scope)).bind fun fields _ => ?_
    exact (points_expect .rightParenthesis).discard.bind fun _ _ => .pure trivial
  · exact .pure trivial

/-! ### Expressions -/

/-- A token that cannot be taken as a literal is reported where it is. -/
theorem pointsTo_of_literalForm {t : Token} {e : Error} (ht : t ∈ tokens)
    (h : literalForm t = .error e) : e.PointsTo tokens := by
  have hplace : e.position? = some t.position := by
    unfold literalForm Token.integer Token.character Token.string at h
    repeat' split at h
    all_goals cases h
    all_goals rfl
  exact ⟨_, hplace, startsAt_of_mem ht⟩

theorem points_literal : Points tokens literal fun _ => True := by
  rw [literal_eq]
  refine points_advance.bind fun t ht => ?_
  refine (Points.ofExcept fun _ he => pointsTo_of_literalForm ht he).bind fun (form, _) hok => ?_
  obtain ⟨value, -, rfl, -⟩ := literalForm_ok_iff.1 hok
  refine points_addExpression (startsAt_of_mem ht) fun ref href => ?_
  cases value <;> cases href

theorem points_identifier (scope : ScopeId) :
    Points tokens (identifier scope) fun _ => True := by
  refine points_expectName.bind fun (t, name) ht => .get_bind fun s _ => ?_
  refine (points_addExpression (startsAt_of_mem ht) ?_).bind fun _ _ =>
    (points_deferIf _ _).bind fun _ _ => .pure trivial
  rintro _ ⟨⟩
  exact Reference.pointsTo_ofFound ht _ _ _

section Parts

variable {part : ScopeId → BindingPower → ParseM ExprId}
  (hpart : ∀ scope power, Points tokens (part scope power) fun _ => True)

include hpart

theorem points_negation (scope : ScopeId) :
    Points tokens (negation part scope) fun _ => True := by
  refine (points_expect .not).bind fun t ht => ?_
  refine (hpart scope .unary).bind fun operand _ => ?_
  exact points_addExpression (startsAt_of_mem ht) (by rintro _ ⟨⟩)

theorem points_grouping (scope : ScopeId) :
    Points tokens (grouping part scope) fun _ => True := by
  refine (points_expect .leftParenthesis).discard.bind fun _ _ => ?_
  refine (hpart scope .default).bind fun inner _ => ?_
  exact (points_expect .rightParenthesis).discard.bind fun _ _ => .pure trivial

/-- Every way in which an expression starts points to tokens, if its parts do. -/
theorem points_start (rule : PrefixRule) (scope : ScopeId) :
    Points tokens (start part rule scope) fun _ => True := by
  cases rule with
  | literal => exact points_literal
  | identifier => exact points_identifier scope
  | negation => exact points_negation hpart scope
  | grouping => exact points_grouping hpart scope

theorem points_binary (scope : ScopeId) (left : ExprId) (power : BindingPower) :
    Points tokens (binary part scope left power) fun _ => True := by
  refine points_advance.bind fun t ht => ?_
  split
  · exact .throw (pointsTo_at (startsAt_of_mem ht))
  · exact (hpart scope power).bind fun _ _ =>
      points_addExpression (startsAt_of_mem ht) (by rintro _ ⟨⟩)

/-- A call stands where the called expression does, which is in the program already. -/
theorem points_call (scope : ScopeId) (called : ExprId) :
    Points tokens (call part scope called) fun _ => True := by
  refine (points_expect .leftParenthesis).bind fun opening ht => .get_bind fun s hs => ?_
  have hopening : (Cause.notCallable.at opening.position).PointsTo tokens :=
    pointsTo_at (startsAt_of_mem ht)
  split
  · exact .throw hopening
  · next callee hcallee =>
      have hplace : StartsAt tokens callee.position :=
        hs.program _ (.expression hcallee List.mem_cons_self)
      refine (Points.require hopening).bind fun _ _ => ?_
      refine (points_separated (hpart scope .default)).bind fun arguments _ => ?_
      refine (points_expect .rightParenthesis).discard.bind fun _ _ => ?_
      exact points_addExpression hplace (by rintro _ ⟨⟩)

theorem points_continuation (rule : InfixRule) (scope : ScopeId) (left : ExprId)
    (power : BindingPower) :
    Points tokens (continuation part rule scope left power) fun _ => True := by
  cases rule with
  | binary => exact points_binary hpart scope left power
  | call => exact points_call hpart scope left

theorem points_extendUpTo (g : Grammar) (scope : ScopeId) (power : BindingPower) (n : Nat)
    (left : ExprId) : Points tokens (extendUpTo part g scope power n left) fun _ => True := by
  induction n generalizing left with
  | zero => exact .pure trivial
  | succ n ih =>
      refine .get_bind fun _ _ => ?_
      split
      · exact .pure trivial
      · exact .ite ((points_continuation hpart _ scope left _).bind fun left _ => ih left)
          (.pure trivial)

theorem points_extend (g : Grammar) (scope : ScopeId) (power : BindingPower) (left : ExprId) :
    Points tokens (extend part g scope power left) fun _ => True := fun s hs =>
  (points_extendUpTo hpart g scope power s.rest.length left s hs).of_run rfl

end Parts

theorem points_expressionUpTo (g : Grammar) (n : Nat) (scope : ScopeId) (power : BindingPower) :
    Points tokens (expressionUpTo g n scope power) fun _ => True := by
  induction n generalizing scope power with
  | zero => exact points_refuse _
  | succ n ih =>
      refine .get_bind fun _ _ => ?_
      split
      · exact points_refuse _
      · exact (points_start ih _ scope).bind fun left _ => points_extend ih g scope power left

/-- **Reading an expression points to tokens.** -/
theorem points_expression (g : Grammar) (scope : ScopeId) (power : BindingPower) :
    Points tokens (expression g scope power) fun _ => True := fun s hs =>
  (points_expressionUpTo g s.rest.length scope power s hs).of_run rfl

/-! ### Statements without blocks -/

theorem points_declareStatement (scope : ScopeId) :
    Points tokens (declareStatement scope) fun _ => True := by
  refine (points_expect .varWord).bind fun first hfirst => ?_
  refine points_expectName.bind fun (t, name) ht => ?_
  refine (points_typeName scope).bind fun (type, _) ⟨_, htype⟩ => ?_
  refine (points_expect .semicolon).discard.bind fun _ _ => ?_
  have hplaces : ∀ held ∈ (Declaration.var ⟨some name, t.position, type⟩).places,
      StartsAt tokens held :=
    startsAt_of_mem_placesOf (startsAt_of_mem ht) (by rintro _ ⟨⟩; exact htype)
  refine (points_addDeclaration hplaces).bind fun decl _ => ?_
  refine (points_extendScope scope name decl (startsAt_of_mem ht)).bind fun _ _ => ?_
  refine (points_addStatement (startsAt_of_mem hfirst) (by rintro _ ⟨⟩)).bind fun _ _ => ?_
  exact (points_deferIf _ _).bind fun _ _ => .pure trivial

theorem points_change (g : Grammar) (scope : ScopeId) (kind : TokenKind) :
    Points tokens (change g scope kind) fun _ => True := by
  unfold change
  split
  · exact (points_expression g scope .default).map fun _ => trivial
  · exact (points_expression g scope .default).map fun _ => trivial
  · exact (points_expression g scope .default).map fun _ => trivial
  · exact .pure trivial
  · exact .pure trivial

/-- What is no call is reported where the next token was, or the last one if none was left. -/
theorem points_callStatement (g : Grammar) (scope : ScopeId) :
    Points tokens (callStatement g scope) fun _ => True := by
  refine .get_bind fun s hs => ?_
  refine (points_expression g scope .default).bind fun call _ => .get_bind fun _ _ => ?_
  refine .ite (points_addStatement hs.position ?_) (.throw (pointsTo_at hs.position))
  rintro _ ⟨⟩

theorem points_changeStatement (g : Grammar) (scope : ScopeId) :
    Points tokens (changeStatement g scope) fun _ => True := by
  refine .get_bind fun s hs => points_expectName.bind fun (t, name) ht => .get_bind fun s' _ => ?_
  refine (points_expectOneOf changeTokens).bind fun sign _ => ?_
  refine (points_change g scope sign.kind).bind fun change _ => ?_
  refine (points_addStatement hs.position ?_).bind fun _ _ =>
    (points_deferIf _ _).bind fun _ _ => .pure trivial
  rintro _ ⟨⟩
  exact Reference.pointsTo_ofFound ht _ _ _

theorem points_simple (g : Grammar) (scope : ScopeId) :
    Points tokens (simple g scope) fun _ => True :=
  .get_bind fun _ _ => .ite (points_callStatement g scope) (points_changeStatement g scope)

theorem points_simpleStatement (g : Grammar) (scope : ScopeId) :
    Points tokens (simpleStatement g scope) fun _ => True :=
  (points_simple g scope).bind fun _ _ => (points_expect .semicolon).discard.bind fun _ _ =>
    .pure trivial

theorem points_moreValuesUpTo (g : Grammar) (scope : ScopeId) (n : Nat) :
    Points tokens (moreValuesUpTo g scope n) fun _ => True := by
  induction n with
  | zero => exact .pure trivial
  | succ n ih =>
      refine .get_bind fun _ _ => .ite ?_ (.pure trivial)
      refine points_advance.discard.bind fun _ _ => ?_
      refine (points_expression g scope .default).bind fun value _ => ?_
      exact ih.bind fun others _ => .pure trivial

theorem points_moreValues (g : Grammar) (scope : ScopeId) :
    Points tokens (moreValues g scope) fun _ => True := fun s hs =>
  (points_moreValuesUpTo g scope s.rest.length s hs).of_run rfl

theorem points_values (g : Grammar) (scope : ScopeId) :
    Points tokens (values g scope) fun _ => True := by
  refine .get_bind fun _ _ => .ite (.pure trivial) ?_
  refine (points_expression g scope .default).bind fun value _ => ?_
  exact (points_moreValues g scope).bind fun others _ => .pure trivial

theorem points_resultStatement (g : Grammar) (scope : ScopeId) :
    Points tokens (resultStatement g scope) fun _ => True := by
  refine (points_expect .returnWord).bind fun first hfirst => ?_
  refine (points_values g scope).bind fun values _ => ?_
  refine (points_expect .semicolon).discard.bind fun _ _ => ?_
  exact (points_addStatement (startsAt_of_mem hfirst) (by rintro _ ⟨⟩)).bind fun _ _ =>
    .pure trivial

/-! ### Statements with blocks -/

section Lists

variable (g : Grammar) {list : ScopeId → ParseM (List StmtId)}
  (hlist : ∀ scope, Points tokens (list scope) fun _ => True)

include hlist

theorem points_braced (scope : ScopeId) : Points tokens (braced list scope) fun _ => True := by
  refine (points_expect .leftBrace).discard.bind fun _ _ => ?_
  refine (hlist scope).bind fun statements _ => ?_
  exact (points_expect .rightBrace).discard.bind fun _ _ => .pure trivial

theorem points_blockOf (scope : ScopeId) :
    Points tokens (blockOf list scope) fun _ => True := by
  refine (points_newScope .block scope).bind fun inner _ => ?_
  exact (points_braced hlist inner).bind fun statements _ => .pure trivial

theorem points_elseBlock (scope : ScopeId) :
    Points tokens (elseBlock list scope) fun _ => True := by
  refine .get_bind fun _ _ => .ite ?_ (.pure trivial)
  refine points_advance.discard.bind fun _ _ => ?_
  exact (points_blockOf hlist scope).map fun _ => trivial

/-- A choice stands where its first word is, and so do the other statements with blocks. -/
theorem points_branchStatement (scope : ScopeId) :
    Points tokens (branchStatement g list scope) fun _ => True := by
  refine (points_expect .ifWord).bind fun first hfirst => ?_
  refine (points_expression g scope .default).bind fun condition _ => ?_
  refine (points_blockOf hlist scope).bind fun thenBlock _ => ?_
  refine (points_elseBlock hlist scope).bind fun elseBlock? _ => ?_
  exact (points_addStatement (startsAt_of_mem hfirst) (by rintro _ ⟨⟩)).bind fun _ _ =>
    .pure trivial

theorem points_whileStatement (scope : ScopeId) :
    Points tokens (whileStatement g list scope) fun _ => True := by
  refine (points_expect .whileWord).bind fun first hfirst => ?_
  refine (points_expression g scope .default).bind fun condition _ => ?_
  refine (points_blockOf hlist scope).bind fun body _ => ?_
  exact (points_addStatement (startsAt_of_mem hfirst) (by rintro _ ⟨⟩)).bind fun _ _ =>
    .pure trivial

omit hlist in
theorem points_simpleUnless (kind : TokenKind) (scope : ScopeId) :
    Points tokens (simpleUnless g kind scope) fun _ => True :=
  .get_bind fun _ _ => .ite (.pure trivial) ((points_simple g scope).map fun _ => trivial)

theorem points_forStatement (scope : ScopeId) :
    Points tokens (forStatement g list scope) fun _ => True := by
  refine (points_expect .forWord).bind fun first hfirst => ?_
  refine (points_simpleUnless g .semicolon scope).bind fun init? _ => ?_
  refine (points_expect .semicolon).discard.bind fun _ _ => ?_
  refine (points_expression g scope .default).bind fun condition _ => ?_
  refine (points_expect .semicolon).discard.bind fun _ _ => ?_
  refine (points_simpleUnless g .leftBrace scope).bind fun action? _ => ?_
  refine (points_blockOf hlist scope).bind fun body _ => ?_
  exact (points_addStatement (startsAt_of_mem hfirst) (by rintro _ ⟨⟩)).bind fun _ _ =>
    .pure trivial

/-- Whatever the rule, a statement points to tokens if its lists do. -/
theorem points_statementOf (scope : ScopeId) :
    Points tokens (statementOf g list scope) fun _ => True := by
  refine .get_bind fun _ _ => ?_
  split
  · exact points_refuse _
  · exact points_declareStatement scope
  · exact points_simpleStatement g scope
  · exact points_branchStatement g hlist scope
  · exact points_whileStatement g hlist scope
  · exact points_forStatement g hlist scope
  · exact points_resultStatement g scope

end Lists

theorem points_statementsUpTo (g : Grammar) (n : Nat) (closed : Bool) (scope : ScopeId) :
    Points tokens (statementsUpTo g n closed scope) fun _ => True := by
  induction n generalizing closed scope with
  | zero => exact points_refuse _
  | succ n ih =>
      refine .get_bind fun s hs => ?_
      split
      · exact points_refuse _
      · refine .ite (.pure trivial) ?_
        refine (Points.require (pointsTo_at hs.position)).bind fun _ _ => ?_
        refine (points_statementOf g (ih false) scope).bind fun (_, behind) _ => ?_
        exact .get_bind fun _ _ => (ih _ behind).bind fun _ _ => .pure trivial

/-- **Reading statements points to tokens.** -/
theorem points_statements (g : Grammar) (scope : ScopeId) :
    Points tokens (statements g scope) fun _ => True := fun s hs =>
  (points_statementsUpTo g s.rest.length false scope s hs).of_run rfl

/-! ### Functions and files -/

/-- A function stands where its name is, and its name is refused there. -/
theorem points_functionRest (g : Grammar) (scope : ScopeId) :
    Points tokens (functionRest g scope) fun _ => True := by
  refine points_expectName.bind fun (t, name) ht => ?_
  refine (points_newScope .function scope).bind fun inner _ => ?_
  refine (points_parameters inner).bind fun parameters _ => ?_
  refine (points_results inner).bind fun results _ => ?_
  have hplaces : ∀ held ∈ (Declaration.func ⟨name, t.position, parameters, results, [],
      inner⟩).places, StartsAt tokens held :=
    List.forall_mem_singleton.2 (startsAt_of_mem ht)
  refine (points_addDeclaration hplaces).bind fun decl _ => ?_
  refine (points_declareName scope .func name decl (startsAt_of_mem ht)).bind fun _ _ => ?_
  refine (points_braced (points_statements g) inner).bind fun body _ => ?_
  exact (points_modify (fun p => p.setBody decl body) fun _ _ h => h.of_setBody).bind fun _ _ =>
    .pure trivial

theorem points_function (g : Grammar) (scope : ScopeId) :
    Points tokens (function g scope) fun _ => True :=
  (points_expect .funcWord).bind fun _ _ => points_within _ (points_functionRest g scope)

theorem points_functionsUpTo (g : Grammar) (n : Nat) :
    Points tokens (functionsUpTo g n) fun _ => True := by
  induction n with
  | zero => exact .pure trivial
  | succ n ih =>
      refine .get_bind fun _ _ => ?_
      split
      · exact .pure trivial
      · refine .ite ((points_function g .file).bind fun decl _ => ?_) (points_refuse _)
        exact (points_modify (fun p => p.addTopLevel decl) fun _ _ h =>
          h.of_nodes rfl rfl rfl).bind fun _ _ => ih

/-- **Reading a file points to tokens.** -/
theorem points_file (g : Grammar) : Points tokens (file g) fun _ => True := fun s hs =>
  (points_functionsUpTo g s.rest.length s hs).of_run rfl

/-- Before anything is read there are only tokens to point to. -/
theorem placed_ofTokens (h : tokens ≠ []) : (ofTokens tokens).Placed tokens where
  rest _ ht := ht
  last := ⟨_, List.getLast_mem h, List.getLast?_eq_some_getLast h⟩
  program _ hplace := absurd hplace Program.not_hasPlace_initial

end Parser

/-! ### What reading a file comes to -/

variable {tokens : List Token} {p : Program} {d : Deferred}

/-- **A file is refused at one of its tokens.** -/
theorem pointsTo_of_parseFile_error {e : Error} (h : parseFile tokens = .error e) :
    e.PointsTo tokens := by
  have hne : tokens ≠ [] := by
    rintro rfl
    cases h
  unfold parseFile at h
  split at h
  · cases h
  · next hrun =>
      cases h
      exact (Parser.points_file .standard _ (Parser.placed_ofTokens hne)).of_error hrun

/-- **All that a file gives rise to stands where its tokens start.** -/
theorem startsAt_of_parseFile (h : parseFile tokens = .ok (p, d)) {place : Position}
    (hplace : p.HasPlace place) : StartsAt tokens place := by
  have hne : tokens ≠ [] := by
    rintro rfl
    cases h
    exact Program.not_hasPlace_initial hplace
  unfold parseFile at h
  split at h
  · next hrun =>
      cases h
      have hplaced := (Parser.points_file .standard _ (Parser.placed_ofTokens hne)).of_ok hrun
      exact hplaced.1.program place hplace
  · cases h

end FrontEnd
