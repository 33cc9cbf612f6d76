/-
**Operators, `!` and calls group as their powers say.**

An expression that is printed with no more parentheses than its operators ask for is read as that
expression, in surroundings that bind looser than its last operator to be applied and in front of
any token that does not bind tighter than they do.  Nothing is supposed of the state of the parser,
so nothing is known of what the names in the expression stand for; the tree is read off the nodes
with its names as they are written.

Main definitions:

* `FrontEnd.Grammar.powerOf` — how tightly a token binds what stands before it;
* `FrontEnd.Program.HasTree` — the node of a number and those below it make up a tree.

Main results:

* `FrontEnd.Program.HasTree.unique` — at most one tree, up to positions;
* `FrontEnd.Syntax.Expr.build_hasTree` — the nodes that are made of a tree make up that tree;
* `FrontEnd.expression_of_words` — reading the words of a tree gives the tree.
-/

import FrontEnd.Proofs.Parts
import FrontEnd.Proofs.Printing.Respelling
import FrontEnd.Proofs.Syntax.Retracing

set_option relaxedAutoImplicit false
set_option autoImplicit false

namespace FrontEnd

open Run Syntax

/-! ### Powers of tokens -/

/-- How tightly a token binds what stands before it: not at all, unless it goes on with an
expression. -/
def Grammar.powerOf (kind : TokenKind) : BindingPower :=
  ((standardInfix kind).map Prod.snd).getD .default

/-- A token that does not bind tighter than the surroundings does not go on with an expression in
them. -/
theorem Syntax.not_continues_of_powerOf {power : BindingPower} {next : Option TokenKind}
    (h : ∀ kind ∈ next, Grammar.powerOf kind ≤ power) : ¬ Continues power next := by
  rintro ⟨kind, rule, tighter, rfl, hrule, hlt⟩
  have hle := h kind rfl
  rw [Grammar.powerOf, hrule] at hle
  exact Nat.not_lt_of_le hle hlt

/-- Every operator binds looser than arguments do. -/
theorem Syntax.Expr.le_unary_of_lt_power {e : Expr} {power : BindingPower} (h : power < e.power) :
    power ≤ .unary := by
  cases e with
  | binary operator place left right =>
      exact Nat.le_of_lt (Nat.lt_trans h (power_bounds operator).2)
  | _ => exact Nat.le_of_lt_succ h

namespace Program

variable {p q r : Program} {id : ExprId}

/-! ### Trees of nodes -/

mutual

/-- The node of the number and those below it make up the tree.  Names are told by how they are
written, and positions do not count. -/
def HasTree (p : Program) (id : ExprId) : Expr → Prop
  | .literal value _ => p.form? id = some value.form
  | .name name => ∃ ref, p.form? id = some (.identifier name.text ref)
  | .not _ operand => ∃ operandId, p.form? id = some (.not operandId) ∧
      p.HasTree operandId operand
  | .binary operator _ left right => ∃ leftId rightId,
      p.form? id = some (.binary operator leftId rightId) ∧ p.HasTree leftId left ∧
        p.HasTree rightId right
  | .call callee arguments => ∃ calleeId argumentIds,
      p.form? id = some (.call calleeId argumentIds) ∧ p.HasTree calleeId callee ∧
        p.HasTrees argumentIds arguments

def HasTrees (p : Program) : List ExprId → List Expr → Prop
  | [], [] => True
  | id :: ids, e :: es => p.HasTree id e ∧ p.HasTrees ids es
  | _, _ => False

end

/-- The expressions of the program `p` are the same in `q`. -/
def KeepsExpressions (p q : Program) : Prop :=
  ∀ id e, p.expression? id = some e → q.expression? id = some e

theorem KeepsExpressions.refl (p : Program) : KeepsExpressions p p := fun _ _ h => h

theorem KeepsExpressions.trans (h : KeepsExpressions p q) (h' : KeepsExpressions q r) :
    KeepsExpressions p r := fun id e he => h' id e (h id e he)

theorem KeepsExpressions.form? (h : KeepsExpressions p q) {form : ExprForm}
    (hform : p.form? id = some form) : q.form? id = some form := by
  obtain ⟨e, he, rfl⟩ := Option.map_eq_some_iff.1 hform
  exact form?_eq (h id e he)

theorem keepsExpressions_addExpression (p : Program) (node : Expression) :
    KeepsExpressions p (p.addExpression node) := by
  intro id e he
  have hlt : id.index < p.expressions.size := (Array.getElem?_eq_some_iff.1 he).1
  have hne : id ≠ p.nextExpr := fun h => Nat.lt_irrefl _ (congrArg ExprId.index h ▸ hlt)
  rw [expression?_addExpression, if_neg hne, he]

theorem HasTrees.mono_of_forall {es : List Expr}
    (hes : ∀ e ∈ es, ∀ id, p.HasTree id e → q.HasTree id e) {ids : List ExprId}
    (h : p.HasTrees ids es) : q.HasTrees ids es := by
  induction es generalizing ids with
  | nil => cases ids <;> exact h
  | cons e es ih =>
      cases ids with
      | nil => exact h
      | cons id ids =>
          exact ⟨hes e List.mem_cons_self id h.1,
            ih (fun e' he' => hes e' (List.mem_cons_of_mem e he')) h.2⟩

/-- A tree stays what it is when nodes are added. -/
theorem HasTree.mono {e : Expr} (h : p.HasTree id e) (hkeeps : KeepsExpressions p q) :
    q.HasTree id e := by
  induction e generalizing id with
  | literal value place => exact hkeeps.form? h
  | name name =>
      obtain ⟨ref, hform⟩ := h
      exact ⟨ref, hkeeps.form? hform⟩
  | not place operand ih =>
      obtain ⟨operandId, hform, hoperand⟩ := h
      exact ⟨operandId, hkeeps.form? hform, ih hoperand⟩
  | binary operator place left right ihLeft ihRight =>
      obtain ⟨leftId, rightId, hform, hleft, hright⟩ := h
      exact ⟨leftId, rightId, hkeeps.form? hform, ihLeft hleft, ihRight hright⟩
  | call callee arguments ihCallee ihArguments =>
      obtain ⟨calleeId, ids, hform, hcallee, harguments⟩ := h
      exact ⟨calleeId, ids, hkeeps.form? hform, ihCallee hcallee,
        harguments.mono_of_forall fun e he id => ihArguments e he⟩

/-- A list of nodes makes up one list of trees only, if each node makes up one tree only, up to
positions. -/
theorem HasTrees.unique_of_forall {es es' : List Expr}
    (hes : ∀ e ∈ es, ∀ id e', p.HasTree id e → p.HasTree id e' → e'.unplaced = e.unplaced)
    {ids : List ExprId} (h : p.HasTrees ids es) (h' : p.HasTrees ids es') :
    Expr.unplacedAll es' = Expr.unplacedAll es := by
  induction es generalizing ids es' with
  | nil =>
      cases ids with
      | nil => cases es' with
        | nil => rfl
        | cons e' es' => exact h'.elim
      | cons id ids => exact h.elim
  | cons e es ih =>
      cases ids with
      | nil => exact h.elim
      | cons id ids => cases es' with
        | nil => exact h'.elim
        | cons e' es' =>
            rw [Expr.unplacedAll, Expr.unplacedAll, hes e List.mem_cons_self id e' h.1 h'.1,
              ih (fun e he => hes e (List.mem_cons_of_mem _ he)) h.2 h'.2]

/-- **A node is the root of at most one tree**, up to positions. -/
theorem HasTree.unique {e e' : Expr} (h : p.HasTree id e) (h' : p.HasTree id e') :
    e'.unplaced = e.unplaced := by
  induction e generalizing id e' with
  | literal value place =>
      cases e' with
      | literal value' place' =>
          rw [HasTree, h] at h'
          cases value <;> cases value' <;> simp_all [Literal.form, Expr.unplaced]
      | _ => cases value <;> simp_all [HasTree, Literal.form]
  | name name =>
      obtain ⟨ref, hform⟩ := h
      cases e' with
      | name name' =>
          obtain ⟨ref', hform'⟩ := h'
          rw [hform] at hform'
          obtain ⟨htext, -⟩ := ExprForm.identifier.inj (Option.some.inj hform')
          rw [Expr.unplaced, Expr.unplaced, Name.unplaced, Name.unplaced, htext]
      | literal value' place' => cases value' <;> simp [HasTree, hform, Literal.form] at h'
      | _ => simp [HasTree, hform] at h'
  | not place operand ih =>
      obtain ⟨operandId, hform, hoperand⟩ := h
      cases e' with
      | not place' operand' =>
          obtain ⟨operandId', hform', hoperand'⟩ := h'
          rw [hform] at hform'
          cases hform'
          rw [Expr.unplaced, Expr.unplaced, ih hoperand hoperand']
      | literal value' place' => cases value' <;> simp [HasTree, hform, Literal.form] at h'
      | _ => simp [HasTree, hform] at h'
  | binary operator place left right ihLeft ihRight =>
      obtain ⟨leftId, rightId, hform, hleft, hright⟩ := h
      cases e' with
      | binary operator' place' left' right' =>
          obtain ⟨leftId', rightId', hform', hleft', hright'⟩ := h'
          rw [hform] at hform'
          cases hform'
          exact Expr.unplaced_binary place' (ihLeft hleft hleft') (ihRight hright hright')
      | literal value' place' => cases value' <;> simp [HasTree, hform, Literal.form] at h'
      | _ => simp [HasTree, hform] at h'
  | call callee arguments ihCallee ihArguments =>
      obtain ⟨calleeId, ids, hform, hcallee, harguments⟩ := h
      cases e' with
      | call callee' arguments' =>
          obtain ⟨calleeId', ids', hform', hcallee', harguments'⟩ := h'
          rw [hform] at hform'
          cases hform'
          exact Expr.unplaced_call (ihCallee hcallee hcallee')
            (harguments.unique_of_forall (fun e he id e' => ihArguments e he) harguments')
      | literal value' place' => cases value' <;> simp [HasTree, hform, Literal.form] at h'
      | _ => simp [HasTree, hform] at h'

theorem hasTrees_unplacedAll_of_forall {es : List Expr}
    (hes : ∀ e ∈ es, ∀ id, p.HasTree id e.unplaced ↔ p.HasTree id e) (ids : List ExprId) :
    p.HasTrees ids (Expr.unplacedAll es) ↔ p.HasTrees ids es := by
  induction es generalizing ids with
  | nil => rfl
  | cons e es ih =>
      cases ids with
      | nil => rfl
      | cons id ids =>
          exact and_congr (hes e List.mem_cons_self id)
            (ih (fun e' he' => hes e' (List.mem_cons_of_mem e he')) ids)

/-- Positions do not count. -/
theorem hasTree_unplaced (e : Expr) (id : ExprId) :
    p.HasTree id e.unplaced ↔ p.HasTree id e := by
  induction e generalizing id with
  | literal value place => rfl
  | name name => rfl
  | not place operand ih => simp only [Expr.unplaced, HasTree, ih]
  | binary operator place left right ihLeft ihRight =>
      simp only [Expr.unplaced, HasTree, ihLeft, ihRight]
  | call callee arguments ihCallee ihArguments =>
      simp only [Expr.unplaced, HasTree, ihCallee, hasTrees_unplacedAll_of_forall ihArguments]

theorem HasTree.congr {e e' : Expr} (h : p.HasTree id e) (heq : e.unplaced = e'.unplaced) :
    p.HasTree id e' := by
  rwa [← hasTree_unplaced, ← heq, hasTree_unplaced]

end Program

namespace Syntax.Expr

/-! ### Nodes that are made of a tree -/

open Program

variable {d d' : Draft} {scope : ScopeId}

/-- The node that closes a tree comes behind all the others. -/
theorem keepsExpressions_of_addExpression {node : Expression} {id : ExprId}
    (h : Draft.addExpression node d = .ok id d') : KeepsExpressions d.program d'.program := by
  cases h
  exact keepsExpressions_addExpression _ _

theorem form?_of_addExpression {node : Expression} {id : ExprId}
    (h : Draft.addExpression node d = .ok id d') : d'.program.form? id = some node.form :=
  form?_eq (Draft.expression?_of_addExpression h)

/-- Making the nodes of the expression changes no other expressions, and the nodes make up the
tree. -/
def BuildsTree (e : Expr) : Prop :=
  ∀ {d d' : Draft} {scope : ScopeId} {id : ExprId}, e.build scope d = .ok id d' →
    KeepsExpressions d.program d'.program ∧ d'.program.HasTree id e

/-- Making a list of expressions makes nodes that make up their trees. -/
theorem buildAll_hasTrees_of_forall (es : List Expr) (hes : ∀ e ∈ es, e.BuildsTree)
    {ids : List ExprId} (h : buildAll scope es d = .ok ids d') :
    KeepsExpressions d.program d'.program ∧ d'.program.HasTrees ids es := by
  induction es generalizing d ids with
  | nil =>
      obtain ⟨rfl, rfl⟩ := pure_ok_iff.1 h
      exact ⟨.refl _, trivial⟩
  | cons e es ih =>
      rw [buildAll] at h
      obtain ⟨id, d₁, hfirst, h⟩ := bind_ok_iff.1 h
      obtain ⟨ids, d₂, hothers, h⟩ := bind_ok_iff.1 h
      obtain ⟨rfl, rfl⟩ := pure_ok_iff.1 h
      obtain ⟨hkeeps, htree⟩ := hes e List.mem_cons_self hfirst
      obtain ⟨hkeeps', htrees⟩ := ih (fun e' he' => hes e' (List.mem_cons_of_mem e he')) hothers
      exact ⟨hkeeps.trans hkeeps', htree.mono hkeeps', htrees⟩

/-- **The nodes that are made of a tree make up that tree.** -/
theorem build_hasTree (e : Expr) : e.BuildsTree := by
  induction e with
  | literal value place =>
      intro d d' scope id h
      exact ⟨keepsExpressions_of_addExpression h, form?_of_addExpression h⟩
  | name n =>
      intro d d' scope id h
      simp only [build, Name.build, bind_ok_iff, get_ok_iff, pure_ok_iff] at h
      obtain ⟨_, _, ⟨rfl, rfl⟩, nodeId, d₁, hnode, _, _, hdefer, rfl, rfl⟩ := h
      rw [Draft.program_of_deferIf hdefer]
      exact ⟨keepsExpressions_of_addExpression hnode, _, form?_of_addExpression hnode⟩
  | not place operand ih =>
      intro d d' scope id h
      rw [build] at h
      obtain ⟨operandId, d₁, hoperand, h⟩ := bind_ok_iff.1 h
      obtain ⟨hkeeps, htree⟩ := ih hoperand
      have hkeeps' := keepsExpressions_of_addExpression h
      exact ⟨hkeeps.trans hkeeps', _, form?_of_addExpression h, htree.mono hkeeps'⟩
  | binary operator place left right ihLeft ihRight =>
      intro d d' scope id h
      rw [build] at h
      obtain ⟨leftId, d₁, hleft, h⟩ := bind_ok_iff.1 h
      obtain ⟨rightId, d₂, hright, h⟩ := bind_ok_iff.1 h
      obtain ⟨hkeeps, htree⟩ := ihLeft hleft
      obtain ⟨hkeeps', htree'⟩ := ihRight hright
      have hkeeps'' := keepsExpressions_of_addExpression h
      exact ⟨(hkeeps.trans hkeeps').trans hkeeps'', _, _, form?_of_addExpression h,
        htree.mono (hkeeps'.trans hkeeps''), htree'.mono hkeeps''⟩
  | call callee arguments ihCallee ihArguments =>
      intro d d' scope id h
      rw [build] at h
      obtain ⟨calleeId, d₁, hcallee, h⟩ := bind_ok_iff.1 h
      obtain ⟨ids, d₂, harguments, h⟩ := bind_ok_iff.1 h
      obtain ⟨hkeeps, htree⟩ := ihCallee hcallee
      obtain ⟨hkeeps', htrees⟩ := buildAll_hasTrees_of_forall arguments ihArguments harguments
      have hkeeps'' := keepsExpressions_of_addExpression h
      exact ⟨(hkeeps.trans hkeeps').trans hkeeps'', _, _, form?_of_addExpression h,
        htree.mono (hkeeps'.trans hkeeps''), htrees.mono_of_forall fun e _ _ he => he.mono hkeeps''⟩

end Syntax.Expr

/-! ### Reading words -/

variable {e : Expr} {power : BindingPower} {ts rest : List Token} {s : Parser}

/-- **Reading groups as the powers say.**  The expression is written as it is printed, in any
place: with parentheses around a left operand whose operator binds looser, around a right operand
whose operator does not bind tighter, and around what `!` is applied to if it has an operator.  In
surroundings that bind looser than its own operator, if it has one, and not tighter than `!`
otherwise, it is read as the tree that it is and as no other one.  Just these tokens are taken,
whatever stands behind them, as long as that is nothing that binds tighter than the surroundings. -/
theorem expression_of_words (he : e.Formed) (hpower : power < e.power)
    (hts : ts.map Token.word = e.words)
    (hrest : ∀ t ∈ rest.head?, Grammar.powerOf t.kind ≤ power) (hs : s.rest = ts ++ rest)
    (scope : ScopeId) :
    ∃ id s', Parser.expression .standard scope power s = .ok id s' ∧ s'.rest = rest ∧
      s'.program.HasTree id e ∧ ∀ e', s'.program.HasTree id e' → e'.unplaced = e.unplaced := by
  have hnext : ¬ Continues power (nextKind rest none) := by
    refine not_continues_of_powerOf fun kind hkind => ?_
    cases rest with
    | nil => cases hkind
    | cons t rest =>
        cases hkind
        exact hrest t rfl
  have hprinted := (e.spelledByWords he).spelled hpower (Expr.le_unary_of_lt_power hpower) hnext
  have hsame : SameWords (printed e.words) ts := by
    rw [SameWords, hts, printed, List.map_map]
    exact List.map_id _
  obtain ⟨e', heq, hspelled⟩ := hprinted.respell hsame
  obtain ⟨id, d, hbuild⟩ := Parser.exists_build scope e' s.draft
  have hread := (Parser.follows_expression hspelled scope).run hs rfl hbuild
  have htree : d.program.HasTree id e' := (e'.build_hasTree hbuild).2
  have htree' : d.program.HasTree id e := (Program.hasTree_unplaced e id).1 (htree.congr heq)
  exact ⟨id, _, hread, rfl, htree', fun _ h => htree'.unique h⟩

/-- An expression that needs parentheses in a right operand and behind `!`, but nowhere else. -/
def grouped : Expr :=
  .binary .and .start
    (.not .start (.binary .equal .start (.name ⟨"a", .start⟩)
      (.call (.call (.name ⟨"f", .start⟩) [.literal (.integer 1) .start]) [.name ⟨"b", .start⟩])))
    (.binary .less .start
      (.binary .subtract .start (.name ⟨"c", .start⟩)
        (.binary .subtract .start (.name ⟨"d", .start⟩) (.literal (.integer 1) .start)))
      (.literal (.integer 2) .start))

def groupedTokens : List Token := tokensOf "!(a == f(1)(b)) && c - (d - 1) < 2"

/-- In front of an operator that binds no tighter than the surroundings, the expression is read and
the operator is left. -/
theorem expression_of_words_grouped : ∃ id s',
    Parser.expression .standard .file .or (.ofTokens (groupedTokens ++ tokensOf "|| x")) =
        .ok id s' ∧
      s'.rest = tokensOf "|| x" ∧ s'.program.HasTree id grouped ∧
        ∀ e', s'.program.HasTree id e' → e'.unplaced = grouped.unplaced := by
  have hformed : grouped.Formed := by simp [grouped, Expr.Formed, Expr.FormedAll, Expr.isCallable]
  have hwords : groupedTokens.map Token.word = grouped.words := by decide +kernel
  have hnext : ∀ t ∈ (tokensOf "|| x").head?, Grammar.powerOf t.kind ≤ .or := by
    decide +kernel
  exact expression_of_words hformed (by decide) hwords hnext rfl .file

end FrontEnd
