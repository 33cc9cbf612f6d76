/-
**How trees are written.**

The grammar of the language as relations between trees and the tokens that spell them.  Where an
expression ends depends on the token that follows, and so does whether a choice has a second part;
the relations carry the kind of that token.  An expression is spelled as it is read: a start, and
then operators and arguments as long as they bind tighter than the surroundings.

Main definitions:

* `FrontEnd.Syntax.nextKind` — the kind of the token that follows;
* `FrontEnd.Syntax.Expr.Spelled` — the tokens of an expression in surroundings of some power;
* `FrontEnd.Syntax.Stmt.Spelled`, `FrontEnd.Syntax.Func.Spelled`,
  `FrontEnd.Syntax.FileSpelled` — the tokens of statements, functions and files.
-/

import FrontEnd.Proofs.Syntax.Tree
import FrontEnd.Grammar

set_option relaxedAutoImplicit false
set_option autoImplicit false

namespace FrontEnd.Syntax

/-! ### What follows -/

/-- The kind of the first of some tokens, or of the token behind them if there are none. -/
def nextKind (ts : List Token) (next : Option TokenKind) : Option TokenKind :=
  match ts with
  | [] => next
  | t :: _ => some t.kind

@[simp] theorem nextKind_nil (next : Option TokenKind) : nextKind [] next = next := rfl

@[simp] theorem nextKind_cons (t : Token) (ts : List Token) (next : Option TokenKind) :
    nextKind (t :: ts) next = some t.kind := rfl

@[simp] theorem nextKind_append (ts us : List Token) (next : Option TokenKind) :
    nextKind (ts ++ us) next = nextKind ts (nextKind us next) := by
  cases ts <;> rfl

/-- Whether a token of the kind continues an expression in surroundings of the power. -/
def Continues (power : BindingPower) (next : Option TokenKind) : Prop :=
  ∃ kind rule tighter,
    next = some kind ∧ Grammar.standardInfix kind = some (rule, tighter) ∧ power < tighter

/-! ### Expressions -/

mutual

/-- The tokens of an expression in surroundings of some power. -/
inductive Expr.Spelled : BindingPower → Option TokenKind → Expr → List Token → Prop
  | intro {power : BindingPower} {next : Option TokenKind} {start e : Expr} {ts us : List Token} :
      start.StartSpelled (nextKind us next) ts → start.RestSpelled power next us e →
      Expr.Spelled power next e (ts ++ us)

/-- The tokens of an expression up to its first operator or its first arguments. -/
inductive Expr.StartSpelled : Expr → Option TokenKind → List Token → Prop
  | literal {next : Option TokenKind} {value : Literal} {t : Token} :
      Literal.ofToken? t = some value → Expr.StartSpelled (.literal value t.position) next [t]
  | name {next : Option TokenKind} {name : Name} {t : Token} :
      Name.ofToken? t = some name → Expr.StartSpelled (.name name) next [t]
  | not {next : Option TokenKind} {operand : Expr} {t : Token} {ts : List Token} :
      t.kind = .not → operand.Spelled .unary next ts →
      Expr.StartSpelled (.not t.position operand) next (t :: ts)
  | group {next : Option TokenKind} {e : Expr} {t u : Token} {ts : List Token} :
      t.kind = .leftParenthesis → e.Spelled .default (some .rightParenthesis) ts →
      u.kind = .rightParenthesis → Expr.StartSpelled e next (t :: (ts ++ [u]))

/-- The tokens behind a part of an expression, which make the part grow to the whole. -/
inductive Expr.RestSpelled : Expr → BindingPower → Option TokenKind → List Token → Expr → Prop
  | done {power : BindingPower} {next : Option TokenKind} {e : Expr} :
      ¬ Continues power next → Expr.RestSpelled e power next [] e
  | binary {power : BindingPower} {next : Option TokenKind} {left right e : Expr}
      {operator : BinaryOperator} {t : Token} {ts us : List Token} :
      t.kind = operator.token → power < .ofPrecedence t.kind.precedence →
      right.Spelled (.ofPrecedence t.kind.precedence) (nextKind us next) ts →
      (Expr.binary operator t.position left right).RestSpelled power next us e →
      left.RestSpelled power next (t :: (ts ++ us)) e
  | call {power : BindingPower} {next : Option TokenKind} {callee e : Expr}
      {arguments : List Expr} {t u : Token} {ts us : List Token} :
      t.kind = .leftParenthesis → power < .call → callee.isCallable = true →
      Expr.ListSpelled (some .rightParenthesis) true arguments ts → u.kind = .rightParenthesis →
      (Expr.call callee arguments).RestSpelled power next us e →
      callee.RestSpelled power next (t :: (ts ++ u :: us)) e

/-- The tokens of expressions with commas between them.  The flag tells that no comma stands before
the first of them. -/
inductive Expr.ListSpelled : Option TokenKind → Bool → List Expr → List Token → Prop
  | done {next : Option TokenKind} {isFirst : Bool} : Expr.ListSpelled next isFirst [] []
  | first {next : Option TokenKind} {e : Expr} {others : List Expr} {ts us : List Token} :
      e.Spelled .default (nextKind us next) ts → Expr.ListSpelled next false others us →
      Expr.ListSpelled next true (e :: others) (ts ++ us)
  | more {next : Option TokenKind} {e : Expr} {others : List Expr} {t : Token}
      {ts us : List Token} :
      t.kind = .comma → e.Spelled .default (nextKind us next) ts →
      Expr.ListSpelled next false others us →
      Expr.ListSpelled next false (e :: others) (t :: (ts ++ us))

end

/-! ### Statements -/

/-- The tokens of an update, behind the name of the variable. -/
inductive Update.Spelled : Option TokenKind → Update → List Token → Prop
  | assign {next : Option TokenKind} {value : Expr} {t : Token} {ts : List Token} :
      t.kind = .assign → value.Spelled .default next ts →
      Update.Spelled next (.assign value) (t :: ts)
  | add {next : Option TokenKind} {value : Expr} {t : Token} {ts : List Token} :
      t.kind = .addAssign → value.Spelled .default next ts →
      Update.Spelled next (.add value) (t :: ts)
  | subtract {next : Option TokenKind} {value : Expr} {t : Token} {ts : List Token} :
      t.kind = .subtractAssign → value.Spelled .default next ts →
      Update.Spelled next (.subtract value) (t :: ts)
  | increment {next : Option TokenKind} {t : Token} :
      t.kind = .increment → Update.Spelled next .increment [t]
  | decrement {next : Option TokenKind} {t : Token} :
      t.kind = .decrement → Update.Spelled next .decrement [t]

/-- The tokens of a statement without blocks.  What has a parenthesis behind its first token is a
call. -/
inductive Simple.Spelled : Option TokenKind → Simple → List Token → Prop
  | call {next : Option TokenKind} {e : Expr} {t u : Token} {ts : List Token} :
      u.kind = .leftParenthesis → e.isCall = true → e.Spelled .default next (t :: u :: ts) →
      Simple.Spelled next (.call t.position e) (t :: u :: ts)
  | change {next : Option TokenKind} {name : Name} {update : Update} {t : Token}
      {ts : List Token} :
      Name.ofToken? t = some name → update.Spelled next ts →
      Simple.Spelled next (.change name update) (t :: ts)

/-- The tokens of a statement without blocks that may be missing. -/
inductive Simple.MaybeSpelled : Option TokenKind → Option Simple → List Token → Prop
  | none {next : Option TokenKind} : Simple.MaybeSpelled next none []
  | some {next : Option TokenKind} {s : Simple} {ts : List Token} :
      s.Spelled next ts → Simple.MaybeSpelled next (some s) ts

mutual

/-- The tokens of a statement. -/
inductive Stmt.Spelled : Option TokenKind → Stmt → List Token → Prop
  | declare {next : Option TokenKind} {name type : Name} {t u v w : Token} :
      t.kind = .varWord → Name.ofToken? u = some name → Name.ofToken? v = some type →
      w.kind = .semicolon → Stmt.Spelled next (.declare t.position name type) [t, u, v, w]
  | simple {next : Option TokenKind} {s : Simple} {ts : List Token} {u : Token} :
      nextKind ts none = some .identifier → s.Spelled (some .semicolon) ts →
      u.kind = .semicolon → Stmt.Spelled next (.simple s) (ts ++ [u])
  | branch {next : Option TokenKind} {condition : Expr} {thenBlock : List Stmt} {t : Token}
      {ts us : List Token} :
      t.kind = .ifWord → condition.Spelled .default (some .leftBrace) ts →
      Stmt.BlockSpelled thenBlock us → next ≠ some .elseWord →
      Stmt.Spelled next (.branch t.position condition thenBlock none) (t :: (ts ++ us))
  | branchElse {next : Option TokenKind} {condition : Expr} {thenBlock elseBlock : List Stmt}
      {t u : Token} {ts us vs : List Token} :
      t.kind = .ifWord → condition.Spelled .default (some .leftBrace) ts →
      Stmt.BlockSpelled thenBlock us → u.kind = .elseWord → Stmt.BlockSpelled elseBlock vs →
      Stmt.Spelled next (.branch t.position condition thenBlock (some elseBlock))
        (t :: (ts ++ (us ++ u :: vs)))
  | whileLoop {next : Option TokenKind} {condition : Expr} {body : List Stmt} {t : Token}
      {ts us : List Token} :
      t.kind = .whileWord → condition.Spelled .default (some .leftBrace) ts →
      Stmt.BlockSpelled body us →
      Stmt.Spelled next (.whileLoop t.position condition body) (t :: (ts ++ us))
  | forLoop {next : Option TokenKind} {init? action? : Option Simple} {condition : Expr}
      {body : List Stmt} {t u v : Token} {ts us vs ws : List Token} :
      t.kind = .forWord → Simple.MaybeSpelled (some .semicolon) init? ts → u.kind = .semicolon →
      condition.Spelled .default (some .semicolon) us → v.kind = .semicolon →
      Simple.MaybeSpelled (some .leftBrace) action? vs → Stmt.BlockSpelled body ws →
      Stmt.Spelled next (.forLoop t.position init? condition action? body)
        (t :: (ts ++ u :: (us ++ v :: (vs ++ ws))))
  | result {next : Option TokenKind} {values : List Expr} {t u : Token} {ts : List Token} :
      t.kind = .returnWord → Expr.ListSpelled (some .semicolon) true values ts →
      u.kind = .semicolon → Stmt.Spelled next (.result t.position values) (t :: (ts ++ [u]))

/-- The tokens of statements in braces. -/
inductive Stmt.BlockSpelled : List Stmt → List Token → Prop
  | intro {statements : List Stmt} {t u : Token} {ts : List Token} :
      t.kind = .leftBrace → Stmt.ListSpelled statements ts → u.kind = .rightBrace →
      Stmt.BlockSpelled statements (t :: (ts ++ [u]))

/-- The tokens of statements before a closing brace.  Nothing stands behind a `return`. -/
inductive Stmt.ListSpelled : List Stmt → List Token → Prop
  | nil : Stmt.ListSpelled [] []
  | cons {s : Stmt} {others : List Stmt} {ts us : List Token} :
      s.Spelled (nextKind us (some .rightBrace)) ts → Stmt.ListSpelled others us →
      (s.isReturn = true → others = []) → Stmt.ListSpelled (s :: others) (ts ++ us)

end

/-! ### Functions -/

/-- The tokens of items with commas between them. -/
inductive ItemsSpelled {α : Type} (item : α → List Token → Prop) : Bool → List α → List Token → Prop
  | done {isFirst : Bool} : ItemsSpelled item isFirst [] []
  | first {x : α} {others : List α} {ts us : List Token} :
      item x ts → ItemsSpelled item false others us →
      ItemsSpelled item true (x :: others) (ts ++ us)
  | more {x : α} {others : List α} {t : Token} {ts us : List Token} :
      t.kind = .comma → item x ts → ItemsSpelled item false others us →
      ItemsSpelled item false (x :: others) (t :: (ts ++ us))

def Name.Spelled (name : Name) (ts : List Token) : Prop :=
  ∃ t, Name.ofToken? t = some name ∧ ts = [t]

def Param.Spelled (p : Param) (ts : List Token) : Prop :=
  ∃ t u, Name.ofToken? t = some p.name ∧ Name.ofToken? u = some p.type ∧ ts = [t, u]

/-- The tokens of the types that a function returns. -/
inductive ResultsSpelled : List Name → List Token → Prop
  | none : ResultsSpelled [] []
  | one {name : Name} {t : Token} : Name.ofToken? t = some name → ResultsSpelled [name] [t]
  | group {names : List Name} {t u : Token} {ts : List Token} :
      t.kind = .leftParenthesis → ItemsSpelled Name.Spelled true names ts →
      u.kind = .rightParenthesis → ResultsSpelled names (t :: (ts ++ [u]))

inductive Func.Spelled : Func → List Token → Prop
  | intro {name : Name} {parameters : List Param} {results : List Name} {body : List Stmt}
      {t u v w : Token} {ts us vs : List Token} :
      t.kind = .funcWord → Name.ofToken? u = some name → v.kind = .leftParenthesis →
      ItemsSpelled Param.Spelled true parameters ts → w.kind = .rightParenthesis →
      ResultsSpelled results us → Stmt.BlockSpelled body vs →
      Func.Spelled ⟨name, parameters, results, body⟩ (t :: u :: v :: (ts ++ w :: (us ++ vs)))

/-- The tokens of a file. -/
inductive FileSpelled : List Func → List Token → Prop
  | nil : FileSpelled [] []
  | cons {f : Func} {others : List Func} {ts us : List Token} :
      f.Spelled ts → FileSpelled others us → FileSpelled (f :: others) (ts ++ us)

end FrontEnd.Syntax
