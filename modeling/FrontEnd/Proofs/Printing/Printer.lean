/-
**Printing programs.**

A program is printed in two steps.  First the trees are read back from its nodes: the name behind a
reference is that of the declaration, or the name that is still pending.  Then the trees are written
down in the syntax of the language.  An operand stands in parentheses exactly if it would be read
differently without them: operators of one power group to the left, so a left operand needs them if
it binds looser than its operator, and a right operand already if it does not bind tighter.

Main definitions:

* `FrontEnd.Word` — a token without its position;
* `FrontEnd.Syntax.Expr.words`, `FrontEnd.Syntax.Stmt.words`, `FrontEnd.Syntax.Func.words`,
  `FrontEnd.Syntax.fileWords` — how trees are written;
* `FrontEnd.Program.trees` — the functions of a program as trees;
* `FrontEnd.Program.words` — how a program is written.
-/

import FrontEnd.Grammar
import FrontEnd.Program
import FrontEnd.Proofs.Syntax.Tree

set_option relaxedAutoImplicit false
set_option autoImplicit false

namespace FrontEnd

/-! ### Words -/

/-- A token without its position. -/
structure Word where
  /-- The kind of the token. -/
  kind : TokenKind
  /-- What it stands for. -/
  payload : Payload
  deriving DecidableEq, Repr

/-- The token without its position. -/
def Token.word (t : Token) : Word := ⟨t.kind, t.payload⟩

namespace Word

/-- The token at the beginning of the text. -/
def token (w : Word) : Token := ⟨w.kind, w.payload, .start⟩

/-- A token that is known by its kind alone. -/
def symbol (kind : TokenKind) : Word := ⟨kind, .none⟩

def name (text : String) : Word := ⟨.identifier, .name text⟩

end Word

namespace Syntax

open Word

/-- Some items with commas between them. -/
def commas : List (List Word) → List Word
  | [] => []
  | ws :: others => ws ++ others.flatMap (symbol .comma :: ·)

def parentheses (ws : List Word) : List Word :=
  symbol .leftParenthesis :: (ws ++ [symbol .rightParenthesis])

def braces (ws : List Word) : List Word :=
  symbol .leftBrace :: (ws ++ [symbol .rightBrace])

/-! ### Expressions -/

def Literal.word : Literal → Word
  | integer value => ⟨.integer, .integer value⟩
  | character byte => ⟨.character, .character byte⟩
  | string text => ⟨.string, .string text⟩
  | bool true => symbol .trueWord
  | bool false => symbol .falseWord

namespace Expr

/-- How tightly an operator between operands binds, and everything else tighter than any of them. -/
def power : Expr → BindingPower
  | binary operator _ _ _ => .ofPrecedence operator.token.precedence
  | _ => .call

/-- An operand, in parentheses if it needs them. -/
def operandWords (inParentheses : Bool) (ws : List Word) : List Word :=
  if inParentheses then parentheses ws else ws

mutual

/-- How an expression is written. -/
def words : Expr → List Word
  | literal value _ => [value.word]
  | name n => [.name n.text]
  | not _ operand => symbol .not :: operandWords (operand.power ≤ .unary) operand.words
  | binary operator _ left right =>
      operandWords (left.power < .ofPrecedence operator.token.precedence) left.words ++
        symbol operator.token ::
          operandWords (right.power ≤ .ofPrecedence operator.token.precedence) right.words
  | call callee arguments => callee.words ++ parentheses (commas (wordsAll arguments))

def wordsAll : List Expr → List (List Word)
  | [] => []
  | e :: others => e.words :: wordsAll others

end

end Expr

/-! ### Statements -/

/-- How an update is written, behind the name of the variable. -/
def Update.words : Update → List Word
  | assign value => symbol .assign :: value.words
  | add value => symbol .addAssign :: value.words
  | subtract value => symbol .subtractAssign :: value.words
  | increment => [symbol .increment]
  | decrement => [symbol .decrement]

def Simple.words : Simple → List Word
  | call _ e => e.words
  | change target update => .name target.text :: update.words

def Simple.words? : Option Simple → List Word
  | none => []
  | some s => s.words

namespace Stmt

mutual

/-- How a statement is written. -/
def words : Stmt → List Word
  | declare _ name type =>
      [symbol .varWord, .name name.text, .name type.text, symbol .semicolon]
  | simple s => s.words ++ [symbol .semicolon]
  | branch _ condition thenBlock none =>
      symbol .ifWord :: (condition.words ++ braces (wordsAll thenBlock))
  | branch _ condition thenBlock (some elseBlock) =>
      symbol .ifWord :: (condition.words ++ (braces (wordsAll thenBlock) ++
        symbol .elseWord :: braces (wordsAll elseBlock)))
  | whileLoop _ condition body =>
      symbol .whileWord :: (condition.words ++ braces (wordsAll body))
  | forLoop _ init? condition action? body =>
      symbol .forWord :: (Simple.words? init? ++ symbol .semicolon :: (condition.words ++
        symbol .semicolon :: (Simple.words? action? ++ braces (wordsAll body))))
  | result _ values =>
      symbol .returnWord :: (commas (Expr.wordsAll values) ++ [symbol .semicolon])

def wordsAll : List Stmt → List Word
  | [] => []
  | s :: others => s.words ++ wordsAll others

end

end Stmt

/-! ### Functions -/

def Param.words (p : Param) : List Word := [.name p.name.text, .name p.type.text]

/-- How the types that a function returns are written: not at all if there are none, and in
parentheses if there are several. -/
def resultWords : List Name → List Word
  | [] => []
  | [type] => [.name type.text]
  | types => parentheses (commas (types.map fun type => [.name type.text]))

def Func.words (f : Func) : List Word :=
  symbol .funcWord :: .name f.name.text :: (parentheses (commas (f.parameters.map Param.words)) ++
    (resultWords f.results ++ braces (Stmt.wordsAll f.body)))

def fileWords (fs : List Func) : List Word := fs.flatMap Func.words

end Syntax

/-! ### Trees of programs -/

/-- The name that a declaration introduces; results have none. -/
def Declaration.name : Declaration → String
  | var v => v.name?.getD ""
  | type t => t.name
  | func f => f.name

namespace Program

open Syntax

variable (p : Program)

/-- The name that was written where the reference stands: that of the declaration, or the one that
is pending. -/
def nameOf : Reference → Name
  | .resolved id => ⟨((p.declaration? id).map Declaration.name).getD "", .start⟩
  | .pending name _ _ => ⟨name, .start⟩

/-- The tree of an expression in which parts are nested less than `n` deep.  A missing part, which
no program that was read has, is taken for an empty name. -/
def exprTreeUpTo : Nat → ExprId → Expr
  | 0, _ => .name ⟨"", .start⟩
  | n + 1, id =>
      match (p.expression? id).map Expression.form with
      | none => .name ⟨"", .start⟩
      | some (.integer value) => .literal (.integer value) .start
      | some (.character byte) => .literal (.character byte) .start
      | some (.string text) => .literal (.string text) .start
      | some (.bool value) => .literal (.bool value) .start
      | some (.identifier _ ref) => .name (p.nameOf ref)
      | some (.not operand) => .not .start (exprTreeUpTo n operand)
      | some (.binary operator left right) =>
          .binary operator .start (exprTreeUpTo n left) (exprTreeUpTo n right)
      | some (.call callee arguments) =>
          .call (exprTreeUpTo n callee) (arguments.map (exprTreeUpTo n))

/-- The tree of an expression.  Its parts are older than it is, so its own number bounds how deep
they are nested. -/
def exprTree (id : ExprId) : Expr := p.exprTreeUpTo (id.index + 1) id

def updateTree : Change → Update
  | .assign value => .assign (p.exprTree value)
  | .add value => .add (p.exprTree value)
  | .subtract value => .subtract (p.exprTree value)
  | .increment => .increment
  | .decrement => .decrement

/-- The tree of a statement without blocks, if it is one. -/
def simpleTree? (id : StmtId) : Option Simple :=
  match (p.statement? id).map Statement.form with
  | some (.call e) => some (.call .start (p.exprTree e))
  | some (.change target change) => some (.change (p.nameOf target) (p.updateTree change))
  | _ => none

/-- The name and the type of a variable. -/
def variableTree (id : DeclId) : Param :=
  match p.declaration? id with
  | some (.var v) => ⟨⟨v.name?.getD "", .start⟩, p.nameOf v.type⟩
  | _ => ⟨⟨"", .start⟩, ⟨"", .start⟩⟩

/-- The tree of a statement in which blocks are nested less than `n` deep.  A missing statement,
which no program that was read has, is taken for an empty `return`. -/
def stmtTreeUpTo : Nat → StmtId → Stmt
  | 0, _ => .result .start []
  | n + 1, id =>
      match (p.statement? id).map Statement.form with
      | none => .result .start []
      | some (.declare decl) =>
          .declare .start (p.variableTree decl).name (p.variableTree decl).type
      | some (.call e) => .simple (.call .start (p.exprTree e))
      | some (.change target change) => .simple (.change (p.nameOf target) (p.updateTree change))
      | some (.branch condition thenBlock elseBlock?) =>
          .branch .start (p.exprTree condition) (thenBlock.statements.map (stmtTreeUpTo n))
            (elseBlock?.map fun block => block.statements.map (stmtTreeUpTo n))
      | some (.whileLoop condition body) =>
          .whileLoop .start (p.exprTree condition) (body.statements.map (stmtTreeUpTo n))
      | some (.forLoop init? condition action? body) =>
          .forLoop .start (init?.bind p.simpleTree?) (p.exprTree condition)
            (action?.bind p.simpleTree?) (body.statements.map (stmtTreeUpTo n))
      | some (.result values) => .result .start (values.map p.exprTree)

/-- The tree of a statement.  The statements of its blocks are older than it is. -/
def stmtTree (id : StmtId) : Stmt := p.stmtTreeUpTo (id.index + 1) id

def funcTree (f : Function) : Func where
  name := ⟨f.name, .start⟩
  parameters := f.parameters.map fun field => p.variableTree field.decl
  results := f.results.map fun field => (p.variableTree field.decl).type
  body := f.body.map p.stmtTree

/-- **The functions of a program as trees**, without positions. -/
def trees : List Func := (p.topLevel.filterMap p.function?).map p.funcTree

/-- **How a program is written.** -/
def words : List Word := fileWords p.trees

end Program

end FrontEnd
