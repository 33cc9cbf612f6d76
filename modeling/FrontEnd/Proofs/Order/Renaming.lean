/-
**Other numbers for the same nodes.**

Nodes refer to each other by number, and a number only says when a node was made.  A renaming gives
every node and every scope another number, sort by sort, and renamed nodes refer to each other by
these.  A renaming may shift all numbers of a tree from one offset to another, while it does other
things to other trees.

Main definitions:

* `FrontEnd.Renaming` — other numbers for declarations, expressions, statements and scopes;
* `FrontEnd.Declaration.rename`, `FrontEnd.Expression.rename`, `FrontEnd.Statement.rename` — nodes
  that refer to others by their new numbers;
* `FrontEnd.Syntax.Nodes.rename` — all nodes of a tree;
* `FrontEnd.Renaming.Shifts` — renamings that shift the numbers of a tree.
-/

import FrontEnd.Proofs.Layout.Nodes
import Mathlib.Logic.Equiv.Defs

set_option relaxedAutoImplicit false
set_option autoImplicit false

namespace FrontEnd

/-- Another number for every node and every scope. -/
structure Renaming where
  /-- The numbers of declarations. -/
  decls : Equiv.Perm Nat
  /-- The numbers of expressions. -/
  exprs : Equiv.Perm Nat
  /-- The numbers of statements. -/
  stmts : Equiv.Perm Nat
  /-- The numbers of scopes. -/
  scopes : Equiv.Perm Nat

namespace Renaming

/-- The new number of a declaration. -/
def decl (ρ : Renaming) (id : DeclId) : DeclId := ⟨ρ.decls id.index⟩

def expr (ρ : Renaming) (id : ExprId) : ExprId := ⟨ρ.exprs id.index⟩

def stmt (ρ : Renaming) (id : StmtId) : StmtId := ⟨ρ.stmts id.index⟩

def scope (ρ : Renaming) (id : ScopeId) : ScopeId := ⟨ρ.scopes id.index⟩

end Renaming

/-! ### Renamed nodes

A renamed node is the same node, with its parts and references under their new numbers. -/

/-- The reference to the same declaration. -/
def Reference.rename (ρ : Renaming) : Reference → Reference
  | resolved id => resolved (ρ.decl id)
  | pending name scope place => pending name (ρ.scope scope) place

def ExprForm.rename (ρ : Renaming) : ExprForm → ExprForm
  | integer value => integer value
  | character byte => character byte
  | string text => string text
  | bool value => bool value
  | identifier name ref => identifier name (ref.rename ρ)
  | binary operator left right => binary operator (ρ.expr left) (ρ.expr right)
  | not operand => not (ρ.expr operand)
  | call callee arguments => call (ρ.expr callee) (arguments.map ρ.expr)

def Expression.rename (ρ : Renaming) (e : Expression) : Expression where
  form := e.form.rename ρ
  position := e.position
  types? := e.types?.map (List.map ρ.decl)

def Change.rename (ρ : Renaming) : Change → Change
  | assign value => assign (ρ.expr value)
  | add value => add (ρ.expr value)
  | subtract value => subtract (ρ.expr value)
  | increment => increment
  | decrement => decrement

def Block.rename (ρ : Renaming) (b : Block) : Block where
  statements := b.statements.map ρ.stmt
  scope := ρ.scope b.scope

def StmtForm.rename (ρ : Renaming) : StmtForm → StmtForm
  | declare decl => declare (ρ.decl decl)
  | change target c => change (target.rename ρ) (c.rename ρ)
  | call called => call (ρ.expr called)
  | branch condition thenBlock elseBlock? =>
      branch (ρ.expr condition) (thenBlock.rename ρ) (elseBlock?.map (Block.rename ρ))
  | whileLoop condition body => whileLoop (ρ.expr condition) (body.rename ρ)
  | forLoop init? condition action? body =>
      forLoop (init?.map ρ.stmt) (ρ.expr condition) (action?.map ρ.stmt) (body.rename ρ)
  | result values => result (values.map ρ.expr)

def Statement.rename (ρ : Renaming) (s : Statement) : Statement where
  form := s.form.rename ρ
  position := s.position

def Field.rename (ρ : Renaming) (field : Field) : Field where
  name? := field.name?
  decl := ρ.decl field.decl

def Function.rename (ρ : Renaming) (f : Function) : Function where
  name := f.name
  position := f.position
  parameters := f.parameters.map (Field.rename ρ)
  results := f.results.map (Field.rename ρ)
  body := f.body.map ρ.stmt
  scope := ρ.scope f.scope

def Declaration.rename (ρ : Renaming) : Declaration → Declaration
  | var v => var { v with type := v.type.rename ρ }
  | type t => type t
  | func f => func (f.rename ρ)

def Deferred.rename (ρ : Renaming) (d : Deferred) : Deferred where
  fields := d.fields.map ρ.decl
  identifiers := d.identifiers.map ρ.expr
  statements := d.statements.map ρ.stmt

theorem Reference.rename_ofFound (ρ : Renaming) (found? : Option DeclId) (name : String)
    (scope : ScopeId) (place : Position) :
    (ofFound found? name scope place).rename ρ =
      ofFound (found?.map ρ.decl) name (ρ.scope scope) place := by
  cases found? <;> rfl

namespace Syntax

namespace Nodes

/-- The nodes under their new numbers, in the same order. -/
def rename (ρ : Renaming) (y : Nodes) : Nodes where
  declarations := y.declarations.map (Declaration.rename ρ)
  expressions := y.expressions.map (Expression.rename ρ)
  statements := y.statements.map (Statement.rename ρ)
  deferred := y.deferred.rename ρ

variable (ρ : Renaming)

@[simp] theorem rename_empty : ({} : Nodes).rename ρ = {} := rfl

@[simp] theorem rename_append (x y : Nodes) : (x ++ y).rename ρ = x.rename ρ ++ y.rename ρ := by
  change (⟨_, _, _, ⟨_, _, _⟩⟩ : Nodes) = ⟨_, _, _, ⟨_, _, _⟩⟩
  simp only [append_declarations, append_expressions, append_statements, append_deferred,
    Deferred.append_fields, Deferred.append_identifiers, Deferred.append_statements,
    List.map_append]
  rfl

@[simp] theorem rename_ofDeclaration (d : Declaration) :
    (ofDeclaration d).rename ρ = ofDeclaration (d.rename ρ) := rfl

@[simp] theorem rename_ofExpression (e : Expression) :
    (ofExpression e).rename ρ = ofExpression (e.rename ρ) := rfl

@[simp] theorem rename_ofStatement (form : StmtForm) (place : Position) :
    (ofStatement form place).rename ρ = ofStatement (form.rename ρ) place := rfl

@[simp] theorem rename_deferIf (ref : Reference) (places : Deferred) :
    (deferIf ref places).rename ρ = deferIf (ref.rename ρ) (places.rename ρ) := by
  cases ref <;> rfl

end Nodes

end Syntax

/-! ### Shifts -/

namespace Renaming

open Syntax

/-- The renaming keeps the numbers of the built-in types. -/
def KeepsTypes (ρ : Renaming) : Prop := ∀ b : BasicType, ρ.decl b.declaration = b.declaration

/-- The functions that can be named are the same. -/
def Finds (ρ : Renaming) (functions functions' : List (String × DeclId)) : Prop :=
  ∀ name, functions'.lookup name = (functions.lookup name).map ρ.decl

/-- The renaming takes the numbers of a tree behind one offset to those behind another. -/
structure Shifts (ρ : Renaming) (o o' x : Extent) : Prop where
  decls : ∀ k < x.decls, ρ.decls (o.decls + k) = o'.decls + k
  exprs : ∀ k < x.exprs, ρ.exprs (o.exprs + k) = o'.exprs + k
  stmts : ∀ k < x.stmts, ρ.stmts (o.stmts + k) = o'.stmts + k
  scopes : ∀ k < x.scopes, ρ.scopes (o.scopes + k) = o'.scopes + k

variable {ρ : Renaming} {o o' x y : Extent}

theorem forall_lt_add {p : Nat → Prop} {a b : Nat} :
    (∀ k < a + b, p k) ↔ (∀ k < a, p k) ∧ ∀ k < b, p (a + k) := by
  constructor
  · intro h
    exact ⟨fun k hk => h k (by omega), fun k hk => h (a + k) (by omega)⟩
  · rintro ⟨ha, hb⟩ k hk
    by_cases hlt : k < a
    · exact ha k hlt
    · have heq : a + (k - a) = k := by omega
      exact heq ▸ hb (k - a) (by omega)

/-- A whole is shifted if its parts are, one behind the other. -/
theorem shifts_add :
    ρ.Shifts o o' (x + y) ↔ ρ.Shifts o o' x ∧ ρ.Shifts (o + x) (o' + x) y := by
  constructor
  · rintro ⟨decls, exprs, stmts, scopes⟩
    simp only [Extent.add_decls, Extent.add_exprs, Extent.add_stmts, Extent.add_scopes,
      forall_lt_add, ← Nat.add_assoc] at decls exprs stmts scopes
    exact ⟨⟨decls.1, exprs.1, stmts.1, scopes.1⟩, decls.2, exprs.2, stmts.2, scopes.2⟩
  · rintro ⟨hx, hy⟩
    constructor <;> simp only [Extent.add_decls, Extent.add_exprs, Extent.add_stmts,
      Extent.add_scopes, forall_lt_add, ← Nat.add_assoc]
    · exact ⟨hx.decls, hy.decls⟩
    · exact ⟨hx.exprs, hy.exprs⟩
    · exact ⟨hx.stmts, hy.stmts⟩
    · exact ⟨hx.scopes, hy.scopes⟩

theorem shifts_exprs {m n : Nat} : ρ.Shifts o o' (.ofExprs (m + n)) ↔
    ρ.Shifts o o' (.ofExprs m) ∧ ρ.Shifts (o + .ofExprs m) (o' + .ofExprs m) (.ofExprs n) :=
  shifts_add (x := .ofExprs m) (y := .ofExprs n)

theorem shifts_decls {n : Nat} : ρ.Shifts o o' (.ofDecls (n + 1)) ↔
    ρ.Shifts o o' .decl ∧ ρ.Shifts (o + .decl) (o' + .decl) (.ofDecls n) := by
  rw [← shifts_add]
  have hextent : Extent.ofDecls (n + 1) = .decl + .ofDecls n := by
    ext <;> simp [Extent.ofDecls, Extent.decl, Nat.add_comm]
  rw [hextent]

theorem Shifts.decl (h : ρ.Shifts o o' .decl) : ρ.decl ⟨o.decls⟩ = ⟨o'.decls⟩ :=
  congrArg DeclId.mk (h.decls 0 Nat.one_pos)

theorem Shifts.stmt (h : ρ.Shifts o o' .stmt) : ρ.stmt ⟨o.stmts⟩ = ⟨o'.stmts⟩ :=
  congrArg StmtId.mk (h.stmts 0 Nat.one_pos)

theorem Shifts.scope (h : ρ.Shifts o o' .scope) : ρ.scope ⟨o.scopes⟩ = ⟨o'.scopes⟩ :=
  congrArg ScopeId.mk (h.scopes 0 Nat.one_pos)

end Renaming

end FrontEnd
