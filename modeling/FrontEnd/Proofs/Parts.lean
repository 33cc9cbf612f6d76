/-
**What nodes are made of.**

A node refers to its parts by number.  The parts of a node are made before it, so they have smaller
numbers, and going down from wholes to parts comes to an end.

Main definitions:

* `FrontEnd.ExprForm.parts`, `FrontEnd.StmtForm.parts`, `FrontEnd.StmtForm.expressions` — the parts
  of an expression, and the statements and expressions in a statement;
* `FrontEnd.Program.PartsOlder` — programs in which parts are older than wholes;
* `FrontEnd.Program.Within` — the statements that stand at any depth among others.
-/

import FrontEnd.Program

set_option relaxedAutoImplicit false
set_option autoImplicit false

namespace FrontEnd

/-- The expressions that an expression is made of. -/
def ExprForm.parts : ExprForm → List ExprId
  | .binary _ left right => [left, right]
  | .not operand => [operand]
  | .call callee arguments => callee :: arguments
  | .integer _ | .character _ | .string _ | .bool _ | .identifier _ _ => []

/-- The type of a literal. -/
def ExprForm.literalType? : ExprForm → Option BasicType
  | .integer _ => some .int
  | .character _ => some .byte
  | .string _ => some .string
  | .bool _ => some .bool
  | .identifier _ _ | .binary _ _ _ | .not _ | .call _ _ => none

/-- The expressions in the change of a variable. -/
def Change.expressions : Change → List ExprId
  | .assign value | .add value | .subtract value => [value]
  | .increment | .decrement => []

/-- The statements that a statement is made of: those of its blocks, and those in the head of a
counted repetition. -/
def StmtForm.parts : StmtForm → List StmtId
  | .branch _ thenBlock elseBlock? =>
      thenBlock.statements ++ (elseBlock?.map Block.statements).getD []
  | .whileLoop _ body => body.statements
  | .forLoop init? _ action? body => init?.toList ++ (action?.toList ++ body.statements)
  | .declare _ | .change _ _ | .call _ | .result _ => []

/-- The whole expressions in a statement, apart from those in its parts. -/
def StmtForm.expressions : StmtForm → List ExprId
  | .declare _ => []
  | .change _ c => c.expressions
  | .call called => [called]
  | .branch condition _ _ | .whileLoop condition _ | .forLoop _ condition _ _ => [condition]
  | .result values => values

namespace Program

variable {p : Program}

def kind? (p : Program) (id : DeclId) : Option DeclKind := (p.declaration? id).map Declaration.kind

def form? (p : Program) (id : ExprId) : Option ExprForm := (p.expression? id).map Expression.form

theorem form?_eq {id : ExprId} {e : Expression} (h : p.expression? id = some e) :
    p.form? id = some e.form := by
  rw [form?, h]
  rfl

/-- The parts of an expression are older than the expression, and those of a statement older than
the statement. -/
structure PartsOlder (p : Program) : Prop where
  expressions : ∀ id form, p.form? id = some form → ∀ part ∈ form.parts, part.index < id.index
  statements : ∀ id s, p.statement? id = some s → ∀ part ∈ s.form.parts, part.index < id.index

/-- The statement is one of the given ones, or stands at some depth inside of one. -/
inductive Within (p : Program) (ids : List StmtId) : StmtId → Prop where
  | own {id} (h : id ∈ ids) : Within p ids id
  | part {outer s id} (houter : Within p ids outer) (hs : p.statement? outer = some s)
      (h : id ∈ s.form.parts) : Within p ids id

theorem Within.mono {ids ids' : List StmtId} {id : StmtId} (h : p.Within ids id)
    (hids : ∀ other ∈ ids, other ∈ ids') : p.Within ids' id := by
  induction h with
  | own hmem => exact .own (hids _ hmem)
  | part _ hs hpart ih => exact .part ih hs hpart

/-- What stands inside of some statements stands inside of one of them. -/
theorem within_iff {ids : List StmtId} {id : StmtId} :
    p.Within ids id ↔ ∃ outer ∈ ids, p.Within [outer] id := by
  constructor
  · intro h
    induction h with
    | own hmem => exact ⟨_, hmem, .own List.mem_cons_self⟩
    | part _ hs hpart ih =>
        obtain ⟨outer, hmem, hwithin⟩ := ih
        exact ⟨outer, hmem, .part hwithin hs hpart⟩
  · rintro ⟨outer, hmem, hwithin⟩
    refine hwithin.mono ?_
    simpa using hmem

/-- Inside of a statement there are its parts and what is inside of those. -/
theorem within_singleton_iff {outer id : StmtId} {s : Statement} (hs : p.statement? outer = some s) :
    p.Within [outer] id ↔ id = outer ∨ p.Within s.form.parts id := by
  constructor
  · intro h
    induction h with
    | own hmem => exact .inl (List.mem_singleton.1 hmem)
    | part _ hs' hpart ih =>
        rcases ih with rfl | hwithin
        · rw [hs] at hs'
          cases hs'
          exact .inr (.own hpart)
        · exact .inr (.part hwithin hs' hpart)
  · rintro (rfl | h)
    · exact .own List.mem_cons_self
    · induction h with
      | own hmem => exact .part (.own List.mem_cons_self) hs hmem
      | part _ hs' hpart ih => exact .part ih hs' hpart

end Program

end FrontEnd
