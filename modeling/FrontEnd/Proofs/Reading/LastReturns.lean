/-
**A `return` ends its list.**

When a list of statements is read, the statement before is looked at only if another one follows.
Still, in a file that is accepted every list ends at its first `return`: the body of every function
and every block at any depth, for a block is a list that was read in the same way.  What stands in
the head of a counted repetition is in no list; there only calls and changes are read, so it is
neither a `return` nor a declaration.

A list is made of numbers of statements, so what holds of a list when it has been read goes on to
hold because statements are never changed.

Main definitions:

* `FrontEnd.StmtForm.blocks`, `FrontEnd.StmtForm.heads` — the blocks of a statement, and the
  statements in its head;
* `FrontEnd.Program.EndsAtReturn` — a list in which nothing follows a `return`;
* `FrontEnd.Program.WellListed` — programs in which this holds of all lists.

Main results:

* `FrontEnd.Parser.isPlain_of_simple` — what is read in a head is a call or a change;
* `FrontEnd.Parser.ended_of_statementsUpTo` — what is read up to a closing brace ends at its first
  `return`;
* `FrontEnd.parseFile_wellListed` — **in a file that is accepted, every `return` ends its list**.
-/

import FrontEnd.Proofs.Reading.Appending

set_option relaxedAutoImplicit false
set_option autoImplicit false

namespace FrontEnd

open Run

/-! ### Lists of statements -/

/-- The blocks of a statement. -/
def StmtForm.blocks : StmtForm → List Block
  | .branch _ thenBlock elseBlock? => thenBlock :: elseBlock?.toList
  | .whileLoop _ body => [body]
  | .forLoop _ _ _ body => [body]
  | .declare _ | .change _ _ | .call _ | .result _ => []

/-- The statements in the head of a counted repetition: what comes first, and what comes after each
round. -/
def StmtForm.heads : StmtForm → List StmtId
  | .forLoop init? _ action? _ => init?.toList ++ action?.toList
  | .declare _ | .change _ _ | .call _ | .branch _ _ _ | .whileLoop _ _ | .result _ => []

/-- The parts of a statement are those in its head and those in its blocks. -/
theorem StmtForm.parts_eq (form : StmtForm) :
    form.parts = form.heads ++ form.blocks.flatMap Block.statements := by
  cases form with
  | branch condition thenBlock elseBlock? => cases elseBlock? <;> simp [parts, heads, blocks]
  | forLoop init? condition action? body => simp [parts, heads, blocks]
  | whileLoop condition body => simp [parts, heads, blocks]
  | declare decl => rfl
  | change target change => rfl
  | call call => rfl
  | result values => rfl

namespace Program

variable {p q : Program} {ids others : List StmtId} {id : StmtId}

/-- Each statement of the list is there, and nothing follows it in the list if it is a
`return`. -/
def EndsAtReturn (p : Program) (ids : List StmtId) : Prop :=
  ∀ before id behind, ids = before ++ id :: behind →
    ∃ x, p.statement? id = some x ∧ (x.isReturn = true → behind = [])

theorem endsAtReturn_nil (p : Program) : p.EndsAtReturn [] := by
  intro before id behind h
  cases before <;> cases h

theorem EndsAtReturn.cons {x : Statement} (hx : p.statement? id = some x)
    (hlast : x.isReturn = true → others = []) (h : p.EndsAtReturn others) :
    p.EndsAtReturn (id :: others) := by
  intro before other behind heq
  cases before with
  | nil =>
      obtain ⟨rfl, rfl⟩ := List.cons.inj heq
      exact ⟨x, hx, hlast⟩
  | cons first before =>
      obtain ⟨-, htail⟩ := List.cons.inj heq
      exact h before other behind htail

/-- It does not matter what else is there. -/
theorem EndsAtReturn.mono (h : p.EndsAtReturn ids)
    (hkeeps : ∀ id x, p.statement? id = some x → q.statement? id = some x) :
    q.EndsAtReturn ids := by
  intro before id behind heq
  obtain ⟨x, hx, hlast⟩ := h before id behind heq
  exact ⟨x, hkeeps id x hx, hlast⟩

/-- The statement is neither a `return` nor the declaration of a variable. -/
def IsPlain (p : Program) (id : StmtId) : Prop :=
  ∃ x, p.statement? id = some x ∧ x.isReturn = false ∧ ∀ decl, x.form ≠ .declare decl

theorem IsPlain.mono (h : p.IsPlain id)
    (hkeeps : ∀ id x, p.statement? id = some x → q.statement? id = some x) : q.IsPlain id := by
  obtain ⟨x, hx, hplain⟩ := h
  exact ⟨x, hkeeps id x hx, hplain⟩

/-- In every list of the program nothing follows a `return`, and what stands in the head of a
counted repetition is neither a `return` nor a declaration. -/
structure WellListed (p : Program) : Prop where
  bodies : ∀ decl f, p.declaration? decl = some (.func f) → p.EndsAtReturn f.body
  blocks : ∀ id x, p.statement? id = some x → ∀ b ∈ x.form.blocks, p.EndsAtReturn b.statements
  heads : ∀ id x, p.statement? id = some x → ∀ head ∈ x.form.heads, p.IsPlain head

namespace WellListed

/-- Expressions and scopes do not matter. -/
theorem of_eq (h : p.WellListed) (hdeclarations : q.declarations = p.declarations)
    (hstatements : q.statements = p.statements) : q.WellListed := by
  have hdecl : ∀ decl, q.declaration? decl = p.declaration? decl := fun decl => by
    rw [declaration?, declaration?, hdeclarations]
  have hstmt : ∀ id, q.statement? id = p.statement? id := fun id => by
    rw [statement?, statement?, hstatements]
  have hkeeps : ∀ id x, p.statement? id = some x → q.statement? id = some x := fun id x hx =>
    (hstmt id).trans hx
  refine ⟨fun decl f hf => ?_, fun id x hx b hb => ?_, fun id x hx head hhead => ?_⟩
  · rw [hdecl] at hf
    exact (h.bodies decl f hf).mono hkeeps
  · rw [hstmt] at hx
    exact (h.blocks id x hx b hb).mono hkeeps
  · rw [hstmt] at hx
    exact (h.heads id x hx head hhead).mono hkeeps

theorem addDeclaration (h : p.WellListed) {d : Declaration}
    (hbody : ∀ f, d = .func f → p.EndsAtReturn f.body) : (p.addDeclaration d).WellListed := by
  refine ⟨fun decl f hf => ?_, h.blocks, h.heads⟩
  rw [declaration?_addDeclaration] at hf
  split at hf
  · exact hbody f (Option.some.inj hf)
  · exact h.bodies decl f hf

/-- A further statement keeps the lists well ended, if its own blocks are. -/
theorem addStatement (h : p.WellListed) {x : Statement}
    (hblocks : ∀ b ∈ x.form.blocks, p.EndsAtReturn b.statements)
    (hheads : ∀ head ∈ x.form.heads, p.IsPlain head) : (p.addStatement x).WellListed := by
  have hkeeps : ∀ id y, p.statement? id = some y → (p.addStatement x).statement? id = some y :=
    fun id y hy => statement?_add_of_some hy x
  have hcases : ∀ id y, (p.addStatement x).statement? id = some y →
      y = x ∨ p.statement? id = some y := by
    intro id y hy
    rw [statement?_addStatement] at hy
    split at hy
    · exact .inl (Option.some.inj hy).symm
    · exact .inr hy
  refine ⟨fun decl f hf => (h.bodies decl f hf).mono hkeeps, fun id y hy b hb => ?_,
    fun id y hy head hhead => ?_⟩
  · rcases hcases id y hy with rfl | hold
    · exact (hblocks b hb).mono hkeeps
    · exact (h.blocks id y hold b hb).mono hkeeps
  · rcases hcases id y hy with rfl | hold
    · exact (hheads head hhead).mono hkeeps
    · exact (h.heads id y hold head hhead).mono hkeeps

/-- A body keeps the lists well ended, if it is one. -/
theorem setBody (h : p.WellListed) (decl : DeclId) {body : List StmtId}
    (hbody : p.EndsAtReturn body) : (p.setBody decl body).WellListed := by
  refine ⟨fun other f hf => ?_, h.blocks, h.heads⟩
  rw [Program.setBody, declaration?_modifyDeclaration] at hf
  split at hf
  · obtain ⟨d, hd, hchanged⟩ := Option.map_eq_some_iff.1 hf
    cases d with
    | func f' =>
        cases hchanged
        exact hbody
    | var v => cases hchanged
    | type t => cases hchanged
  · exact h.bodies other f hf

theorem initial : Program.initial.WellListed := by
  have hnone : ∀ id, Program.initial.statement? id = none := fun id => by
    simp [statement?, Program.initial]
  refine ⟨fun decl f hf => ?_, fun id x hx => ?_, fun id x hx => ?_⟩
  · obtain ⟨b, -, hb⟩ : ∃ b ∈ BasicType.all, Declaration.type ⟨b.name, none, b⟩ = .func f := by
      have hmem := List.mem_of_getElem? (Array.getElem?_toList.trans hf)
      exact List.mem_map.1 hmem
    cases hb
  · rw [hnone] at hx
    cases hx
  · rw [hnone] at hx
    cases hx

end WellListed

end Program

namespace Parser

open ScopeTree (nowhere)

variable {s s' : Parser} {scope : ScopeId} {g : Grammar}

/-! ### Reading without lists -/

/-- If all lists were well ended before, they are so afterwards. -/
def KeepsListed (s s' : Parser) : Prop := s.program.WellListed → s'.program.WellListed

instance : IsFrame KeepsListed where
  of_eq hprogram _ h := hprogram ▸ h
  trans h h' hlisted := h' (h hlisted)

theorem keepsListed_deferIf (ref : Reference) (change : Deferred → Deferred) :
    Leaves KeepsListed (deferIf ref change) := by
  intro s hlisted
  cases ref with
  | resolved decl => exact hlisted
  | pending name scope place => exact hlisted

theorem keepsListed_addStatement {form : StmtForm} (place : Position) (hparts : form.parts = []) :
    Leaves KeepsListed (addStatement form place) := by
  intro s hlisted
  rw [StmtForm.parts_eq, List.append_eq_nil_iff, List.flatMap_eq_nil_iff] at hparts
  obtain ⟨hheads, hblocks⟩ := hparts
  refine hlisted.addStatement (fun b hb => ?_) fun head hhead => ?_
  · rw [hblocks b hb]
    exact Program.endsAtReturn_nil _
  · rw [hheads] at hhead
    cases hhead

theorem keepsListed_declare (scope : ScopeId) (kind : DeclKind) (name : String) (decl : DeclId)
    (place : Position) :
    Leaves KeepsListed (onProgram (Program.declare scope kind name decl place)) := by
  intro s hlisted
  unfold onProgram Program.declare
  cases s.program.scopes.declare scope kind name decl place with
  | error e => exact hlisted
  | ok scopes => exact hlisted.of_eq rfl rfl

theorem keepsListed_extend (scope : ScopeId) (name : String) (decl : DeclId) (place : Position) :
    Leaves KeepsListed (onProgram (Program.extend scope name decl place)) := by
  intro s hlisted
  unfold onProgram Program.extend
  cases ScopeTree.extend scope name decl place s.program.scopes with
  | error e scopes => exact hlisted.of_eq rfl rfl
  | ok id scopes => exact hlisted.of_eq rfl rfl

instance : IsBuilding KeepsListed where
  of_expressions h hlisted := hlisted.of_eq h.declarations h.statements
  addVariable _ _ hlisted := hlisted.addDeclaration fun _ hf => by cases hf
  addStatement _ place hparts := keepsListed_addStatement place hparts
  deferField ref _ := keepsListed_deferIf ref _
  deferStatement ref _ := keepsListed_deferIf ref _
  newScope _ _ _ hlisted := hlisted.of_eq rfl rfl
  extend := keepsListed_extend

theorem statement?_of_add {form : StmtForm} {place : Position} {id : StmtId}
    (h : addStatement form place s = .ok id s') :
    s'.program.statement? id = some ⟨form, place⟩ := by
  cases h
  exact (Program.statement?_addStatement _ _ _).trans (if_pos rfl)

theorem statement?_of_deferIf {ref : Reference} {change : Deferred → Deferred} {u : Unit}
    {id : StmtId} {x : Statement} (hx : s.program.statement? id = some x)
    (h : deferIf ref change s = .ok u s') : s'.program.statement? id = some x := by
  cases h
  cases ref with
  | resolved decl => exact hx
  | pending name scope place => exact hx

/-- **What is read in a head is a call or a change**, and so neither a `return` nor a
declaration. -/
theorem isPlain_of_simple {id : StmtId} (h : simple g scope s = .ok id s') :
    s'.program.IsPlain id := by
  rw [simple, get_bind_apply] at h
  split at h
  · rw [callStatement, get_bind_apply] at h
    obtain ⟨call, s₁, -, h⟩ := bind_ok_iff.1 h
    rw [get_bind_apply] at h
    split at h
    · refine ⟨_, statement?_of_add h, rfl, ?_⟩
      rintro decl ⟨⟩
    · cases h
  · rw [changeStatement, get_bind_apply] at h
    obtain ⟨named, s₁, -, h⟩ := bind_ok_iff.1 h
    obtain ⟨looked, s₂, -, h⟩ := bind_ok_iff.1 h
    obtain ⟨sign, s₃, -, h⟩ := bind_ok_iff.1 h
    obtain ⟨change, s₄, -, h⟩ := bind_ok_iff.1 h
    obtain ⟨id, s₅, hadd, h⟩ := bind_ok_iff.1 h
    obtain ⟨u, s₆, hdefer, h⟩ := bind_ok_iff.1 h
    obtain ⟨rfl, rfl⟩ := pure_ok_iff.1 h
    refine ⟨_, statement?_of_deferIf (statement?_of_add hadd) hdefer, rfl, ?_⟩
    rintro decl ⟨⟩

/-- What a simple statement gives is plain: it neither returns nor declares. -/
theorem isPlain_of_simpleUnless {kind : TokenKind} {head? : Option StmtId}
    (h : simpleUnless g kind scope s = .ok head? s') : ∀ id ∈ head?, s'.program.IsPlain id := by
  rw [simpleUnless, get_bind_apply] at h
  split at h
  · obtain ⟨rfl, -⟩ := pure_ok_iff.1 h
    intro id hid
    cases hid
  · obtain ⟨id, hsimple, rfl⟩ := map_ok_iff.1 h
    intro other hother
    obtain rfl := Option.some.inj hother
    exact isPlain_of_simple hsimple

/-! ### Statements -/

/-- All lists are well ended, and the statement is there. -/
structure Stands (s : Parser) (id : StmtId) : Prop where
  listed : s.program.WellListed
  stands : ∃ x, s.program.statement? id = some x

theorem Stands.of_add {form : StmtForm} {place : Position} {id : StmtId}
    (hlisted : s.program.WellListed) (h : addStatement form place s = .ok id s')
    (hblocks : ∀ b ∈ form.blocks, s.program.EndsAtReturn b.statements)
    (hheads : ∀ head ∈ form.heads, s.program.IsPlain head) : s'.Stands id := by
  refine ⟨?_, _, statement?_of_add h⟩
  cases h
  exact hlisted.addStatement hblocks hheads

/-- A declaration has no lists of its own. -/
theorem stands_of_declareStatement {answer : StmtId × ScopeId} (hlisted : s.program.WellListed)
    (h : declareStatement scope s = .ok answer s') : s'.Stands answer.1 := by
  refine ⟨(leaves_declareStatement scope : Leaves KeepsListed _).of_ok h hlisted, ?_⟩
  obtain ⟨first, s₁, -, h⟩ := bind_ok_iff.1 h
  obtain ⟨named, s₂, -, h⟩ := bind_ok_iff.1 h
  obtain ⟨type, s₃, -, h⟩ := bind_ok_iff.1 h
  obtain ⟨u, s₄, -, h⟩ := bind_ok_iff.1 h
  obtain ⟨decl, s₅, -, h⟩ := bind_ok_iff.1 h
  obtain ⟨behind, s₆, -, h⟩ := bind_ok_iff.1 h
  obtain ⟨id, s₇, hadd, h⟩ := bind_ok_iff.1 h
  obtain ⟨u, s₈, hdefer, h⟩ := bind_ok_iff.1 h
  obtain ⟨rfl, rfl⟩ := pure_ok_iff.1 h
  exact ⟨_, statement?_of_deferIf (statement?_of_add hadd) hdefer⟩

theorem stands_of_simpleStatement {answer : StmtId × ScopeId} (hlisted : s.program.WellListed)
    (h : simpleStatement g scope s = .ok answer s') : s'.Stands answer.1 := by
  refine ⟨(leaves_simpleStatement g scope : Leaves KeepsListed _).of_ok h hlisted, ?_⟩
  obtain ⟨id, s₁, hsimple, h⟩ := bind_ok_iff.1 h
  obtain ⟨u, s₂, hend, h⟩ := bind_ok_iff.1 h
  obtain ⟨rfl, rfl⟩ := pure_ok_iff.1 h
  obtain ⟨x, hx, -⟩ := isPlain_of_simple hsimple
  have hkeeps : Appends nowhere s₁ s₂ := (leaves_expect .semicolon).discard.of_ok hend
  exact ⟨x, hkeeps.statements id x hx⟩

theorem stands_of_resultStatement {answer : StmtId × ScopeId} (hlisted : s.program.WellListed)
    (h : resultStatement g scope s = .ok answer s') : s'.Stands answer.1 := by
  refine ⟨(leaves_resultStatement g scope : Leaves KeepsListed _).of_ok h hlisted, ?_⟩
  obtain ⟨first, s₁, -, h⟩ := bind_ok_iff.1 h
  obtain ⟨values, s₂, -, h⟩ := bind_ok_iff.1 h
  obtain ⟨u, s₃, -, h⟩ := bind_ok_iff.1 h
  obtain ⟨id, s₄, hadd, h⟩ := bind_ok_iff.1 h
  obtain ⟨rfl, rfl⟩ := pure_ok_iff.1 h
  exact ⟨_, statement?_of_add hadd⟩

section Lists

/-- All lists are well ended, among them the given one. -/
structure Ended (s : Parser) (ids : List StmtId) : Prop where
  listed : s.program.WellListed
  ended : s.program.EndsAtReturn ids

variable {list : ScopeId → ParseM (List StmtId)}
  (happends : ∀ scope, Leaves (Appends nowhere) (list scope))
  (hlist : ∀ {scope ids s s'}, s.program.WellListed → list scope s = .ok ids s' → s'.Ended ids)

include hlist

/-- A list in braces is a list that was read up to its end. -/
theorem ended_of_braced {ids : List StmtId} (hlisted : s.program.WellListed)
    (h : braced list scope s = .ok ids s') : s'.Ended ids := by
  obtain ⟨u, s₁, hopen, h⟩ := bind_ok_iff.1 h
  obtain ⟨ids, s₂, hids, h⟩ := bind_ok_iff.1 h
  obtain ⟨u, s₃, hclose, h⟩ := bind_ok_iff.1 h
  obtain ⟨rfl, rfl⟩ := pure_ok_iff.1 h
  have hlisted₁ : s₁.program.WellListed :=
    (leaves_expect .leftBrace : Leaves KeepsListed _).discard.of_ok hopen hlisted
  obtain ⟨hlisted₂, hended⟩ := hlist hlisted₁ hids
  have hkeeps : Appends nowhere s₂ s₃ := (leaves_expect .rightBrace).discard.of_ok hclose
  have hlisted₃ : KeepsListed s₂ s₃ := (leaves_expect .rightBrace).discard.of_ok hclose
  exact ⟨hlisted₃ hlisted₂, hended.mono hkeeps.statements⟩

theorem ended_of_blockOf {b : Block} (hlisted : s.program.WellListed)
    (h : blockOf list scope s = .ok b s') : s'.Ended b.statements := by
  obtain ⟨inner, s₁, hscope, h⟩ := bind_ok_iff.1 h
  obtain ⟨ids, s₂, hbraced, h⟩ := bind_ok_iff.1 h
  obtain ⟨rfl, rfl⟩ := pure_ok_iff.1 h
  have hkeeps : KeepsListed s s₁ := Leaves.of_ok (IsBuilding.newScope .block scope) hscope
  exact ended_of_braced hlist (hkeeps hlisted) hbraced

/-- The second part of a choice, if there is one, is well ended. -/
theorem ended_of_elseBlock {b? : Option Block} (hlisted : s.program.WellListed)
    (h : elseBlock list scope s = .ok b? s') :
    s'.program.WellListed ∧ ∀ b ∈ b?, s'.program.EndsAtReturn b.statements := by
  rw [elseBlock, get_bind_apply] at h
  split at h
  · obtain ⟨u, s₁, hadvance, h⟩ := bind_ok_iff.1 h
    obtain ⟨b, hblock, rfl⟩ := map_ok_iff.1 h
    have hkeeps : KeepsListed s s₁ := leaves_advance.discard.of_ok hadvance
    obtain ⟨hlisted', hended⟩ := ended_of_blockOf hlist (hkeeps hlisted) hblock
    refine ⟨hlisted', fun other hother => ?_⟩
    obtain rfl := Option.some.inj hother
    exact hended
  · obtain ⟨rfl, rfl⟩ := pure_ok_iff.1 h
    exact ⟨hlisted, fun b hb => by cases hb⟩

include happends

/-- A choice is a statement with two well ended lists at most. -/
theorem stands_of_branchStatement {answer : StmtId × ScopeId} (hlisted : s.program.WellListed)
    (h : branchStatement g list scope s = .ok answer s') : s'.Stands answer.1 := by
  obtain ⟨first, s₁, hfirst, h⟩ := bind_ok_iff.1 h
  obtain ⟨condition, s₂, hcondition, h⟩ := bind_ok_iff.1 h
  obtain ⟨thenBlock, s₃, hthen, h⟩ := bind_ok_iff.1 h
  obtain ⟨elseBlock?, s₄, helse, h⟩ := bind_ok_iff.1 h
  obtain ⟨id, s₅, hadd, h⟩ := bind_ok_iff.1 h
  obtain ⟨rfl, rfl⟩ := pure_ok_iff.1 h
  have hhead : KeepsListed s s₂ := IsFrame.trans ((leaves_expect .ifWord).of_ok hfirst)
    ((leaves_expression g scope .default).building.of_ok hcondition)
  obtain ⟨hlisted₃, hended⟩ := ended_of_blockOf hlist (hhead hlisted) hthen
  obtain ⟨hlisted₄, hended'⟩ := ended_of_elseBlock hlist hlisted₃ helse
  refine .of_add hlisted₄ hadd (fun b hb => ?_) fun head hhead => by cases hhead
  rcases List.mem_cons.1 hb with rfl | hb
  · exact hended.mono ((appends_elseBlock happends scope).of_ok helse).statements
  · exact hended' b (Option.mem_toList.1 hb)

omit happends in
/-- A repetition is a statement with one well ended list. -/
theorem stands_of_whileStatement {answer : StmtId × ScopeId} (hlisted : s.program.WellListed)
    (h : whileStatement g list scope s = .ok answer s') : s'.Stands answer.1 := by
  obtain ⟨first, s₁, hfirst, h⟩ := bind_ok_iff.1 h
  obtain ⟨condition, s₂, hcondition, h⟩ := bind_ok_iff.1 h
  obtain ⟨body, s₃, hbody, h⟩ := bind_ok_iff.1 h
  obtain ⟨id, s₄, hadd, h⟩ := bind_ok_iff.1 h
  obtain ⟨rfl, rfl⟩ := pure_ok_iff.1 h
  have hhead : KeepsListed s s₂ := IsFrame.trans ((leaves_expect .whileWord).of_ok hfirst)
    ((leaves_expression g scope .default).building.of_ok hcondition)
  obtain ⟨hlisted₃, hended⟩ := ended_of_blockOf hlist (hhead hlisted) hbody
  refine .of_add hlisted₃ hadd (fun b hb => ?_) fun head hhead => by cases hhead
  rw [List.mem_singleton.1 hb]
  exact hended

/-- The statements in the head were read before the body, and are still there behind it. -/
theorem stands_of_forStatement {answer : StmtId × ScopeId} (hlisted : s.program.WellListed)
    (h : forStatement g list scope s = .ok answer s') : s'.Stands answer.1 := by
  obtain ⟨first, s₁, hfirst, h⟩ := bind_ok_iff.1 h
  obtain ⟨init?, s₂, hinit, h⟩ := bind_ok_iff.1 h
  obtain ⟨u, s₃, hsemicolon, h⟩ := bind_ok_iff.1 h
  obtain ⟨condition, s₄, hcondition, h⟩ := bind_ok_iff.1 h
  obtain ⟨u, s₅, hsemicolon', h⟩ := bind_ok_iff.1 h
  obtain ⟨action?, s₆, haction, h⟩ := bind_ok_iff.1 h
  obtain ⟨body, s₇, hbody, h⟩ := bind_ok_iff.1 h
  obtain ⟨id, s₈, hadd, h⟩ := bind_ok_iff.1 h
  obtain ⟨rfl, rfl⟩ := pure_ok_iff.1 h
  have hfor : KeepsListed s s₂ := IsFrame.trans ((leaves_expect .forWord).of_ok hfirst)
    ((leaves_simpleUnless g scope _).of_ok hinit)
  have hhead : ∀ {R : Parser → Parser → Prop} [IsBuilding R], R s₂ s₆ := by
    intro R _
    refine IsFrame.trans ((leaves_expect .semicolon).discard.of_ok hsemicolon) ?_
    refine IsFrame.trans ((leaves_expression g scope .default).building.of_ok hcondition) ?_
    refine IsFrame.trans ((leaves_expect .semicolon).discard.of_ok hsemicolon') ?_
    exact (leaves_simpleUnless g scope _).of_ok haction
  have hkept : Appends nowhere s₂ s₆ := hhead
  have hkept' : Appends nowhere s₆ s₇ := (appends_blockOf happends scope).of_ok hbody
  have hlisted₆ : KeepsListed s₂ s₆ := hhead
  obtain ⟨hlisted₇, hended⟩ := ended_of_blockOf hlist (hlisted₆ (hfor hlisted)) hbody
  refine .of_add hlisted₇ hadd (fun b hb => ?_) fun head hhead => ?_
  · rw [List.mem_singleton.1 hb]
    exact hended
  · rcases List.mem_append.1 hhead with hmem | hmem
    · have hplain := isPlain_of_simpleUnless hinit head (Option.mem_toList.1 hmem)
      exact hplain.mono (hkept.trans hkept').statements
    · have hplain := isPlain_of_simpleUnless haction head (Option.mem_toList.1 hmem)
      exact hplain.mono hkept'.statements

/-- Every statement that is read keeps the lists well ended, whatever its form. -/
theorem stands_of_statementOf {answer : StmtId × ScopeId} (hlisted : s.program.WellListed)
    (h : statementOf g list scope s = .ok answer s') : s'.Stands answer.1 := by
  rw [statementOf, get_bind_apply] at h
  cases hrule : s.kind?.bind g.statementRule with
  | none =>
      rw [hrule] at h
      cases h
  | some rule =>
      rw [hrule] at h
      cases rule with
      | declare => exact stands_of_declareStatement hlisted h
      | simple => exact stands_of_simpleStatement hlisted h
      | branch => exact stands_of_branchStatement happends hlist hlisted h
      | whileLoop => exact stands_of_whileStatement hlist hlisted h
      | forLoop => exact stands_of_forStatement happends hlist hlisted h
      | result => exact stands_of_resultStatement hlisted h

end Lists

/-- **What is read up to a closing brace ends at its first `return`**; behind a `return` nothing is
read. -/
theorem ended_of_statementsUpTo {n : Nat} {closed : Bool} {ids : List StmtId}
    (hlisted : s.program.WellListed) (h : statementsUpTo g n closed scope s = .ok ids s') :
    s'.Ended ids ∧ (closed = true → ids = []) := by
  induction n generalizing closed scope ids s s' with
  | zero => cases h
  | succ n ih =>
      rw [statementsUpTo, get_bind_apply] at h
      cases hkind : s.kind? with
      | none =>
          rw [hkind] at h
          cases h
      | some kind =>
          rw [hkind] at h
          dsimp only at h
          split at h
          · obtain ⟨rfl, rfl⟩ := pure_ok_iff.1 h
            exact ⟨⟨hlisted, Program.endsAtReturn_nil _⟩, fun _ => rfl⟩
          · obtain ⟨u, s₁, hrequire, h⟩ := bind_ok_iff.1 h
            obtain ⟨hopen, rfl⟩ := require_ok_iff.1 hrequire
            obtain ⟨⟨id, behind⟩, s₂, hstatement, h⟩ := bind_ok_iff.1 h
            obtain ⟨looked, s₃, hget, h⟩ := bind_ok_iff.1 h
            obtain ⟨rfl, rfl⟩ := get_ok_iff.1 hget
            obtain ⟨others, s₄, hothers, h⟩ := bind_ok_iff.1 h
            obtain ⟨rfl, rfl⟩ := pure_ok_iff.1 h
            have hstands := stands_of_statementOf (appends_statementsUpTo g n false)
              (fun hlisted h => (ih hlisted h).1) hlisted hstatement
            obtain ⟨x, hx⟩ := hstands.stands
            obtain ⟨⟨hlisted₄, hended⟩, hnone⟩ := ih hstands.listed hothers
            have hkeeps : Appends nowhere s₂ s₄ :=
              (appends_statementsUpTo g n _ behind).of_ok hothers
            -- behind a `return` the rest of the list is read as closed, and so is empty
            have hlast : x.isReturn = true → others = [] := by
              intro hreturn
              apply hnone
              rw [isReturn, hx]
              exact hreturn
            refine ⟨⟨hlisted₄, hended.cons (hkeeps.statements id x hx) hlast⟩, fun hclosed => ?_⟩
            rw [hclosed] at hopen
            cases hopen

theorem ended_of_statements {ids : List StmtId} (hlisted : s.program.WellListed)
    (h : statements g scope s = .ok ids s') : s'.Ended ids := (ended_of_statementsUpTo hlisted h).1

/-! ### Files -/

/-- A function keeps the lists well ended: its body is one that was read up to its end. -/
theorem wellListed_of_functionRest {decl : DeclId} (hlisted : s.program.WellListed)
    (h : functionRest g scope s = .ok decl s') : s'.program.WellListed := by
  obtain ⟨⟨t, name⟩, s₁, hname, h⟩ := bind_ok_iff.1 h
  obtain ⟨inner, s₂, hscope, h⟩ := bind_ok_iff.1 h
  obtain ⟨fields, s₃, hparameters, h⟩ := bind_ok_iff.1 h
  obtain ⟨types, s₄, hresults, h⟩ := bind_ok_iff.1 h
  obtain ⟨decl, s₅, hadd, h⟩ := bind_ok_iff.1 h
  obtain ⟨u, s₆, hdeclare, h⟩ := bind_ok_iff.1 h
  obtain ⟨body, s₇, hbody, h⟩ := bind_ok_iff.1 h
  obtain ⟨u, s₈, hset, h⟩ := bind_ok_iff.1 h
  obtain ⟨rfl, rfl⟩ := pure_ok_iff.1 h
  have hsignature : KeepsListed s s₄ := by
    refine IsFrame.trans (leaves_expectName.of_ok hname) ?_
    refine IsFrame.trans (Leaves.of_ok (IsBuilding.newScope .function scope) hscope) ?_
    refine IsFrame.trans (Leaves.of_ok (leaves_parameters inner ?_) hparameters) ?_
    · exact fun name decl place => keepsListed_declare inner .var name decl place
    · exact (leaves_results inner).of_ok hresults
  -- The function is declared with an empty body, which stands for the one that is read now.
  have hlisted₅ : s₅.program.WellListed := by
    cases hadd
    refine (hsignature hlisted).addDeclaration fun f hf => ?_
    cases hf
    exact Program.endsAtReturn_nil _
  have hlisted₆ : s₆.program.WellListed := (keepsListed_declare _ _ _ _ _).of_ok hdeclare hlisted₅
  obtain ⟨hlisted₇, hended⟩ := ended_of_braced ended_of_statements hlisted₆ hbody
  obtain rfl := modify_ok_iff.1 hset
  exact hlisted₇.setBody decl hended

theorem wellListed_of_function {decl : DeclId} (hlisted : s.program.WellListed)
    (h : function g scope s = .ok decl s') : s'.program.WellListed := by
  obtain ⟨first, s₁, hfirst, h⟩ := bind_ok_iff.1 h
  have hkeeps : KeepsListed s s₁ := (leaves_expect .funcWord).of_ok hfirst
  exact wellListed_of_functionRest (hkeeps hlisted) (within_ok_iff.1 h)

/-- A file keeps the lists well ended, by induction on its functions. -/
theorem wellListed_of_functionsUpTo {n : Nat} (hlisted : s.program.WellListed)
    (h : functionsUpTo g n s = .ok () s') : s'.program.WellListed := by
  induction n generalizing s with
  | zero =>
      obtain ⟨-, rfl⟩ := pure_ok_iff.1 h
      exact hlisted
  | succ n ih =>
      rw [functionsUpTo, get_bind_apply] at h
      cases hkind : s.kind? with
      | none =>
          rw [hkind] at h
          obtain ⟨-, rfl⟩ := pure_ok_iff.1 h
          exact hlisted
      | some kind =>
          rw [hkind] at h
          dsimp only at h
          split at h
          · obtain ⟨decl, s₁, hfunction, h⟩ := bind_ok_iff.1 h
            obtain ⟨u, s₂, hmodify, h⟩ := bind_ok_iff.1 h
            have hlisted₁ := wellListed_of_function hlisted hfunction
            obtain rfl := modify_ok_iff.1 hmodify
            refine ih ?_ h
            exact hlisted₁.of_eq rfl rfl
          · cases h

end Parser

/-! ### Accepted files -/

/-- **In a file that is accepted, every `return` ends its list**: nothing follows it in the body of
any function nor in any block at any depth, and what stands in the head of a counted repetition is
neither a `return` nor a declaration. -/
theorem parseFile_wellListed {tokens : List Token} {p : Program} {d : Deferred}
    (h : parseFile tokens = .ok (p, d)) : p.WellListed := by
  unfold parseFile at h
  split at h
  · next s hfile =>
      cases h
      exact Parser.wellListed_of_functionsUpTo Program.WellListed.initial hfile
  · cases h

/-- A file with a `return` at the end of its body and in blocks at several depths, and with a
counted repetition. -/
def nestedReturns : List Token :=
  tokensOf ("func f(a Int) Int \x7b var i Int; for i = 0; i < a; i++ \x7b if a == i " ++
    "\x7b return i; \x7d else \x7b while true \x7b f(i); return a; \x7d \x7d \x7d return a; \x7d")

theorem parseFile_wellListed_nestedReturns : ∃ p d, parseFile nestedReturns = .ok (p, d) ∧
    (p.statements.toList.filter Statement.isReturn).length = 3 ∧ p.WellListed := by
  have hreads : (parseFile nestedReturns).toOption.any (fun r =>
      (r.1.statements.toList.filter Statement.isReturn).length == 3) = true := by decide +kernel
  obtain ⟨⟨p, d⟩, hparse, hreturns⟩ := exists_of_any hreads
  exact ⟨p, d, hparse, beq_iff_eq.1 hreturns, parseFile_wellListed hparse⟩

end FrontEnd
