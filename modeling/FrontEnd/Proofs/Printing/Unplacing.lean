/-
**Programs without positions.**

Positions are kept for messages only: they tell where something was written, and nothing that is
found depends on them.  Forgetting them puts the beginning of the text in the place of every
position.  A name is found in scopes without positions where it is found in the scopes themselves,
and the same names can be declared.

Main definitions:

* `FrontEnd.ScopeTree.unplaced`, `FrontEnd.Program.unplaced` — scopes and programs without
  positions.

Main results:

* `FrontEnd.ScopeTree.search_unplaced`, `FrontEnd.ScopeTree.declare_unplaced` — scopes without
  positions know the same names, and refuse the same names;
* `FrontEnd.Program.unplaced_valueReference` and the like — what a name refers to.
-/

import FrontEnd.Program

set_option relaxedAutoImplicit false
set_option autoImplicit false

namespace FrontEnd

/-- Changing an item and forgetting something after that is the same as forgetting it first, if the
change does not look at it. -/
theorem map_modify {α β : Type} {f : α → β} {change : α → α} {change' : β → β}
    (h : ∀ a, f (change a) = change' (f a)) (xs : Array α) (i : Nat) :
    (xs.modify i change).map f = (xs.map f).modify i change' := by
  refine Array.ext_getElem? fun j => ?_
  simp only [Array.getElem?_map, Array.getElem?_modify]
  split
  · simp [Option.map_map, Function.comp_def, h]
  · rfl

/-! ### Nodes

Without positions, every node stands at the beginning of the text. -/

/-- The reference without the position of its name. -/
def Reference.unplaced : Reference → Reference
  | resolved id => resolved id
  | pending name scope _ => pending name scope .start

@[simp] theorem Reference.unplaced_unplaced (ref : Reference) :
    ref.unplaced.unplaced = ref.unplaced := by
  cases ref <;> rfl

/-- What was found for a name, or else the name, without the position. -/
@[simp] theorem Reference.unplaced_ofFound (found? : Option DeclId) (name : String)
    (scope : ScopeId) (p : Position) :
    (ofFound found? name scope p).unplaced = ofFound found? name scope .start := by
  cases found? <;> rfl

def Declaration.unplaced : Declaration → Declaration
  | var v => var { v with position := .start, type := v.type.unplaced }
  | type t => type { t with position? := t.position?.map fun _ => .start }
  | func f => func { f with position := .start }

@[simp] theorem Declaration.unplaced_unplaced (d : Declaration) :
    d.unplaced.unplaced = d.unplaced := by
  cases d with
  | var v => simp [unplaced]
  | type t => cases h : t.position? <;> simp [unplaced, h]
  | func f => rfl

def ExprForm.unplaced : ExprForm → ExprForm
  | identifier name ref => identifier name ref.unplaced
  | form => form

def Expression.unplaced (e : Expression) : Expression :=
  { e with form := e.form.unplaced, position := .start }

@[simp] theorem Expression.unplaced_unplaced (e : Expression) :
    e.unplaced.unplaced = e.unplaced := by
  cases h : e.form <;> simp [unplaced, ExprForm.unplaced, h]

def StmtForm.unplaced : StmtForm → StmtForm
  | change target c => change target.unplaced c
  | form => form

def Statement.unplaced (s : Statement) : Statement := ⟨s.form.unplaced, .start⟩

@[simp] theorem Statement.unplaced_unplaced (s : Statement) :
    s.unplaced.unplaced = s.unplaced := by
  cases h : s.form <;> simp [unplaced, StmtForm.unplaced, h]

/-! ### Scopes -/

def Entry.unplaced (entry : Entry) : Entry :=
  { entry with position? := entry.position?.map fun _ => .start }

def Binding.unplaced (b : Binding) : Binding := { b with entry := b.entry.unplaced }

@[simp] theorem Binding.unplaced_unplaced (b : Binding) : b.unplaced.unplaced = b.unplaced := by
  cases h : b.entry.position? <;> simp [unplaced, Entry.unplaced, h]

def Scope.unplaced (scope : Scope) : Scope :=
  { scope with
    bindings := scope.bindings.map Binding.unplaced
    nested := scope.nested.map fun noted => (noted.1, .start) }

/-- The scopes without positions.  The built-in types have none. -/
def ScopeTree.unplaced (t : ScopeTree) : ScopeTree where
  scopes := t.scopes.map Scope.unplaced
  builtIn := by
    rw [Array.getElem?_map, t.builtIn]
    rfl

namespace Scope

@[simp] theorem unplaced_kind (scope : Scope) : scope.unplaced.kind = scope.kind := rfl

@[simp] theorem unplaced_parent (scope : Scope) : scope.unplaced.parent? = scope.parent? := rfl

@[simp] theorem unplaced_unplaced (scope : Scope) : scope.unplaced.unplaced = scope.unplaced := by
  simp [unplaced]

theorem get?_unplaced (scope : Scope) (kind : DeclKind) (name : String) :
    scope.unplaced.get? kind name = (scope.get? kind name).map Entry.unplaced := by
  simp only [get?, unplaced, List.find?_map, Option.map_map]
  rfl

theorem lookup_unplaced (scope : Scope) (name : String) :
    scope.unplaced.nested.lookup name = (scope.nested.lookup name).map fun _ => .start := by
  change (scope.nested.map fun noted => (noted.1, Position.start)).lookup name = _
  induction scope.nested with
  | nil => rfl
  | cons noted others ih =>
      rw [List.map_cons, List.lookup_cons, List.lookup_cons]
      cases name == noted.1 with
      | false => exact ih
      | true => rfl

theorem unplaced_bind (scope : Scope) (b : Binding) :
    (scope.bind b).unplaced = scope.unplaced.bind b.unplaced := rfl

theorem unplaced_note (scope : Scope) (name : String) (p : Position) :
    (scope.note name p).unplaced = scope.unplaced.note name .start := by
  unfold note
  rw [lookup_unplaced]
  cases scope.nested.lookup name <;> rfl

end Scope

namespace ScopeTree

variable (t : ScopeTree)

@[simp] theorem size_unplaced : t.unplaced.scopes.size = t.scopes.size := Array.size_map

@[simp] theorem unplaced_unplaced : t.unplaced.unplaced = t.unplaced := by
  ext1
  simp [unplaced]

theorem next_unplaced : t.unplaced.next = t.next := congrArg ScopeId.mk t.size_unplaced

theorem scope?_unplaced (id : ScopeId) :
    t.unplaced.scope? id = (t.scope? id).map Scope.unplaced := by
  simp [scope?, unplaced]

theorem unplaced_push (scope : Scope) :
    (t.push scope).unplaced = t.unplaced.push scope.unplaced := by
  ext1
  simp [push, unplaced]

theorem unplaced_modify {id : ScopeId} (hid : id ≠ .builtIn) {change change' : Scope → Scope}
    (h : ∀ scope, (change scope).unplaced = change' scope.unplaced) :
    (t.modify id change hid).unplaced = t.unplaced.modify id change' hid :=
  ScopeTree.ext (map_modify h t.scopes id.index)

/-! ### Names in scopes without positions -/

/-- Scopes without positions have the same chains of parents. -/
theorem chainUpTo_unplaced (n : Nat) (id : ScopeId) :
    t.unplaced.chainUpTo n id = (t.chainUpTo n id).map fun (i, s) => (i, s.unplaced) := by
  induction n generalizing id with
  | zero => rfl
  | succ n ih =>
      unfold chainUpTo
      rw [scope?_unplaced]
      cases t.scope? id with
      | none => rfl
      | some scope =>
          simp only [Option.map_some, Scope.unplaced_parent, List.map_cons]
          cases scope.parent? with
          | none => rfl
          | some parent => simp only [ih]

theorem chain_unplaced (id : ScopeId) :
    t.unplaced.chain id = (t.chain id).map fun (i, s) => (i, s.unplaced) := by
  rw [chain, size_unplaced, chainUpTo_unplaced]
  rfl

/-- A search finds the same without positions. -/
theorem find?_unplaced (kind : DeclKind) (name : String) (leftFunction : Bool)
    (chain : List (ScopeId × Scope)) :
    find? kind name leftFunction (chain.map fun (i, s) => (i, s.unplaced)) =
      (find? kind name leftFunction chain).map Entry.unplaced := by
  induction chain generalizing leftFunction with
  | nil => rfl
  | cons link outer ih =>
      obtain ⟨id, scope⟩ := link
      simp only [List.map_cons, find?, Scope.unplaced_kind, Scope.get?_unplaced, ih]
      cases leftFunction && !scope.kind.isGlobal with
      | true => rfl
      | false => cases scope.get? kind name <;> rfl

/-- **A name is found in scopes without positions** where it is found in the scopes. -/
theorem search_unplaced (id : ScopeId) (kind : DeclKind) (name : String) :
    t.unplaced.search id kind name = (t.search id kind name).map Entry.unplaced := by
  rw [search, chain_unplaced, find?_unplaced]
  rfl

theorem searchAny_unplaced (id : ScopeId) (name : String) :
    t.unplaced.searchAny id name =
      (t.searchAny id name).map fun (kind, entry) => (kind, entry.unplaced) := by
  unfold searchAny
  simp only [DeclKind.all, List.findSome?_cons, List.findSome?_nil, search_unplaced]
  cases t.search id .var name with
  | some entry => rfl
  | none =>
      cases t.search id .type name with
      | some entry => rfl
      | none => cases t.search id .func name <;> rfl

theorem enclosingFile?_unplaced (id : ScopeId) :
    t.unplaced.enclosingFile? id = t.enclosingFile? id := by
  simp only [enclosingFile?, chain_unplaced, List.find?_map, Option.map_map]
  rfl

/-- A note without a position is a note in the scopes without positions. -/
theorem unplaced_noteNested (id : ScopeId) (name : String) (p : Position) :
    (t.noteNested id name p).unplaced = t.unplaced.noteNested id name .start := by
  cases hfile : t.enclosingFile? id with
  | none =>
      have hfile' : t.unplaced.enclosingFile? id = none := by rw [enclosingFile?_unplaced, hfile]
      rw [noteNested_of_enclosingFile?_none hfile, noteNested_of_enclosingFile?_none hfile']
  | some file =>
      have hfile' : t.unplaced.enclosingFile? id = some file := by
        rw [enclosingFile?_unplaced, hfile]
      rw [noteNested_of_enclosingFile? hfile, noteNested_of_enclosingFile? hfile']
      exact t.unplaced_modify _ fun scope => scope.unplaced_note name p

/-- **Scopes without positions refuse the same names**, and take the others in the same way. -/
theorem declare_unplaced (id : ScopeId) (kind : DeclKind) (name : String) (decl : DeclId)
    (p : Position) : (t.unplaced.declare id kind name decl .start).toOption =
      (t.declare id kind name decl p).toOption.map unplaced := by
  have hbind : ∀ scope : Scope, (scope.bind ⟨kind, name, ⟨decl, some p⟩⟩).unplaced =
      scope.unplaced.bind ⟨kind, name, ⟨decl, some .start⟩⟩ := fun scope => scope.unplaced_bind _
  cases hscope : t.scope? id with
  | none =>
      have hscope' : t.unplaced.scope? id = none := by rw [scope?_unplaced, hscope]; rfl
      rw [declare_of_missing hscope, declare_of_missing hscope']
      rfl
  | some scope =>
      have hscope' : t.unplaced.scope? id = some scope.unplaced := by
        rw [scope?_unplaced, hscope]
        rfl
      by_cases hkind : scope.kind = .builtIn
      · rw [declare_of_builtIn hscope hkind, declare_of_builtIn hscope' hkind]
        rfl
      · rw [declare_of_kind hscope hkind, declare_of_kind hscope' hkind, searchAny_unplaced,
          Scope.unplaced_kind, Scope.lookup_unplaced]
        cases t.searchAny id name with
        | some previous => rfl
        | none =>
            simp only [Option.map_none]
            split
            · cases scope.nested.lookup name with
              | some previous => rfl
              | none => exact congrArg some (t.unplaced_modify _ hbind).symm
            · simp only [← t.unplaced_noteNested id name p]
              exact congrArg some ((t.noteNested id name p).unplaced_modify _ hbind).symm

end ScopeTree

/-! ### Programs -/

namespace Program

/-- The program without positions. -/
def unplaced (p : Program) : Program where
  declarations := p.declarations.map Declaration.unplaced
  expressions := p.expressions.map Expression.unplaced
  statements := p.statements.map Statement.unplaced
  scopes := p.scopes.unplaced
  topLevel := p.topLevel

/-- Positions are forgotten once and for all. -/
@[simp] theorem unplaced_unplaced (p : Program) : p.unplaced.unplaced = p.unplaced := by
  simp [unplaced]

/-- There are no positions before anything is read. -/
theorem unplaced_initial : initial.unplaced = initial := by decide +kernel

variable (p : Program)

theorem findType?_unplaced (scope : ScopeId) (name : String) :
    p.unplaced.findType? scope name = p.findType? scope name := by
  rw [findType?, unplaced, ScopeTree.search_unplaced, Option.map_map]
  rfl

theorem findVariable?_unplaced (scope : ScopeId) (name : String) :
    p.unplaced.findVariable? scope name = p.findVariable? scope name := by
  rw [findVariable?, unplaced, ScopeTree.search_unplaced, Option.map_map]
  rfl

theorem findValue?_unplaced (scope : ScopeId) (name : String) :
    p.unplaced.findValue? scope name = p.findValue? scope name := by
  rw [findValue?, findVariable?_unplaced, unplaced, ScopeTree.search_unplaced, Option.map_map]
  rfl

/-- What the name of a type refers to, without the position. -/
theorem unplaced_typeReference (scope : ScopeId) (name : String) (place : Position) :
    (p.typeReference scope name place).unplaced = p.unplaced.typeReference scope name .start := by
  rw [typeReference, typeReference, Reference.unplaced_ofFound, findType?_unplaced]

/-- What the name of a variable refers to, without the position. -/
theorem unplaced_variableReference (scope : ScopeId) (name : String) (place : Position) :
    (p.variableReference scope name place).unplaced =
      p.unplaced.variableReference scope name .start := by
  rw [variableReference, variableReference, Reference.unplaced_ofFound, findVariable?_unplaced]

/-- What a name in an expression refers to, without the position. -/
theorem unplaced_valueReference (scope : ScopeId) (name : String) (place : Position) :
    (p.valueReference scope name place).unplaced =
      p.unplaced.valueReference scope name .start := by
  rw [valueReference, valueReference, Reference.unplaced_ofFound, findValue?_unplaced]

/-! ### Changes of programs without positions -/

@[simp] theorem nextDecl_unplaced : p.unplaced.nextDecl = p.nextDecl :=
  congrArg DeclId.mk Array.size_map

@[simp] theorem nextExpr_unplaced : p.unplaced.nextExpr = p.nextExpr :=
  congrArg ExprId.mk Array.size_map

@[simp] theorem nextStmt_unplaced : p.unplaced.nextStmt = p.nextStmt :=
  congrArg StmtId.mk Array.size_map

theorem unplaced_addDeclaration (d : Declaration) :
    (p.addDeclaration d).unplaced = p.unplaced.addDeclaration d.unplaced := by
  simp [addDeclaration, unplaced]

theorem unplaced_addExpression (e : Expression) :
    (p.addExpression e).unplaced = p.unplaced.addExpression e.unplaced := by
  simp [addExpression, unplaced]

theorem unplaced_addStatement (s : Statement) :
    (p.addStatement s).unplaced = p.unplaced.addStatement s.unplaced := by
  simp [addStatement, unplaced]

theorem unplaced_setBody (id : DeclId) (body : List StmtId) :
    (p.setBody id body).unplaced = p.unplaced.setBody id body := by
  unfold setBody modifyDeclaration unplaced
  simp only
  rw [map_modify]
  rintro (v | t | f) <;> rfl

end Program

end FrontEnd
