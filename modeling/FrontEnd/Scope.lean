/-
**Scopes.**

A scope binds names to declarations: variables, types and functions, each sort on its own.  Every
scope but the outermost has a parent, and a name is searched for along the chain of parents.  The
locals of an enclosing function stay out of sight: once a function scope has been searched, only
file scopes and built-in scopes still count.

A name means one thing wherever it is visible: what is visible already cannot be declared again.
A file scope moreover keeps a ledger of the names that are declared in the scopes below it, and
refuses to take one of them for itself, so the order of the declarations does not matter.

Scopes are never removed.  Extending a scope by a variable makes a copy of it, so what was read
before keeps seeing the scope as it was.  The first scope is that of the built-in types.  Nothing
can be declared there, so whatever happens to the scopes, the built-in types can be found.

Main definitions:

* `FrontEnd.Scope`, `FrontEnd.ScopeTree` — one scope, and all scopes by number;
* `FrontEnd.ScopeTree.chain` — a scope with its parents, innermost first;
* `FrontEnd.ScopeTree.search`, `FrontEnd.ScopeTree.searchAny` — what a name means in a scope;
* `FrontEnd.ScopeTree.declare` — giving a name its meaning in a scope;
* `FrontEnd.ScopeTree.extend` — declaring a variable in a copy of a scope.

Main results:

* `FrontEnd.ScopeTree.ne_builtIn_of_kind`, `FrontEnd.ScopeTree.ne_builtIn_of_enclosingFile?` — what
  a declaration changes is not the scope of the built-in types;
* `FrontEnd.ScopeTree.search_builtIn` — the built-in types are found there;
* `FrontEnd.ScopeTree.chain_of_root`, `FrontEnd.ScopeTree.chain_of_parent` — a chain where parents
  are older than their children.
-/

import FrontEnd.BasicType
import FrontEnd.Error

set_option relaxedAutoImplicit false
set_option autoImplicit false

namespace FrontEnd

/-! ### One scope -/

/-- What a scope belongs to. -/
inductive ScopeKind where
  | block
  | function
  | file
  | builtIn
  deriving DecidableEq, Repr

/-- Whether the names of such a scope are visible from inside every function. -/
def ScopeKind.isGlobal : ScopeKind → Bool
  | file | builtIn => true
  | block | function => false

/-- What a name can stand for. -/
inductive DeclKind where
  | var
  | type
  | func
  deriving DecidableEq, Repr

namespace DeclKind

def describe : DeclKind → String
  | var => "variable"
  | type => "type"
  | func => "function"

/-- The kinds in the order in which a name is searched for. -/
def all : List DeclKind := [var, type, func]

@[simp] theorem mem_all (kind : DeclKind) : kind ∈ all := by cases kind <;> decide

end DeclKind

/-- A declaration that a name stands for, and where it was declared; built-in declarations have no
place. -/
structure Entry where
  /-- The declaration. -/
  declaration : DeclId
  /-- Where it was declared. -/
  position? : Option Position
  deriving DecidableEq, Repr

/-- A name with its meaning. -/
structure Binding where
  /-- The sort of the declaration. -/
  kind : DeclKind
  /-- The name. -/
  name : String
  /-- What the name stands for. -/
  entry : Entry
  deriving DecidableEq, Repr

/-- The names of one part of a program. -/
structure Scope where
  /-- What the scope belongs to. -/
  kind : ScopeKind
  /-- The enclosing scope. -/
  parent? : Option ScopeId
  /-- The names with their meanings, the latest first. -/
  bindings : List Binding := []
  /-- Of a file scope, the names declared in the scopes below it and where each was first. -/
  nested : List (String × Position) := []
  deriving DecidableEq, Repr

namespace Scope

/-- What a name stands for in this very scope. -/
def get? (scope : Scope) (kind : DeclKind) (name : String) : Option Entry :=
  (scope.bindings.find? fun b => b.kind == kind && b.name == name).map Binding.entry

/-- The scope with a further name. -/
def bind (scope : Scope) (binding : Binding) : Scope :=
  { scope with bindings := binding :: scope.bindings }

/-- The scope with a note that a scope below it declares the name; an earlier note stays. -/
def note (scope : Scope) (name : String) (p : Position) : Scope :=
  match scope.nested.lookup name with
  | some _ => scope
  | none => { scope with nested := (name, p) :: scope.nested }

@[simp] theorem bind_kind (scope : Scope) (b : Binding) : (scope.bind b).kind = scope.kind := rfl

@[simp] theorem bind_parent (scope : Scope) (b : Binding) :
    (scope.bind b).parent? = scope.parent? := rfl

@[simp] theorem bind_nested (scope : Scope) (b : Binding) :
    (scope.bind b).nested = scope.nested := rfl

/-- The name just bound stands for its entry, and the others for what they stood for. -/
theorem get?_bind (scope : Scope) (b : Binding) (kind : DeclKind) (name : String) :
    (scope.bind b).get? kind name =
      if b.kind = kind ∧ b.name = name then some b.entry else scope.get? kind name := by
  by_cases h : b.kind = kind ∧ b.name = name
  · simp [get?, bind, h]
  · rw [if_neg h]
    have hb : (b.kind == kind && b.name == name) = false := by
      simpa [Bool.and_eq_false_iff, Classical.not_and_iff_not_or_not] using h
    simp [get?, bind, hb]

@[simp] theorem note_kind (scope : Scope) (name : String) (p : Position) :
    (scope.note name p).kind = scope.kind := by
  unfold note
  split <;> rfl

@[simp] theorem note_parent (scope : Scope) (name : String) (p : Position) :
    (scope.note name p).parent? = scope.parent? := by
  unfold note
  split <;> rfl

@[simp] theorem note_bindings (scope : Scope) (name : String) (p : Position) :
    (scope.note name p).bindings = scope.bindings := by
  unfold note
  split <;> rfl

@[simp] theorem get?_note (scope : Scope) (name : String) (p : Position) (kind : DeclKind)
    (other : String) : (scope.note name p).get? kind other = scope.get? kind other := by
  simp [get?]

end Scope

/-! ### All scopes -/

/-- The scope of the built-in types. -/
def ScopeTree.builtInScope : Scope where
  kind := .builtIn
  parent? := none
  bindings := BasicType.all.map fun b => ⟨.type, b.name, ⟨b.declaration, none⟩⟩

/-- The scopes of a program by number. -/
@[ext]
structure ScopeTree where
  /-- The scopes in the order of their creation. -/
  scopes : Array Scope
  /-- The first scope holds the built-in types and nothing else. -/
  builtIn : scopes[ScopeId.builtIn.index]? = some ScopeTree.builtInScope
  deriving DecidableEq, Repr

namespace ScopeTree

/-- The scopes of a program without declarations of its own: the built-in types, and an empty file
scope below them. -/
def initial : ScopeTree := ⟨#[builtInScope, { kind := .file, parent? := some .builtIn }], rfl⟩

def scope? (t : ScopeTree) (id : ScopeId) : Option Scope := t.scopes[id.index]?

def next (t : ScopeTree) : ScopeId := ⟨t.scopes.size⟩

theorem index_lt_size_of_scope? {t : ScopeTree} {id : ScopeId} {scope : Scope}
    (hscope : t.scope? id = some scope) : id.index < t.scopes.size :=
  (Array.getElem?_eq_some_iff.1 hscope).1

@[simp] theorem scope?_builtIn (t : ScopeTree) : t.scope? .builtIn = some builtInScope := t.builtIn

/-- A scope that is not one for built-in types is not the first one. -/
theorem ne_builtIn_of_kind {t : ScopeTree} {id : ScopeId} {scope : Scope}
    (hscope : t.scope? id = some scope) (hkind : scope.kind ≠ .builtIn) : id ≠ .builtIn := by
  rintro rfl
  rw [scope?_builtIn] at hscope
  cases hscope
  exact hkind rfl

def push (t : ScopeTree) (scope : Scope) : ScopeTree where
  scopes := t.scopes.push scope
  builtIn := by
    have hlt : ScopeId.builtIn.index < t.scopes.size := index_lt_size_of_scope? t.scope?_builtIn
    rw [Array.getElem?_push, if_neg (Nat.ne_of_lt hlt), t.builtIn]

/-- The scopes with one of them changed, which is not the one of the built-in types. -/
def modify (t : ScopeTree) (id : ScopeId) (change : Scope → Scope) (hid : id ≠ .builtIn) :
    ScopeTree where
  scopes := t.scopes.modify id.index change
  builtIn := by
    have hne : id.index ≠ ScopeId.builtIn.index := fun h => hid (by cases id; cases h; rfl)
    rw [Array.getElem?_modify, if_neg hne, t.builtIn]

theorem scope?_push (t : ScopeTree) (scope : Scope) (id : ScopeId) :
    (t.push scope).scope? id = if id = t.next then some scope else t.scope? id := by
  cases id with
  | mk i => simp [scope?, push, next, Array.getElem?_push]

theorem scope?_modify (t : ScopeTree) (target : ScopeId) (change : Scope → Scope)
    (htarget : target ≠ .builtIn) (id : ScopeId) :
    (t.modify target change htarget).scope? id =
      if target = id then (t.scope? id).map change else t.scope? id := by
  cases target with
  | mk i =>
      cases id with
      | mk j => simp [scope?, modify, Array.getElem?_modify]

/-! ### Searching -/

/-- The scope with its parents, innermost first; at most `n` scopes. -/
def chainUpTo (t : ScopeTree) : Nat → ScopeId → List (ScopeId × Scope)
  | 0, _ => []
  | n + 1, id =>
      match t.scope? id with
      | none => []
      | some scope =>
          (id, scope) ::
            match scope.parent? with
            | none => []
            | some parent => t.chainUpTo n parent

/-- The scope with its parents, innermost first.  A parent may be older or younger than its child.
A chain that does not run into itself has at most as many scopes as there are, and going round a
second time meets no scope that was not met before. -/
def chain (t : ScopeTree) (id : ScopeId) : List (ScopeId × Scope) := t.chainUpTo t.scopes.size id

/-- What the name stands for in the first of the scopes that counts and has it.  Scopes that are
not global count only until a function scope is left behind. -/
def find? (kind : DeclKind) (name : String) : Bool → List (ScopeId × Scope) → Option Entry
  | _, [] => none
  | leftFunction, (_, scope) :: outer =>
      match if leftFunction && !scope.kind.isGlobal then none else scope.get? kind name with
      | some entry => some entry
      | none => find? kind name (leftFunction || scope.kind == .function) outer

/-- What a name of the given kind stands for in a scope. -/
def search (t : ScopeTree) (id : ScopeId) (kind : DeclKind) (name : String) : Option Entry :=
  find? kind name false (t.chain id)

/-- What a name stands for in a scope, whatever its kind: variables come first, then types, then
functions. -/
def searchAny (t : ScopeTree) (id : ScopeId) (name : String) : Option (DeclKind × Entry) :=
  DeclKind.all.findSome? fun kind => (t.search id kind name).map (kind, ·)

/-- The nearest file scope around a scope. -/
def enclosingFile? (t : ScopeTree) (id : ScopeId) : Option ScopeId :=
  ((t.chain id).find? fun (_, scope) => scope.kind == .file).map Prod.fst

/-- The scopes of a chain are those of the tree. -/
theorem scope?_of_mem_chainUpTo {t : ScopeTree} {n : Nat} {id other : ScopeId} {scope : Scope}
    (h : (other, scope) ∈ t.chainUpTo n id) : t.scope? other = some scope := by
  induction n generalizing id with
  | zero => cases h
  | succ n ih =>
      rw [chainUpTo] at h
      split at h
      · cases h
      · next scope' hscope' =>
          rcases List.mem_cons.1 h with hhead | h
          · cases hhead
            exact hscope'
          · split at h
            · cases h
            · exact ih h

theorem scope?_of_enclosingFile? {t : ScopeTree} {id file : ScopeId}
    (h : t.enclosingFile? id = some file) :
    ∃ outer, t.scope? file = some outer ∧ outer.kind = .file ∧ (file, outer) ∈ t.chain id := by
  obtain ⟨⟨other, outer⟩, hfound, rfl⟩ := Option.map_eq_some_iff.1 h
  have hmem := List.mem_of_find?_eq_some hfound
  exact ⟨outer, scope?_of_mem_chainUpTo hmem, by simpa using List.find?_some hfound, hmem⟩

theorem ne_builtIn_of_enclosingFile? {t : ScopeTree} {id file : ScopeId}
    (h : t.enclosingFile? id = some file) : file ≠ .builtIn := by
  obtain ⟨outer, houter, hkind, -⟩ := scope?_of_enclosingFile? h
  refine ne_builtIn_of_kind houter ?_
  rw [hkind]
  decide

/-! ### Chains of older parents -/

/-- Every parent is older than its child, as it is when scopes are made below existing ones. -/
def ParentsOlder (t : ScopeTree) : Prop :=
  ∀ id scope parent, t.scope? id = some scope → scope.parent? = some parent →
    parent.index < id.index

/-- With a bound to spare, a chain goes on with the parent. -/
theorem chainUpTo_of_parent {t : ScopeTree} {id parent : ScopeId} {scope : Scope}
    (hscope : t.scope? id = some scope) (hparent : scope.parent? = some parent) (n : Nat) :
    t.chainUpTo (n + 1) id = (id, scope) :: t.chainUpTo n parent := by
  simp [chainUpTo, hscope, hparent]

/-- A bound above the scope's own number makes no difference. -/
theorem chainUpTo_eq_of_lt {t : ScopeTree} (older : t.ParentsOlder) (m n : Nat) (id : ScopeId)
    (hm : id.index < m) (hn : id.index < n) : t.chainUpTo m id = t.chainUpTo n id := by
  induction m generalizing n id with
  | zero => omega
  | succ m ih =>
      cases n with
      | zero => omega
      | succ n =>
          cases hscope : t.scope? id with
          | none => simp [chainUpTo, hscope]
          | some scope =>
              cases hparent : scope.parent? with
              | none => simp [chainUpTo, hscope, hparent]
              | some parent =>
                  have hlt := older id scope parent hscope hparent
                  rw [chainUpTo_of_parent hscope hparent, chainUpTo_of_parent hscope hparent,
                    ih n parent (by omega) (by omega)]

/-- A scope without a parent is a chain of its own. -/
theorem chain_of_root {t : ScopeTree} {id : ScopeId} {scope : Scope}
    (hscope : t.scope? id = some scope) (hroot : scope.parent? = none) :
    t.chain id = [(id, scope)] := by
  have hid := index_lt_size_of_scope? hscope
  cases hsize : t.scopes.size with
  | zero => omega
  | succ n => simp [chain, hsize, chainUpTo, hscope, hroot]

/-- The chain of a scope goes on with the chain of its parent. -/
theorem chain_of_parent {t : ScopeTree} (older : t.ParentsOlder) {id parent : ScopeId}
    {scope : Scope} (hscope : t.scope? id = some scope) (hparent : scope.parent? = some parent) :
    t.chain id = (id, scope) :: t.chain parent := by
  have hid := index_lt_size_of_scope? hscope
  have hlt := older id scope parent hscope hparent
  cases hsize : t.scopes.size with
  | zero => omega
  | succ n =>
      rw [chain, chain, hsize, chainUpTo_of_parent hscope hparent,
        chainUpTo_eq_of_lt older n (n + 1) parent (by omega) (by omega)]

theorem chain_builtIn (t : ScopeTree) : t.chain .builtIn = [(.builtIn, builtInScope)] :=
  chain_of_root t.scope?_builtIn rfl

/-- From the scope of the built-in types nothing else is found. -/
theorem search_builtIn (t : ScopeTree) (kind : DeclKind) (name : String) :
    t.search .builtIn kind name = builtInScope.get? kind name := by
  rw [search, chain_builtIn]
  simp only [find?, Bool.false_and, Bool.false_eq_true, if_false]
  cases builtInScope.get? kind name <;> rfl

/-! ### Declaring -/

/-- The scopes with a note, in the ledger of the file around the scope, that the name is declared
there. -/
def noteNested (t : ScopeTree) (id : ScopeId) (name : String) (p : Position) : ScopeTree :=
  match hfile : t.enclosingFile? id with
  | some file => t.modify file (·.note name p) (ne_builtIn_of_enclosingFile? hfile)
  | none => t

/-- The refusal of a name that is visible already. -/
def clash (name : String) (previousKind : DeclKind) (previous : Entry) : Cause :=
  .clash name previousKind.describe ((previous.position?.map Position.describe).getD "built-in")

/-- The scopes after the name is given a meaning in the scope.  Nothing can be added to a built-in
scope, a visible name cannot be declared again, and a file scope takes no name that a scope below it
has declared. -/
def declare (t : ScopeTree) (id : ScopeId) (kind : DeclKind) (name : String) (decl : DeclId)
    (p : Position) : Except Error ScopeTree :=
  match hscope : t.scope? id with
  | none => .error ((Cause.internal "declaration in a missing scope").at p)
  | some scope =>
      if hkind : scope.kind = .builtIn then
        .error ((Cause.builtInDeclaration kind.describe).at p)
      else
        have hid := ne_builtIn_of_kind hscope hkind
        match t.searchAny id name with
        | some (previousKind, previous) => .error ((clash name previousKind previous).at p)
        | none =>
            if scope.kind = .file then
              match scope.nested.lookup name with
              | some previous => .error ((Cause.nestedClash name previous).at p)
              | none => .ok (t.modify id (·.bind ⟨kind, name, ⟨decl, some p⟩⟩) hid)
            else
              .ok ((t.noteNested id name p).modify id (·.bind ⟨kind, name, ⟨decl, some p⟩⟩) hid)

/-- Where a file encloses the scope, the note goes into the ledger of that file. -/
theorem noteNested_of_enclosingFile? {t : ScopeTree} {id file : ScopeId}
    (hfile : t.enclosingFile? id = some file) (name : String) (p : Position) :
    t.noteNested id name p =
      t.modify file (·.note name p) (ne_builtIn_of_enclosingFile? hfile) := by
  unfold noteNested
  split
  · next file' hfile' =>
      rw [hfile'] at hfile
      cases hfile
      rfl
  · next hnone =>
      rw [hnone] at hfile
      cases hfile

theorem noteNested_of_enclosingFile?_none {t : ScopeTree} {id : ScopeId}
    (hfile : t.enclosingFile? id = none) (name : String) (p : Position) :
    t.noteNested id name p = t := by
  unfold noteNested
  split
  · next file' hfile' =>
      rw [hfile'] at hfile
      cases hfile
  · rfl

theorem declare_of_missing {t : ScopeTree} {id : ScopeId} (hscope : t.scope? id = none)
    (kind : DeclKind) (name : String) (decl : DeclId) (p : Position) :
    t.declare id kind name decl p =
      .error ((Cause.internal "declaration in a missing scope").at p) := by
  unfold declare
  split
  · rfl
  · next scope' hscope' =>
      rw [hscope'] at hscope
      cases hscope

/-- Nothing can be declared in a built-in scope. -/
theorem declare_of_builtIn {t : ScopeTree} {id : ScopeId} {scope : Scope}
    (hscope : t.scope? id = some scope) (hkind : scope.kind = .builtIn) (kind : DeclKind)
    (name : String) (decl : DeclId) (p : Position) :
    t.declare id kind name decl p = .error ((Cause.builtInDeclaration kind.describe).at p) := by
  unfold declare
  split
  · next hnone =>
      rw [hnone] at hscope
      cases hscope
  · next scope' hscope' =>
      rw [hscope'] at hscope
      cases hscope
      rw [dif_pos hkind]

/-- Declaring a name in a scope that is open for it. -/
theorem declare_of_kind {t : ScopeTree} {id : ScopeId} {scope : Scope}
    (hscope : t.scope? id = some scope) (hkind : scope.kind ≠ .builtIn) (kind : DeclKind)
    (name : String) (decl : DeclId) (p : Position) :
    t.declare id kind name decl p =
      match t.searchAny id name with
      | some (previousKind, previous) => .error ((clash name previousKind previous).at p)
      | none =>
          if scope.kind = .file then
            match scope.nested.lookup name with
            | some previous => .error ((Cause.nestedClash name previous).at p)
            | none => .ok (t.modify id (·.bind ⟨kind, name, ⟨decl, some p⟩⟩)
                (ne_builtIn_of_kind hscope hkind))
          else .ok ((t.noteNested id name p).modify id (·.bind ⟨kind, name, ⟨decl, some p⟩⟩)
            (ne_builtIn_of_kind hscope hkind)) := by
  unfold declare
  split
  · next hnone =>
      rw [hnone] at hscope
      cases hscope
  · next scope' hscope' =>
      rw [hscope'] at hscope
      cases hscope
      rw [dif_neg hkind]

/-- A new, empty scope below the given one. -/
def nest (t : ScopeTree) (kind : ScopeKind) (parent : ScopeId) : ScopeId × ScopeTree :=
  (t.next, t.push { kind, parent? := some parent })

/-- A copy of a scope: same kind, same parent, same names. -/
def copy? (t : ScopeTree) (id : ScopeId) : Option (ScopeId × ScopeTree) :=
  (t.scope? id).map fun scope => (t.next, t.push scope)

/-- A new scope that holds all that the given one holds, and the variable.  The copy is made before
the name is checked, and stays when the name is refused. -/
def extend (id : ScopeId) (name : String) (decl : DeclId) (p : Position) :
    EStateM Error ScopeTree ScopeId := fun t =>
  match t.copy? id with
  | none => .error ((Cause.internal "extension of a missing scope").at p) t
  | some (copy, t) =>
      match t.declare copy .var name decl p with
      | .error e => .error e t
      | .ok t => .ok copy t

end ScopeTree

end FrontEnd
