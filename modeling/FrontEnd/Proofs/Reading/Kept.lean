/-
**What reading leaves as it was.**

Reading adds nodes, scopes and names, and never takes anything back.  A node that was there is
there unchanged, the lists of pending references only get longer, and a scope keeps its kind, its
parent and the meaning of every name that it had.  Some scopes may get further names; which ones is
part of what is said, and the most common case is that no scope that was there before gets any.

Main definitions:

* `FrontEnd.Scope.Keeps` — a scope after further names were bound in it;
* `FrontEnd.ScopeTree.Retains` — scopes that are all kept, some of them with further names;
* `FrontEnd.Parser.Appends` — a state of reading in which something was added;
* `FrontEnd.Parser.AddsExpressions` — a state in which only expressions were added;
* `FrontEnd.Parser.DeclaresFunction` — a state in which at most a function was declared.

Main results:

* `FrontEnd.ScopeTree.retains_declare`, `FrontEnd.ScopeTree.retains_extend` — declaring a name adds
  it to its scope only, and extending a scope adds nothing to any scope that was there;
* `FrontEnd.Parser.Appends.trans_of` — one addition after the other;
* `FrontEnd.Parser.AddsExpressions.appends` — expressions add no name to any scope.
-/

import FrontEnd.Parser.Basic
import FrontEnd.Proofs.Scopes.Extending

set_option relaxedAutoImplicit false
set_option autoImplicit false

namespace FrontEnd

open Run

/-! ### One scope -/

namespace Scope

/-- The scope `new` is `old`, perhaps with further names. -/
structure Keeps (old new : Scope) : Prop where
  kind : new.kind = old.kind
  parent : new.parent? = old.parent?
  /-- The bindings are still there, in the same order. -/
  bindings : old.bindings <:+ new.bindings
  /-- Every name stands for what it stood for. -/
  meanings : ∀ kind name entry, old.get? kind name = some entry → new.get? kind name = some entry

theorem Keeps.refl (scope : Scope) : scope.Keeps scope :=
  ⟨rfl, rfl, List.suffix_refl _, fun _ _ _ h => h⟩

theorem Keeps.trans {old mid new : Scope} (h : old.Keeps mid) (h' : mid.Keeps new) :
    old.Keeps new where
  kind := h'.kind.trans h.kind
  parent := h'.parent.trans h.parent
  bindings := h.bindings.trans h'.bindings
  meanings kind name entry hentry := h'.meanings kind name entry (h.meanings kind name entry hentry)

/-- A name that the scope did not have takes no meaning away. -/
theorem keeps_bind {scope : Scope} {b : Binding} (hfree : scope.get? b.kind b.name = none) :
    scope.Keeps (scope.bind b) := by
  refine ⟨rfl, rfl, List.suffix_cons b scope.bindings, fun kind name entry hentry => ?_⟩
  rw [get?_bind, if_neg, hentry]
  rintro ⟨rfl, rfl⟩
  rw [hfree] at hentry
  cases hentry

theorem keeps_note (scope : Scope) (name : String) (place : Position) :
    scope.Keeps (scope.note name place) := by
  refine ⟨scope.note_kind name place, scope.note_parent name place,
    ⟨[], (scope.note_bindings name place).symm⟩, fun kind other entry h => ?_⟩
  rwa [get?_note]

end Scope

/-! ### All scopes -/

namespace ScopeTree

variable {t t' t'' : ScopeTree} {may may' : ScopeId → Prop} {id : ScopeId} {scope : Scope}
  {kind : DeclKind} {name : String} {decl : DeclId} {place : Position}

/-- No scope at all. -/
def nowhere : ScopeId → Prop := fun _ => False

/-- All scopes of `t` are kept in `t'`, and only those that may get further names have some. -/
def Retains (may : ScopeId → Prop) (t t' : ScopeTree) : Prop :=
  ∀ id scope, t.scope? id = some scope →
    ∃ new, t'.scope? id = some new ∧ scope.Keeps new ∧ (¬ may id → new.bindings = scope.bindings)

namespace Retains

theorem refl (may : ScopeId → Prop) (t : ScopeTree) : Retains may t t :=
  fun _ scope hscope => ⟨scope, hscope, .refl scope, fun _ => rfl⟩

/-- What is new in between may get any names later. -/
theorem trans_of (h : Retains may t t') (h' : Retains may' t' t'')
    (hmay : ∀ id scope, t.scope? id = some scope → may' id → may id) : Retains may t t'' := by
  intro id scope hscope
  obtain ⟨mid, hmid, hkeeps, hsame⟩ := h id scope hscope
  obtain ⟨new, hnew, hkeeps', hsame'⟩ := h' id mid hmid
  refine ⟨new, hnew, hkeeps.trans hkeeps', fun hnot => ?_⟩
  rw [hsame' fun hid => hnot (hmay id scope hscope hid), hsame hnot]

theorem trans (h : Retains may t t') (h' : Retains may t' t'') : Retains may t t'' :=
  h.trans_of h' fun _ _ _ hid => hid

theorem mono (h : Retains may t t') (hmay : ∀ id, may id → may' id) : Retains may' t t' := by
  intro id scope hscope
  obtain ⟨new, hnew, hkeeps, hsame⟩ := h id scope hscope
  exact ⟨new, hnew, hkeeps, fun hnot => hsame fun hid => hnot (hmay id hid)⟩

end Retains

theorem retains_push (t : ScopeTree) (new : Scope) : Retains nowhere t (t.push new) :=
  fun _ scope hscope => ⟨scope, scope?_push_of_some hscope new, .refl scope, fun _ => rfl⟩

/-- A note is no name. -/
theorem retains_noteNested (t : ScopeTree) (id : ScopeId) (name : String) (place : Position) :
    Retains nowhere t (t.noteNested id name place) := by
  unfold noteNested
  split
  · next file hfile =>
      intro other scope hscope
      rw [scope?_modify, hscope]
      split
      · exact ⟨_, rfl, scope.keeps_note name place, fun _ => scope.note_bindings name place⟩
      · exact ⟨scope, rfl, .refl scope, fun _ => rfl⟩
  · exact .refl nowhere t

/-- Binding a name that its scope does not have. -/
theorem retains_bind {b : Binding} (hid : id ≠ .builtIn)
    (hfree : ∀ scope, t.scope? id = some scope → scope.get? b.kind b.name = none) :
    Retains (· = id) t (t.modify id (·.bind b) hid) := by
  intro other scope hscope
  rw [scope?_modify, hscope]
  split
  · next hother =>
      subst hother
      exact ⟨_, rfl, Scope.keeps_bind (hfree scope hscope), fun hnot => absurd rfl hnot⟩
  · exact ⟨scope, rfl, .refl scope, fun _ => rfl⟩

/-- What is not visible from a scope, the scope does not have. -/
theorem get?_eq_none_of_search (hscope : t.scope? id = some scope)
    (hsearch : t.search id kind name = none) : scope.get? kind name = none := by
  obtain ⟨others, hchain⟩ := exists_chain_eq_cons hscope
  rw [search, hchain, find?_cons, Option.or_eq_none_iff] at hsearch
  exact hsearch.1

/-- **A declaration adds a name to its scope only**, and takes none away. -/
theorem retains_declare (h : t.declare id kind name decl place = .ok t') :
    Retains (· = id) t t' := by
  obtain ⟨scope, hid, hscope, hsearch, hcases⟩ := declare_cases h
  have hfree : scope.get? kind name = none := get?_eq_none_of_search hscope (hsearch kind)
  rcases hcases with ⟨-, -, rfl⟩ | ⟨-, rfl⟩
  · refine retains_bind hid fun other hother => ?_
    rw [hscope, Option.some.injEq] at hother
    rwa [← hother]
  · refine ((retains_noteNested t id name place).mono fun _ hid => hid.elim).trans ?_
    -- the note may be in the scope itself, but it binds nothing
    refine retains_bind hid fun noted hnoted => ?_
    obtain ⟨new, hnew, -, hsame⟩ := retains_noteNested t id name place id scope hscope
    rw [hnew, Option.some.injEq] at hnoted
    rw [← hnoted, Scope.get?, hsame not_false]
    exact hfree

/-- The scope in which a name is declared has that name more than before. -/
theorem bindings_declare (h : t.declare id kind name decl place = .ok t')
    (hscope : t.scope? id = some scope) {new : Scope} (hnew : t'.scope? id = some new) :
    new.bindings = ⟨kind, name, ⟨decl, some place⟩⟩ :: scope.bindings := by
  obtain ⟨-, hid, -, -, ⟨-, -, rfl⟩ | ⟨-, rfl⟩⟩ := declare_cases h
  · rw [scope?_modify, if_pos rfl, hscope] at hnew
    obtain rfl := Option.some.inj hnew
    rfl
  · obtain ⟨noted, hnoted, -, hsame⟩ := retains_noteNested t id name place id scope hscope
    rw [scope?_modify, if_pos rfl, hnoted] at hnew
    obtain rfl := Option.some.inj hnew
    rw [← hsame not_false]
    rfl

/-- **Extending a scope adds no name to any scope that was there**, whether the name is refused or
not: it is declared in a copy. -/
theorem retains_extend (id : ScopeId) (name : String) (decl : DeclId) (place : Position)
    (t : ScopeTree) : Retains nowhere t (left (extend id name decl place t)) := by
  cases hscope : t.scope? id with
  | none =>
      rw [extend, copy?, hscope]
      exact .refl nowhere t
  | some scope =>
      rw [extend_eq hscope]
      cases hdeclare : (t.push scope).declare t.next .var name decl place with
      | error e => exact retains_push t scope
      | ok t' =>
          refine (retains_push t scope).trans_of (retains_declare hdeclare) fun other old hold => ?_
          rintro rfl
          exact absurd (index_lt_size_of_scope? hold) (Nat.lt_irrefl _)

end ScopeTree

/-! ### Nodes -/

namespace Program

variable {p : Program}

theorem declaration?_add_of_some {id : DeclId} {d : Declaration} (h : p.declaration? id = some d)
    (new : Declaration) : (p.addDeclaration new).declaration? id = some d := by
  rw [declaration?_addDeclaration, if_neg, h]
  rintro rfl
  exact absurd (Array.getElem?_eq_some_iff.1 h).1 (Nat.lt_irrefl _)

theorem expression?_add_of_some {id : ExprId} {e : Expression} (h : p.expression? id = some e)
    (new : Expression) : (p.addExpression new).expression? id = some e := by
  rw [expression?_addExpression, if_neg, h]
  rintro rfl
  exact absurd (Array.getElem?_eq_some_iff.1 h).1 (Nat.lt_irrefl _)

theorem statement?_add_of_some {id : StmtId} {x : Statement} (h : p.statement? id = some x)
    (new : Statement) : (p.addStatement new).statement? id = some x := by
  rw [statement?_addStatement, if_neg, h]
  rintro rfl
  exact absurd (Array.getElem?_eq_some_iff.1 h).1 (Nat.lt_irrefl _)

end Program

/-! ### States of reading -/

namespace Parser

open ScopeTree (nowhere)

variable {may may' : ScopeId → Prop} {s s' s'' : Parser}

/-- All that is there in `s` is still there in `s'`, and only the scopes that may get further names
have some. -/
structure Appends (may : ScopeId → Prop) (s s' : Parser) : Prop where
  declarations : ∀ id d, s.program.declaration? id = some d → s'.program.declaration? id = some d
  expressions : ∀ id e, s.program.expression? id = some e → s'.program.expression? id = some e
  statements : ∀ id x, s.program.statement? id = some x → s'.program.statement? id = some x
  topLevel : s'.program.topLevel = s.program.topLevel
  fields : s.deferred.fields <+: s'.deferred.fields
  identifiers : s.deferred.identifiers <+: s'.deferred.identifiers
  targets : s.deferred.statements <+: s'.deferred.statements
  scopes : s.program.scopes.Retains may s'.program.scopes

namespace Appends

/-- Nothing is added where the program and the pending references stay the same. -/
theorem of_eq (hprogram : s'.program = s.program) (hdeferred : s'.deferred = s.deferred) :
    Appends may s s' := by
  obtain ⟨rest, last?, program, deferred⟩ := s'
  obtain rfl : program = s.program := hprogram
  obtain rfl : deferred = s.deferred := hdeferred
  exact ⟨fun _ _ h => h, fun _ _ h => h, fun _ _ h => h, rfl, List.prefix_refl _,
    List.prefix_refl _, List.prefix_refl _, .refl may _⟩

/-- **One addition after the other.**  What is new in between may get any names later. -/
theorem trans_of (h : Appends may s s') (h' : Appends may' s' s'')
    (hmay : ∀ id scope, s.program.scopes.scope? id = some scope → may' id → may id) :
    Appends may s s'' where
  declarations id d hd := h'.declarations id d (h.declarations id d hd)
  expressions id e he := h'.expressions id e (h.expressions id e he)
  statements id x hx := h'.statements id x (h.statements id x hx)
  topLevel := h'.topLevel.trans h.topLevel
  fields := h.fields.trans h'.fields
  identifiers := h.identifiers.trans h'.identifiers
  targets := h.targets.trans h'.targets
  scopes := h.scopes.trans_of h'.scopes hmay

theorem trans (h : Appends may s s') (h' : Appends may s' s'') : Appends may s s'' :=
  h.trans_of h' fun _ _ _ hid => hid

theorem mono (h : Appends may s s') (hmay : ∀ id, may id → may' id) : Appends may' s s' :=
  { h with scopes := h.scopes.mono hmay }

/-- A number that no declaration has later, no declaration had before. -/
theorem declaration?_nextDecl (h : Appends may s s') :
    s.program.declaration? s'.program.nextDecl = none := by
  cases hd : s.program.declaration? s'.program.nextDecl with
  | none => rfl
  | some d =>
      have hlater := h.declarations _ d hd
      exact absurd (Array.getElem?_eq_some_iff.1 hlater).1 (Nat.lt_irrefl _)

end Appends

/-- Only expressions are added, with the places of the identifiers that are pending. -/
structure AddsExpressions (s s' : Parser) : Prop where
  declarations : s'.program.declarations = s.program.declarations
  expressions : ∀ id e, s.program.expression? id = some e → s'.program.expression? id = some e
  statements : s'.program.statements = s.program.statements
  topLevel : s'.program.topLevel = s.program.topLevel
  scopes : s'.program.scopes = s.program.scopes
  fields : s'.deferred.fields = s.deferred.fields
  identifiers : s.deferred.identifiers <+: s'.deferred.identifiers
  targets : s'.deferred.statements = s.deferred.statements

namespace AddsExpressions

theorem of_eq (hprogram : s'.program = s.program) (hdeferred : s'.deferred = s.deferred) :
    AddsExpressions s s' := by
  refine ⟨?_, fun id e he => ?_, ?_, ?_, ?_, ?_, ?_, ?_⟩ <;>
    simp only [hprogram, hdeferred, List.prefix_refl]
  exact he

theorem trans (h : AddsExpressions s s') (h' : AddsExpressions s' s'') :
    AddsExpressions s s'' where
  declarations := h'.declarations.trans h.declarations
  expressions id e he := h'.expressions id e (h.expressions id e he)
  statements := h'.statements.trans h.statements
  topLevel := h'.topLevel.trans h.topLevel
  scopes := h'.scopes.trans h.scopes
  fields := h'.fields.trans h.fields
  identifiers := h.identifiers.trans h'.identifiers
  targets := h'.targets.trans h.targets

/-- Adding expressions adds no name to any scope. -/
theorem appends (h : AddsExpressions s s') : Appends may s s' where
  declarations id d hd := by rwa [Program.declaration?, h.declarations]
  expressions := h.expressions
  statements id x hx := by rwa [Program.statement?, h.statements]
  topLevel := h.topLevel
  fields := h.fields ▸ List.prefix_refl _
  identifiers := h.identifiers
  targets := h.targets ▸ List.prefix_refl _
  scopes := by
    rw [h.scopes]
    exact .refl may _

end AddsExpressions

/-- The only name that a scope of `s` has gained in `s'`, if any, is that of a new function in the
given scope. -/
structure DeclaresFunction (scope : ScopeId) (s s' : Parser) : Prop where
  appends : Appends (· = scope) s s'
  binding : ∀ old new, s.program.scopes.scope? scope = some old →
    s'.program.scopes.scope? scope = some new → new.bindings = old.bindings ∨
      ∃ decl f place, s.program.declaration? decl = none ∧
        s'.program.declaration? decl = some (.func f) ∧
        new.bindings = ⟨.func, f.name, ⟨decl, some place⟩⟩ :: old.bindings

namespace DeclaresFunction

variable {scope : ScopeId}

/-- No scope may have gained a name. -/
theorem of_appends (h : Appends nowhere s s') : DeclaresFunction scope s s' := by
  refine ⟨h.mono fun _ hid => hid.elim, fun old new hold hnew => .inl ?_⟩
  obtain ⟨kept, hkept, -, hsame⟩ := h.scopes scope old hold
  obtain rfl := Option.some.inj (hkept.symm.trans hnew)
  exact hsame not_false

/-- What is added later without names changes nothing about it. -/
theorem trans (h : DeclaresFunction scope s s') (h' : Appends nowhere s' s'') :
    DeclaresFunction scope s s'' := by
  refine ⟨h.appends.trans (h'.mono fun _ hid => hid.elim), fun old new hold hnew => ?_⟩
  obtain ⟨mid, hmid, -⟩ := h.appends.scopes scope old hold
  obtain ⟨kept, hkept, -, hsame⟩ := h'.scopes scope mid hmid
  obtain rfl := Option.some.inj (hkept.symm.trans hnew)
  rw [hsame not_false]
  rcases h.binding old mid hold hmid with hnone | ⟨decl, f, place, hfresh, hfunction, hbindings⟩
  · exact .inl hnone
  · exact .inr ⟨decl, f, place, hfresh, h'.declarations decl _ hfunction, hbindings⟩

end DeclaresFunction

end Parser

end FrontEnd
