/-
**Kinds of declarations.**

A node refers to declarations, expressions and statements by number, and nothing in the data keeps a
number from leading to a declaration of the wrong kind, or nowhere.  In the programs that are made
from tokens it never does: the type of a variable is a type, a changed variable is a variable, a
name in an expression is that of a variable or of a function, and parameters, results and declared
variables are variables.  Adding a node whose own references are right keeps all references right,
since what is there already stays and keeps its kind; and so does settling references.

Main definitions:

* `FrontEnd.Reference.LeadsTo` — references to declarations of given kinds;
* `FrontEnd.Program.WellKinded` — programs in which all references are right;
* `FrontEnd.Program.Grows` — programs in which all that was in another one is still there.

Main results:

* `FrontEnd.Program.WellKinded.addDeclaration` and the like — one for each way to build on;
* `FrontEnd.Program.WellKinded.partlySettled` — settling references.
-/

import FrontEnd.Proofs.Resolution.Failing
import FrontEnd.Proofs.Scopes.Kinds

set_option relaxedAutoImplicit false
set_option autoImplicit false

namespace FrontEnd

/-! ### References of the right kind -/

namespace Program

def HasExpression (p : Program) (id : ExprId) : Prop := id.index < p.expressions.size

def HasStatement (p : Program) (id : StmtId) : Prop := id.index < p.statements.size

end Program

/-- If the declaration is known, it is of one of the kinds. -/
def Reference.LeadsTo (p : Program) (kinds : List DeclKind) (ref : Reference) : Prop :=
  ∀ id, ref = .resolved id → ∃ kind ∈ kinds, p.kind? id = some kind

/-- The type of a variable is a type; what a function takes and returns are variables, and its body
consists of statements. -/
def Declaration.WellKinded (p : Program) : Declaration → Prop
  | .var v => v.type.LeadsTo p [.type]
  | .type _ => True
  | .func f => (∀ field ∈ f.parameters ++ f.results, p.kind? field.decl = some .var) ∧
      ∀ id ∈ f.body, p.HasStatement id

/-- A name is that of a variable or of a function. -/
def Expression.WellKinded (p : Program) (e : Expression) : Prop :=
  ∀ ref, e.reference? = some ref → ref.LeadsTo p [.var, .func]

/-- What is changed and what is declared are variables, and the expressions exist. -/
structure Statement.WellKinded (p : Program) (s : Statement) : Prop where
  target : ∀ ref, s.target? = some ref → ref.LeadsTo p [.var]
  declared : ∀ decl, s.form = .declare decl → p.kind? decl = some .var
  expressions : ∀ id ∈ s.form.expressions, p.HasExpression id

namespace Program

variable {p q r : Program} {id decl : DeclId} {scope : ScopeId} {name : String} {kind : DeclKind}
  {place : Position}

/-- All references in the program, and those in its scopes, are of the right kind. -/
structure WellKinded (p : Program) : Prop where
  declarations : ∀ id d, p.declaration? id = some d → d.WellKinded p
  expressions : ∀ id e, p.expression? id = some e → e.WellKinded p
  statements : ∀ id s, p.statement? id = some s → s.WellKinded p
  scopes : p.scopes.Leads p.kind?

/-! ### Growing programs -/

/-- What is in the program `p` is still in `q`: declarations with their kinds, expressions,
statements, and scopes in which names can be declared. -/
structure Grows (p q : Program) : Prop where
  kinds : ∀ id kind, p.kind? id = some kind → q.kind? id = some kind
  expressions : p.expressions.size ≤ q.expressions.size
  statements : p.statements.size ≤ q.statements.size
  scopes : ∀ scope, p.scopes.IsOpen scope → q.scopes.IsOpen scope

theorem Grows.refl (p : Program) : Grows p p :=
  ⟨fun _ _ h => h, Nat.le_refl _, Nat.le_refl _, fun _ h => h⟩

theorem Grows.trans (h : Grows p q) (h' : Grows q r) : Grows p r where
  kinds id kind hkind := h'.kinds id kind (h.kinds id kind hkind)
  expressions := Nat.le_trans h.expressions h'.expressions
  statements := Nat.le_trans h.statements h'.statements
  scopes scope hopen := h'.scopes scope (h.scopes scope hopen)

theorem HasExpression.mono {id : ExprId} (hid : p.HasExpression id) (h : Grows p q) :
    q.HasExpression id := Nat.lt_of_lt_of_le hid h.expressions

theorem HasStatement.mono {id : StmtId} (hid : p.HasStatement id) (h : Grows p q) :
    q.HasStatement id := Nat.lt_of_lt_of_le hid h.statements

end Program

variable {p q : Program} {kinds : List DeclKind}

theorem Reference.LeadsTo.mono {ref : Reference} (hleads : ref.LeadsTo p kinds)
    (h : p.Grows q) : ref.LeadsTo q kinds := by
  intro id hid
  obtain ⟨kind, hmem, hkind⟩ := hleads id hid
  exact ⟨kind, hmem, h.kinds id kind hkind⟩

theorem Declaration.WellKinded.mono {d : Declaration} (hd : d.WellKinded p) (h : p.Grows q) :
    d.WellKinded q := by
  cases d with
  | var v => exact Reference.LeadsTo.mono hd h
  | type t => trivial
  | func f =>
      exact ⟨fun field hfield => h.kinds _ _ (hd.1 field hfield), fun id hid =>
        (hd.2 id hid).mono h⟩

theorem Expression.WellKinded.mono {e : Expression} (he : e.WellKinded p) (h : p.Grows q) :
    e.WellKinded q := fun ref href => (he ref href).mono h

theorem Statement.WellKinded.mono {s : Statement} (hs : s.WellKinded p) (h : p.Grows q) :
    s.WellKinded q where
  target ref href := (hs.target ref href).mono h
  declared decl hdecl := h.kinds _ _ (hs.declared decl hdecl)
  expressions id hid := (hs.expressions id hid).mono h

/-! ### What names stand for -/

/-- A reference to what was found is right, if what was found is. -/
theorem Reference.leadsTo_ofFound {found? : Option DeclId} (name : String) (scope : ScopeId)
    (place : Position) (h : ∀ id, found? = some id → ∃ kind ∈ kinds, p.kind? id = some kind) :
    (Reference.ofFound found? name scope place).LeadsTo p kinds := by
  intro id hid
  cases hfound : found? with
  | none =>
      rw [hfound] at hid
      cases hid
  | some other =>
      rw [hfound] at hid
      cases hid
      exact h id hfound

namespace Program

variable {scope : ScopeId} {name : String} {id : DeclId}

/-- What is found for the name of a type is a type. -/
theorem WellKinded.findType? (h : p.WellKinded) (hfound : p.findType? scope name = some id) :
    ∃ kind ∈ [DeclKind.type], p.kind? id = some kind := by
  obtain ⟨entry, hentry, rfl⟩ := Option.map_eq_some_iff.1 hfound
  exact ⟨.type, List.mem_cons_self, h.scopes.search hentry⟩

/-- What is found for the name of a variable is a variable. -/
theorem WellKinded.findVariable? (h : p.WellKinded)
    (hfound : p.findVariable? scope name = some id) :
    ∃ kind ∈ [DeclKind.var], p.kind? id = some kind := by
  obtain ⟨entry, hentry, rfl⟩ := Option.map_eq_some_iff.1 hfound
  exact ⟨.var, List.mem_cons_self, h.scopes.search hentry⟩

/-- What is found for a name in an expression is a variable or a function. -/
theorem WellKinded.findValue? (h : p.WellKinded) (hfound : p.findValue? scope name = some id) :
    ∃ kind ∈ [DeclKind.var, DeclKind.func], p.kind? id = some kind := by
  unfold Program.findValue? at hfound
  split at hfound
  · next var hvar =>
      cases hfound
      obtain ⟨kind, hmem, hkind⟩ := h.findVariable? hvar
      exact ⟨kind, List.mem_cons.2 (.inl (List.mem_singleton.1 hmem)), hkind⟩
  · obtain ⟨entry, hentry, rfl⟩ := Option.map_eq_some_iff.1 hfound
    exact ⟨.func, List.mem_cons_of_mem _ List.mem_cons_self, h.scopes.search hentry⟩

theorem WellKinded.typeReference (h : p.WellKinded) (scope : ScopeId) (name : String)
    (place : Position) : (p.typeReference scope name place).LeadsTo p [.type] :=
  Reference.leadsTo_ofFound name scope place fun _ => h.findType?

theorem WellKinded.variableReference (h : p.WellKinded) (scope : ScopeId) (name : String)
    (place : Position) : (p.variableReference scope name place).LeadsTo p [.var] :=
  Reference.leadsTo_ofFound name scope place fun _ => h.findVariable?

theorem WellKinded.valueReference (h : p.WellKinded) (scope : ScopeId) (name : String)
    (place : Position) : (p.valueReference scope name place).LeadsTo p [.var, .func] :=
  Reference.leadsTo_ofFound name scope place fun _ => h.findValue?

/-! ### Building on -/

/-- A program that has grown is right if what is new in it is. -/
theorem WellKinded.of_grows (h : p.WellKinded) (hgrows : p.Grows q)
    (hdeclarations : ∀ id d, q.declaration? id = some d →
      p.declaration? id = some d ∨ d.WellKinded q)
    (hexpressions : ∀ id e, q.expression? id = some e → p.expression? id = some e ∨ e.WellKinded q)
    (hstatements : ∀ id s, q.statement? id = some s → p.statement? id = some s ∨ s.WellKinded q)
    (hscopes : q.scopes.Leads q.kind?) : q.WellKinded where
  declarations id d hd := (hdeclarations id d hd).elim
    (fun hold => (h.declarations id d hold).mono hgrows) fun hnew => hnew
  expressions id e he := (hexpressions id e he).elim
    (fun hold => (h.expressions id e hold).mono hgrows) fun hnew => hnew
  statements id s hs := (hstatements id s hs).elim
    (fun hold => (h.statements id s hold).mono hgrows) fun hnew => hnew
  scopes := hscopes

theorem kind?_addDeclaration (p : Program) (d : Declaration) (id : DeclId) :
    (p.addDeclaration d).kind? id = if id = p.nextDecl then some d.kind else p.kind? id := by
  unfold kind?
  rw [declaration?_addDeclaration]
  split <;> rfl

theorem kind?_nextDecl (p : Program) : p.kind? p.nextDecl = none := by
  simp [kind?, declaration?, nextDecl]

theorem grows_addDeclaration (p : Program) (d : Declaration) : p.Grows (p.addDeclaration d) where
  kinds := by
    intro id kind hkind
    rw [kind?_addDeclaration, if_neg, hkind]
    rintro rfl
    rw [kind?_nextDecl] at hkind
    cases hkind
  expressions := Nat.le_refl _
  statements := Nat.le_refl _
  scopes _ hopen := hopen

/-- A further declaration keeps the kinds right, if its own references are. -/
theorem WellKinded.addDeclaration (h : p.WellKinded) {d : Declaration} (hd : d.WellKinded p) :
    (p.addDeclaration d).WellKinded := by
  have hgrows := grows_addDeclaration p d
  refine h.of_grows hgrows (fun id d' hd' => ?_) (fun id e he => .inl he) (fun id s hs => .inl hs)
    (h.scopes.mono hgrows.kinds)
  rw [declaration?_addDeclaration] at hd'
  split at hd'
  · cases hd'
    exact .inr (hd.mono hgrows)
  · exact .inl hd'

theorem grows_addExpression (p : Program) (e : Expression) : p.Grows (p.addExpression e) where
  kinds _ _ hkind := hkind
  expressions := by simp [Program.addExpression]
  statements := Nat.le_refl _
  scopes _ hopen := hopen

theorem hasExpression_nextExpr (p : Program) (e : Expression) :
    (p.addExpression e).HasExpression p.nextExpr := by
  simp [HasExpression, Program.addExpression, nextExpr]

/-- A further expression keeps the kinds right, if its own reference is. -/
theorem WellKinded.addExpression (h : p.WellKinded) {e : Expression} (he : e.WellKinded p) :
    (p.addExpression e).WellKinded := by
  have hgrows := grows_addExpression p e
  refine h.of_grows hgrows (fun id d hd => .inl hd) (fun id e' he' => ?_) (fun id s hs => .inl hs)
    h.scopes
  rw [expression?_addExpression] at he'
  split at he'
  · cases he'
    exact .inr (he.mono hgrows)
  · exact .inl he'

theorem grows_addStatement (p : Program) (s : Statement) : p.Grows (p.addStatement s) where
  kinds _ _ hkind := hkind
  expressions := Nat.le_refl _
  statements := by simp [Program.addStatement]
  scopes _ hopen := hopen

theorem hasStatement_nextStmt (p : Program) (s : Statement) :
    (p.addStatement s).HasStatement p.nextStmt := by
  simp [HasStatement, Program.addStatement, nextStmt]

/-- A further statement keeps the kinds right, if its own references are. -/
theorem WellKinded.addStatement (h : p.WellKinded) {s : Statement} (hs : s.WellKinded p) :
    (p.addStatement s).WellKinded := by
  have hgrows := grows_addStatement p s
  refine h.of_grows hgrows (fun id d hd => .inl hd) (fun id e he => .inl he) (fun id s' hs' => ?_)
    h.scopes
  rw [statement?_addStatement] at hs'
  split at hs'
  · cases hs'
    exact .inr (hs.mono hgrows)
  · exact .inl hs'

theorem declaration?_setBody (p : Program) (decl : DeclId) (body : List StmtId) (id : DeclId) :
    (p.setBody decl body).declaration? id = if decl = id then (p.declaration? id).map (fun
      | .func f => .func { f with body }
      | other => other) else p.declaration? id :=
  declaration?_modifyDeclaration p decl _ id

theorem grows_setBody (p : Program) (decl : DeclId) (body : List StmtId) :
    p.Grows (p.setBody decl body) where
  kinds := by
    intro id kind hkind
    unfold kind? at hkind ⊢
    rw [declaration?_setBody]
    split
    · rw [Option.map_map, ← hkind]
      congr 1
      funext d
      cases d <;> rfl
    · exact hkind
  expressions := Nat.le_refl _
  statements := Nat.le_refl _
  scopes _ hopen := hopen

/-- A body keeps the kinds right, if its statements exist. -/
theorem WellKinded.setBody (h : p.WellKinded) (decl : DeclId) {body : List StmtId}
    (hbody : ∀ id ∈ body, p.HasStatement id) : (p.setBody decl body).WellKinded := by
  have hgrows := grows_setBody p decl body
  refine h.of_grows hgrows (fun id d hd => ?_) (fun id e he => .inl he) (fun id s hs => .inl hs)
    (h.scopes.mono hgrows.kinds)
  rw [declaration?_setBody] at hd
  split at hd
  · obtain ⟨d', hd', rfl⟩ := Option.map_eq_some_iff.1 hd
    cases d' with
    | var v => exact .inl hd'
    | type t => exact .inl hd'
    | func f =>
        have hf : (Declaration.func { f with body }).WellKinded p :=
          ⟨(h.declarations id _ hd').1, hbody⟩
        exact .inr (hf.mono hgrows)
  · exact .inl hd

theorem grows_addTopLevel (p : Program) (decl : DeclId) : p.Grows (p.addTopLevel decl) :=
  ⟨fun _ _ h => h, Nat.le_refl _, Nat.le_refl _, fun _ h => h⟩

theorem WellKinded.addTopLevel (h : p.WellKinded) (decl : DeclId) :
    (p.addTopLevel decl).WellKinded :=
  h.of_grows (grows_addTopLevel p decl) (fun _ _ hd => .inl hd) (fun _ _ he => .inl he)
    (fun _ _ hs => .inl hs) h.scopes

/-! ### Scopes -/

theorem grows_withScopes {t : ScopeTree} (h : ∀ scope, p.scopes.IsOpen scope → t.IsOpen scope) :
    p.Grows { p with scopes := t } :=
  ⟨fun _ _ h => h, Nat.le_refl _, Nat.le_refl _, h⟩

theorem WellKinded.withScopes (h : p.WellKinded) {t : ScopeTree} (ht : t.Leads p.kind?)
    (hopen : ∀ scope, p.scopes.IsOpen scope → t.IsOpen scope) :
    WellKinded { p with scopes := t } :=
  h.of_grows (grows_withScopes hopen) (fun _ _ hd => .inl hd) (fun _ _ he => .inl he)
    (fun _ _ hs => .inl hs) ht

/-- At first all references are right. -/
theorem wellKinded_initial : Program.initial.WellKinded where
  declarations := by
    intro id d hd
    have hmem := Array.mem_of_getElem? hd
    simp only [Program.initial, List.mem_toArray, List.mem_map] at hmem
    obtain ⟨b, -, rfl⟩ := hmem
    trivial
  expressions := by
    intro id e he
    cases he
  statements := by
    intro id s hs
    cases hs
  scopes := by
    refine ScopeTree.leads_initial fun b => ?_
    cases b <;> rfl

/-! ### Settling -/

/-- Settling changes no kinds. -/
theorem PartlySettled.kind? (h : PartlySettled p q) : q.kind? = p.kind? := by
  obtain ⟨ds, es, ss, h⟩ := h
  funext id
  unfold Program.kind?
  rw [h.declaration]
  split
  · rw [Option.map_map]
    congr 1
    funext d
    cases d <;> rfl
  · rfl

/-- Settling takes nothing away. -/
theorem PartlySettled.grows (h : PartlySettled p q) : p.Grows q where
  kinds id kind hkind := by rwa [h.kind?]
  expressions := by
    obtain ⟨ds, es, ss, h⟩ := h
    -- the first number that is not in use is not in use before either
    have hnone : q.expression? ⟨q.expressions.size⟩ = none := Array.getElem?_eq_none (Nat.le_refl _)
    rw [h.expression] at hnone
    refine Array.getElem?_eq_none_iff.1 (?_ : p.expression? ⟨q.expressions.size⟩ = none)
    split at hnone
    · exact Option.map_eq_none_iff.1 hnone
    · exact hnone
  statements := by
    obtain ⟨ds, es, ss, h⟩ := h
    have hnone : q.statement? ⟨q.statements.size⟩ = none := Array.getElem?_eq_none (Nat.le_refl _)
    rw [h.statement] at hnone
    refine Array.getElem?_eq_none_iff.1 (?_ : p.statement? ⟨q.statements.size⟩ = none)
    split at hnone
    · exact Option.map_eq_none_iff.1 hnone
    · exact hnone
  scopes := by
    obtain ⟨ds, es, ss, h⟩ := h
    rw [h.scopes]
    exact fun _ hopen => hopen

end Program

/-! ### Settled nodes -/

section Settled

variable {find : ScopeId → String → Option DeclId}

theorem Reference.LeadsTo.settle {ref : Reference} (hleads : ref.LeadsTo p kinds)
    (hfind : ∀ scope name id, find scope name = some id →
      ∃ kind ∈ kinds, p.kind? id = some kind) : (ref.settle find).LeadsTo p kinds := by
  cases ref with
  | resolved id => exact hleads
  | pending name scope place =>
      exact leadsTo_ofFound name scope place fun id hid => hfind scope name id hid

theorem Declaration.WellKinded.settle {d : Declaration} (hd : d.WellKinded p)
    (hfind : ∀ scope name id, find scope name = some id →
      ∃ kind ∈ [DeclKind.type], p.kind? id = some kind) : (d.settle find).WellKinded p := by
  cases d with
  | var v => exact Reference.LeadsTo.settle hd hfind
  | type t => trivial
  | func f => exact hd

theorem Expression.WellKinded.settle {e : Expression} (he : e.WellKinded p)
    (hfind : ∀ scope name id, find scope name = some id →
      ∃ kind ∈ [DeclKind.var, DeclKind.func], p.kind? id = some kind) :
    (e.settle find).WellKinded p := by
  obtain ⟨form, place, types?⟩ := e
  cases form with
  | identifier name ref =>
      intro ref' href'
      cases href'
      exact (he ref rfl).settle hfind
  | _ => exact he

theorem Statement.WellKinded.settle {s : Statement} (hs : s.WellKinded p)
    (hfind : ∀ scope name id, find scope name = some id →
      ∃ kind ∈ [DeclKind.var], p.kind? id = some kind) : (s.settle find).WellKinded p := by
  obtain ⟨form, place⟩ := s
  cases form with
  | change ref change =>
      refine ⟨fun ref' href' => ?_, fun decl hdecl => ?_, hs.expressions⟩
      · cases href'
        exact (hs.target ref rfl).settle hfind
      · cases hdecl
  | _ => exact hs

end Settled

namespace Program

/-- **Settling references keeps all references right.** -/
theorem WellKinded.partlySettled (h : p.WellKinded) (hq : PartlySettled p q) : q.WellKinded := by
  have hgrows := hq.grows
  have hkinds := hq.kind?
  obtain ⟨ds, es, ss, hq⟩ := hq
  refine ⟨fun id d hd => ?_, fun id e he => ?_, fun id s hs => ?_, ?_⟩
  · rw [hq.declaration] at hd
    split at hd
    · obtain ⟨d', hd', rfl⟩ := Option.map_eq_some_iff.1 hd
      exact ((h.declarations id d' hd').settle fun _ _ _ => h.findType?).mono hgrows
    · exact (h.declarations id d hd).mono hgrows
  · rw [hq.expression] at he
    split at he
    · obtain ⟨e', he', rfl⟩ := Option.map_eq_some_iff.1 he
      exact ((h.expressions id e' he').settle fun _ _ _ => h.findValue?).mono hgrows
    · exact (h.expressions id e he).mono hgrows
  · rw [hq.statement] at hs
    split at hs
    · obtain ⟨s', hs', rfl⟩ := Option.map_eq_some_iff.1 hs
      exact ((h.statements id s' hs').settle fun _ _ _ => h.findVariable?).mono hgrows
    · exact (h.statements id s hs).mono hgrows
  · rw [hq.scopes, hkinds]
    exact h.scopes

end Program

end FrontEnd
