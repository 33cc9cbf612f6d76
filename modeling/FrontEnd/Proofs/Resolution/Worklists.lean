/-
**The lists of a file hold exactly its pending references.**

That every pending reference is listed is not all there is to say about the lists: nothing else is
in them, they are in the order of the nodes and nothing is in them twice.  A variable is declared
either behind a parameter or a result, or by one statement, and its type is listed there.

Main definitions:

* `FrontEnd.Program.ListsExactly` — lists of exactly the pending references of a program;
* `FrontEnd.Syntax.Nodes.Exact` — nodes with lists of exactly their pending references;
* `FrontEnd.Syntax.Nodes.SlotsApart` — nodes in which the variables that no statement declares are
  those behind parameters and results.

Main results:

* `FrontEnd.Syntax.nodewise_exact` — the lists of all files are exact;
* `FrontEnd.parseFile_listsExactly` — so are those that reading a file comes with, and what is left
  when they are worked through has no pending reference.
-/

import FrontEnd.Proofs.Layout.Ordered

set_option relaxedAutoImplicit false
set_option autoImplicit false

namespace FrontEnd

namespace Program

/-! ### Exact lists -/

variable (p : Program)

/-- The declaration is that of a variable whose type is pending. -/
def TypePending (decl : DeclId) : Prop :=
  ∃ v, p.declaration? decl = some (.var v) ∧ v.type.isPending = true

/-- The expression is a name that is pending. -/
def NamePending (id : ExprId) : Prop :=
  ∃ e ref, p.expression? id = some e ∧ e.reference? = some ref ∧ ref.isPending = true

/-- The statement changes a variable that is pending. -/
def TargetPending (id : StmtId) : Prop :=
  ∃ s ref, p.statement? id = some s ∧ s.target? = some ref ∧ ref.isPending = true

/-- The statement declares the variable. -/
def Declares (id : StmtId) (decl : DeclId) : Prop :=
  ∃ place, p.statement? id = some ⟨.declare decl, place⟩

/-- The declaration stands behind a parameter or a result of a function. -/
def IsSlot (decl : DeclId) : Prop :=
  ∃ id f, p.declaration? id = some (.func f) ∧ ∃ field ∈ f.parameters ++ f.results,
    field.decl = decl

/-- Lists that hold every pending reference of the program once, and nothing else, in the order of
the nodes: names in expressions, statements that change a pending variable or declare one whose type
is pending, and the variables of a pending type behind parameters and results. -/
structure ListsExactly (d : Deferred) : Prop where
  identifiersSorted : d.identifiers.Pairwise fun a b => a.index < b.index
  identifiers : ∀ id, id ∈ d.identifiers ↔ p.NamePending id
  statementsSorted : d.statements.Pairwise fun a b => a.index < b.index
  statements : ∀ id, id ∈ d.statements ↔
    p.TargetPending id ∨ ∃ decl, p.Declares id decl ∧ p.TypePending decl
  fieldsSorted : d.fields.Pairwise fun a b => a.index < b.index
  fields : ∀ decl, decl ∈ d.fields ↔ p.IsSlot decl ∧ p.TypePending decl
  /-- A variable of a pending type is listed by itself or with the one statement that declares
  it, and not in both ways. -/
  covered : ∀ decl, p.TypePending decl →
    (decl ∈ d.fields ∧ ∀ id, ¬ p.Declares id decl) ∨
      decl ∉ d.fields ∧ ∃ id ∈ d.statements, p.Declares id decl ∧
        ∀ other, p.Declares other decl → other = id

end Program

namespace Syntax

variable {functions : List (String × DeclId)} {o o' : Extent} {v : Sight} {x y : Nodes}

/-! ### Exact lists of nodes -/

/-- Lists of numbers one behind the other are sorted if each list is and the numbers are. -/
theorem pairwise_append_of_bounds {α : Type} {f : α → Nat} {xs ys : List α} {n : Nat}
    (hxs : xs.Pairwise fun a b => f a < f b) (hys : ys.Pairwise fun a b => f a < f b)
    (hbelow : ∀ a ∈ xs, f a < n) (habove : ∀ b ∈ ys, n ≤ f b) :
    (xs ++ ys).Pairwise fun a b => f a < f b :=
  List.pairwise_append.2 ⟨hxs, hys, fun a ha b hb => Nat.lt_of_lt_of_le (hbelow a ha) (habove b hb)⟩

namespace Nodes

def Declares (o : Extent) (y : Nodes) (id : StmtId) (decl : DeclId) : Prop :=
  ∃ place, y.statement? o id = some ⟨.declare decl, place⟩

def TypePending (o : Extent) (y : Nodes) (decl : DeclId) : Prop :=
  ∃ v, y.declaration? o decl = some (.var v) ∧ v.type.isPending = true

def NamePending (o : Extent) (y : Nodes) (id : ExprId) : Prop :=
  ∃ e ref, y.expression? o id = some e ∧ e.reference? = some ref ∧ ref.isPending = true

def TargetPending (o : Extent) (y : Nodes) (id : StmtId) : Prop :=
  ∃ s ref, y.statement? o id = some s ∧ s.target? = some ref ∧ ref.isPending = true

/-- Nodes whose lists hold their pending references in order, once and alone, and where every
variable is declared by at most one statement. -/
structure Exact (o : Extent) (y : Nodes) : Prop where
  identifiersSorted : y.deferred.identifiers.Pairwise fun a b => a.index < b.index
  identifiers : ∀ id, id ∈ y.deferred.identifiers ↔ y.NamePending o id
  statementsSorted : y.deferred.statements.Pairwise fun a b => a.index < b.index
  statements : ∀ id, id ∈ y.deferred.statements ↔
    y.TargetPending o id ∨ ∃ decl, y.Declares o id decl ∧ y.TypePending o decl
  fieldsSorted : y.deferred.fields.Pairwise fun a b => a.index < b.index
  fields : ∀ decl, decl ∈ y.deferred.fields ↔
    y.TypePending o decl ∧ ∀ id, ¬ y.Declares o id decl
  declares : ∀ id decl, y.Declares o id decl → ∃ v, y.declaration? o decl = some (.var v)
  once : ∀ id id' decl, y.Declares o id decl → y.Declares o id' decl → id = id'

theorem declares_append (h : (o + x.count).SameNodes o') {id : StmtId} {decl : DeclId} :
    (x ++ y).Declares o id decl ↔ x.Declares o id decl ∨ y.Declares o' id decl := by
  simp only [Declares, statement?_append h, exists_or]

theorem typePending_append (h : (o + x.count).SameNodes o') {decl : DeclId} :
    (x ++ y).TypePending o decl ↔ x.TypePending o decl ∨ y.TypePending o' decl := by
  simp only [TypePending, declaration?_append h, or_and_right, exists_or]

theorem namePending_append (h : (o + x.count).SameNodes o') {id : ExprId} :
    (x ++ y).NamePending o id ↔ x.NamePending o id ∨ y.NamePending o' id := by
  simp only [NamePending, expression?_append h, or_and_right, exists_or]

theorem targetPending_append (h : (o + x.count).SameNodes o') {id : StmtId} :
    (x ++ y).TargetPending o id ↔ x.TargetPending o id ∨ y.TargetPending o' id := by
  simp only [TargetPending, statement?_append h, or_and_right, exists_or]

/-- A number belongs to at most one of two trees. -/
theorem declaration?_disjoint (h : (o + x.count).SameNodes o') {decl : DeclId} {d d' : Declaration}
    (hd : x.declaration? o decl = some d) : y.declaration? o' decl ≠ some d' := by
  intro hd'
  have hlt : decl.index < o.decls + x.declarations.length := (bounds_of_itemAt? hd).2
  have hle : o'.decls ≤ decl.index := (bounds_of_itemAt? hd').1
  have heq : o.decls + x.declarations.length = o'.decls := h.decls
  omega

namespace Exact

/-- The numbers of listed expressions are those of nodes. -/
theorem bounds_of_mem_identifiers (h : y.Exact o) {id : ExprId}
    (hid : id ∈ y.deferred.identifiers) :
    o.exprs ≤ id.index ∧ id.index < o.exprs + y.expressions.length := by
  obtain ⟨e, ref, he, -, -⟩ := (h.identifiers id).1 hid
  exact bounds_of_itemAt? he

/-- The numbers of listed statements are those of nodes. -/
theorem bounds_of_mem_statements (h : y.Exact o) {id : StmtId}
    (hid : id ∈ y.deferred.statements) :
    o.stmts ≤ id.index ∧ id.index < o.stmts + y.statements.length := by
  obtain ⟨s, ref, hs, -, -⟩ | ⟨decl, ⟨place, hs⟩, -⟩ := (h.statements id).1 hid
  · exact bounds_of_itemAt? hs
  · exact bounds_of_itemAt? hs

/-- The numbers of listed variables are those of nodes. -/
theorem bounds_of_mem_fields (h : y.Exact o) {decl : DeclId} (hdecl : decl ∈ y.deferred.fields) :
    o.decls ≤ decl.index ∧ decl.index < o.decls + y.declarations.length := by
  obtain ⟨⟨v, hv, -⟩, -⟩ := (h.fields decl).1 hdecl
  exact bounds_of_itemAt? hv

theorem congr (h : y.Exact o) (hsame : o.SameNodes o') : y.Exact o' := by
  obtain ⟨hisorted, hi, hssorted, hs, hfsorted, hf, hdeclares, honce⟩ := h
  simp only [Declares, TypePending, NamePending, TargetPending, declaration?_congr hsame,
    statement?_congr hsame, expression?_congr hsame] at hi hs hf hdeclares honce
  exact ⟨hisorted, hi, hssorted, hs, hfsorted, hf, hdeclares, honce⟩

/-- What the first of two trees declares is not in the second. -/
theorem declaration?_ne_of_declares (hx : x.Exact o) (h : (o + x.count).SameNodes o')
    {id : StmtId} {decl : DeclId} (hdecl : x.Declares o id decl) {d : Declaration} :
    y.declaration? o' decl ≠ some d := by
  obtain ⟨v, hv⟩ := hx.declares id decl hdecl
  exact declaration?_disjoint h hv

/-- What is in the first of two trees is not declared in the second. -/
theorem not_declares_of_declaration? (hy : y.Exact o') (h : (o + x.count).SameNodes o')
    {id : StmtId} {decl : DeclId} {d : Declaration} (hd : x.declaration? o decl = some d) :
    ¬ y.Declares o' id decl := by
  intro hdecl
  obtain ⟨w, hw⟩ := hy.declares id decl hdecl
  exact declaration?_disjoint h hd hw

/-- The nodes of one tree behind those of another. -/
theorem append (hx : x.Exact o) (hy : y.Exact o') (h : (o + x.count).SameNodes o') :
    (x ++ y).Exact o where
  identifiersSorted := by
    refine pairwise_append_of_bounds hx.identifiersSorted hy.identifiersSorted
      (fun _ hid => (hx.bounds_of_mem_identifiers hid).2) fun _ hid => ?_
    exact Nat.le_trans (Nat.le_of_eq h.exprs) (hy.bounds_of_mem_identifiers hid).1
  identifiers := by
    intro id
    rw [namePending_append h, ← hx.identifiers, ← hy.identifiers]
    exact List.mem_append
  statementsSorted := by
    refine pairwise_append_of_bounds hx.statementsSorted hy.statementsSorted
      (fun _ hid => (hx.bounds_of_mem_statements hid).2) fun _ hid => ?_
    exact Nat.le_trans (Nat.le_of_eq h.stmts) (hy.bounds_of_mem_statements hid).1
  statements := by
    intro id
    simp only [append_deferred, Deferred.append_statements, List.mem_append, hx.statements,
      hy.statements, targetPending_append h, declares_append h, typePending_append h]
    constructor
    · rintro ((htarget | ⟨decl, hdecl, htype⟩) | htarget | ⟨decl, hdecl, htype⟩)
      · exact .inl (.inl htarget)
      · exact .inr ⟨decl, .inl hdecl, .inl htype⟩
      · exact .inl (.inr htarget)
      · exact .inr ⟨decl, .inr hdecl, .inr htype⟩
    · -- a variable and the statement that declares it stand in the same tree
      rintro ((htarget | htarget) | ⟨decl, hdecl | hdecl, htype | htype⟩)
      · exact .inl (.inl htarget)
      · exact .inr (.inl htarget)
      · exact .inl (.inr ⟨decl, hdecl, htype⟩)
      · obtain ⟨v, hv, -⟩ := htype
        exact absurd hv (hx.declaration?_ne_of_declares h hdecl)
      · obtain ⟨v, hv, -⟩ := htype
        exact absurd hdecl (hy.not_declares_of_declaration? h hv)
      · exact .inr (.inr ⟨decl, hdecl, htype⟩)
  fieldsSorted := by
    refine pairwise_append_of_bounds hx.fieldsSorted hy.fieldsSorted
      (fun _ hdecl => (hx.bounds_of_mem_fields hdecl).2) fun _ hdecl => ?_
    exact Nat.le_trans (Nat.le_of_eq h.decls) (hy.bounds_of_mem_fields hdecl).1
  fields := by
    intro decl
    simp only [append_deferred, Deferred.append_fields, List.mem_append, hx.fields, hy.fields,
      declares_append h, typePending_append h, not_or]
    constructor
    · rintro (⟨⟨v, hv, hpending⟩, hfree⟩ | ⟨⟨v, hv, hpending⟩, hfree⟩)
      · exact ⟨.inl ⟨v, hv, hpending⟩, fun id =>
          ⟨hfree id, hy.not_declares_of_declaration? h hv⟩⟩
      · exact ⟨.inr ⟨v, hv, hpending⟩, fun id =>
          ⟨fun hdecl => hx.declaration?_ne_of_declares h hdecl hv, hfree id⟩⟩
    · rintro ⟨htype | htype, hfree⟩
      · exact .inl ⟨htype, fun id => (hfree id).1⟩
      · exact .inr ⟨htype, fun id => (hfree id).2⟩
  declares := by
    intro id decl hdecl
    simp only [declaration?_append h, exists_or]
    rcases (declares_append h).1 hdecl with hdecl | hdecl
    · exact .inl (hx.declares id decl hdecl)
    · exact .inr (hy.declares id decl hdecl)
  once := by
    intro id id' decl hdecl hdecl'
    rcases (declares_append h).1 hdecl with hdecl | hdecl <;>
      rcases (declares_append h).1 hdecl' with hdecl' | hdecl'
    · exact hx.once id id' decl hdecl hdecl'
    · obtain ⟨v, hv⟩ := hx.declares id decl hdecl
      exact absurd hdecl' (hy.not_declares_of_declaration? h hv)
    · obtain ⟨v, hv⟩ := hx.declares id' decl hdecl'
      exact absurd hdecl (hy.not_declares_of_declaration? h hv)
    · exact hy.once id id' decl hdecl hdecl'

end Exact

/-! ### Single nodes -/

@[simp] theorem deferred_ofDeclaration (d : Declaration) : (ofDeclaration d).deferred = {} := rfl

@[simp] theorem deferred_ofExpression (e : Expression) : (ofExpression e).deferred = {} := rfl

@[simp] theorem deferred_ofStatement (form : StmtForm) (place : Position) :
    (ofStatement form place).deferred = {} := rfl

/-- A reference that is found is not listed. -/
theorem deferred_append_deferIf_of_resolved {ref : Reference} (h : ref.isPending = false)
    (x : Nodes) (places : Deferred) : (x ++ deferIf ref places).deferred = x.deferred := by
  cases ref with
  | resolved id => exact Deferred.append_empty _
  | pending name scope place => cases h

theorem exact_empty (o : Extent) : ({} : Nodes).Exact o := by
  constructor <;> simp [NamePending, TargetPending, TypePending, Declares]

/-- The declaration of a function has nothing to list. -/
theorem exact_func (f : Function) (o : Extent) : (ofDeclaration (.func f)).Exact o := by
  constructor <;> simp [NamePending, TargetPending, TypePending, Declares]

/-- An expression that is no name has nothing to list. -/
theorem exact_ofExpression {e : Expression} (he : e.reference? = none) :
    (ofExpression e).Exact o := by
  have hnone : ∀ id, ¬ (ofExpression e).NamePending o id := by
    rintro id ⟨e', ref, he', href, -⟩
    obtain ⟨-, rfl⟩ := expression?_ofExpression.1 he'
    rw [he] at href
    cases href
  constructor <;> simp [hnone, TargetPending, TypePending, Declares]

/-- A statement that neither declares nor changes a variable has nothing to list. -/
theorem exact_ofStatement {form : StmtForm} {place : Position}
    (hdeclare : ∀ decl, form ≠ .declare decl) (hchange : ∀ ref change, form ≠ .change ref change) :
    (ofStatement form place).Exact o := by
  have htarget : ∀ id, ¬ (ofStatement form place).TargetPending o id := by
    rintro id ⟨s, ref, hs, href, -⟩
    obtain ⟨-, rfl⟩ := statement?_ofStatement.1 hs
    cases form <;> simp [Statement.target?] at href
    exact hchange _ _ rfl
  have hdeclares : ∀ id decl, ¬ (ofStatement form place).Declares o id decl := by
    rintro id decl ⟨place', hs⟩
    exact hdeclare decl (congrArg Statement.form (statement?_ofStatement.1 hs).2)
  constructor <;> simp [htarget, hdeclares, NamePending, TypePending]

/-- A name is listed if it is pending. -/
theorem exact_name (text : String) (ref : Reference) (place : Position) (o : Extent) :
    (ofExpression { form := .identifier text ref, position := place } ++
      deferIf ref { identifiers := [⟨o.exprs⟩] }).Exact o := by
  have hnames : ∀ id, (ofExpression { form := .identifier text ref, position := place } ++
      deferIf ref { identifiers := [⟨o.exprs⟩] }).NamePending o id ↔
        id = ⟨o.exprs⟩ ∧ ref.isPending = true := by
    intro id
    simp only [NamePending, expression?_append_deferIf, expression?_ofExpression]
    constructor
    · rintro ⟨_, ref', ⟨rfl, rfl⟩, href, hpending⟩
      obtain rfl := Option.some.inj href
      exact ⟨rfl, hpending⟩
    · rintro ⟨rfl, hpending⟩
      exact ⟨_, ref, ⟨rfl, rfl⟩, rfl, hpending⟩
  cases hpending : ref.isPending with
  | false =>
      have hlists := deferred_append_deferIf_of_resolved hpending
      constructor <;> simp [hnames, hpending, hlists, TargetPending, TypePending, Declares]
  | true =>
      have hlists := deferred_append_deferIf hpending
      constructor <;> simp [hnames, hpending, hlists, TargetPending, TypePending, Declares]

/-- A change of a variable is listed if the variable is pending. -/
theorem exact_change (ref : Reference) (change : Change) (place : Position) (o : Extent) :
    (ofStatement (.change ref change) place ++
      deferIf ref { statements := [⟨o.stmts⟩] }).Exact o := by
  have htargets : ∀ id, (ofStatement (.change ref change) place ++
      deferIf ref { statements := [⟨o.stmts⟩] }).TargetPending o id ↔
        id = ⟨o.stmts⟩ ∧ ref.isPending = true := by
    intro id
    simp only [TargetPending, statement?_append_deferIf, statement?_ofStatement]
    constructor
    · rintro ⟨_, ref', ⟨rfl, rfl⟩, href, hpending⟩
      obtain rfl := Option.some.inj href
      exact ⟨rfl, hpending⟩
    · rintro ⟨rfl, hpending⟩
      exact ⟨_, ref, ⟨rfl, rfl⟩, rfl, hpending⟩
  cases hpending : ref.isPending with
  | false =>
      have hlists := deferred_append_deferIf_of_resolved hpending
      constructor <;> simp [htargets, hpending, hlists, NamePending, TypePending, Declares]
  | true =>
      have hlists := deferred_append_deferIf hpending
      constructor <;> simp [htargets, hpending, hlists, NamePending, TypePending, Declares]

/-- The type of a declared variable is listed with the statement if it is pending. -/
theorem exact_declare (name? : Option String) (p place : Position) (ref : Reference) (o : Extent) :
    (ofDeclaration (.var ⟨name?, p, ref⟩) ++ (ofStatement (.declare ⟨o.decls⟩) place ++
      deferIf ref { statements := [⟨o.stmts⟩] })).Exact o := by
  rw [← Nodes.append_assoc]
  generalize hx : ofDeclaration (.var ⟨name?, p, ref⟩) ++
    ofStatement (.declare ⟨o.decls⟩) place = x
  have hsame : (o + (ofDeclaration (.var ⟨name?, p, ref⟩)).count).SameNodes (o + .decl) := .refl _
  have hdeclaration : ∀ {decl d}, x.declaration? o decl = some d ↔
      decl = ⟨o.decls⟩ ∧ .var ⟨name?, p, ref⟩ = d := by
    intro decl d
    simp [← hx, declaration?_append hsame]
  have hstatement : ∀ {id s}, x.statement? o id = some s ↔
      id = ⟨o.stmts⟩ ∧ (⟨.declare ⟨o.decls⟩, place⟩ : Statement) = s := by
    intro id s
    simp [← hx, statement?_append hsame, Extent.decl]
  have hlist : x.deferred = {} := by
    rw [← hx]
    rfl
  have hnames : ∀ id, ¬ (x ++ deferIf ref { statements := [⟨o.stmts⟩] }).NamePending o id := by
    rintro id ⟨e, -, he, -, -⟩
    simp [← hx, expression?_append hsame] at he
  have htargets : ∀ id, ¬ (x ++ deferIf ref { statements := [⟨o.stmts⟩] }).TargetPending o id := by
    rintro id ⟨s, ref', hs, href, -⟩
    rw [statement?_append_deferIf] at hs
    obtain ⟨-, rfl⟩ := hstatement.1 hs
    cases href
  have hdeclares : ∀ id decl, (x ++ deferIf ref { statements := [⟨o.stmts⟩] }).Declares o id decl ↔
      id = ⟨o.stmts⟩ ∧ decl = ⟨o.decls⟩ := by
    intro id decl
    simp only [Declares, statement?_append_deferIf, hstatement]
    constructor
    · rintro ⟨place', rfl, hs⟩
      have hform := congrArg Statement.form hs
      exact ⟨rfl, (StmtForm.declare.inj hform).symm⟩
    · rintro ⟨rfl, rfl⟩
      exact ⟨place, rfl, rfl⟩
  have htypes : ∀ decl, (x ++ deferIf ref { statements := [⟨o.stmts⟩] }).TypePending o decl ↔
      decl = ⟨o.decls⟩ ∧ ref.isPending = true := by
    intro decl
    simp only [TypePending, declaration?_append_deferIf, hdeclaration]
    constructor
    · rintro ⟨v, ⟨rfl, hv⟩, hpending⟩
      obtain rfl := Declaration.var.inj hv
      exact ⟨rfl, hpending⟩
    · rintro ⟨rfl, hpending⟩
      exact ⟨_, ⟨rfl, rfl⟩, hpending⟩
  cases hpending : ref.isPending with
  | false =>
      have hlists := deferred_append_deferIf_of_resolved hpending
      constructor <;>
        simp [hlists, hlist, hpending, hnames, htargets, hdeclares, htypes, hdeclaration]
  | true =>
      have hlists := deferred_append_deferIf hpending
      constructor <;>
        simp [hlists, hlist, hpending, hnames, htargets, hdeclares, htypes, hdeclaration]

end Nodes

/-- The type of a parameter or a result is listed if it is pending. -/
theorem Slot.exact_nodes (scope : ScopeId) (o : Extent) (slot : Slot) :
    (slot.nodes scope o).Exact o := by
  unfold nodes
  generalize Sight.type scope slot.type = ref
  have htypes : ∀ decl, (Nodes.ofDeclaration (.var ⟨slot.name?, slot.position, ref⟩) ++
      .deferIf ref { fields := [⟨o.decls⟩] }).TypePending o decl ↔
        decl = ⟨o.decls⟩ ∧ ref.isPending = true := by
    intro decl
    simp only [Nodes.TypePending, Nodes.declaration?_append_deferIf,
      Nodes.declaration?_ofDeclaration]
    constructor
    · rintro ⟨v, ⟨rfl, hv⟩, hpending⟩
      obtain rfl := Declaration.var.inj hv
      exact ⟨rfl, hpending⟩
    · rintro ⟨rfl, hpending⟩
      exact ⟨_, ⟨rfl, rfl⟩, hpending⟩
  cases hpending : ref.isPending with
  | false =>
      have hlists := Nodes.deferred_append_deferIf_of_resolved hpending
      constructor <;>
        simp [hlists, hpending, htypes, Nodes.NamePending, Nodes.TargetPending, Nodes.Declares]
  | true =>
      have hlists := Nodes.deferred_append_deferIf hpending
      constructor <;>
        simp [hlists, hpending, htypes, Nodes.NamePending, Nodes.TargetPending, Nodes.Declares]

/-- **The lists of a file are exact.** -/
theorem nodewise_exact : Nodewise Nodes.Exact where
  empty := Nodes.exact_empty
  congr := Nodes.Exact.congr
  append hx hy := hx.append hy (.refl _)
  literal o value place := by
    refine Nodes.exact_ofExpression ?_
    cases value <;> rfl
  name o text ref place := Nodes.exact_name text ref place o
  whole o form place hparts _ := by
    refine Nodes.exact_ofExpression ?_
    cases form <;> first | rfl | exact absurd rfl hparts
  statement o form place hdeclare hchange _ := Nodes.exact_ofStatement hdeclare hchange
  change o ref change place := Nodes.exact_change ref change place o
  declare o name? p place scope type := Nodes.exact_declare name? p place _ o
  slot o scope slot := Slot.exact_nodes scope o slot
  func o f := Nodes.exact_func f o

/-! ### Parameters and results -/

namespace Nodes

/-- The nodes declare variables only, each of them by a statement. -/
def AllDeclared (o : Extent) (y : Nodes) : Prop :=
  ∀ decl d, y.declaration? o decl = some d → (∃ v, d = .var v) ∧ ∃ id, y.Declares o id decl

def IsSlot (o : Extent) (y : Nodes) (decl : DeclId) : Prop :=
  ∃ id f, y.declaration? o id = some (.func f) ∧ ∃ field ∈ f.parameters ++ f.results,
    field.decl = decl

/-- The declaration is that of a variable that no statement declares. -/
def Undeclared (o : Extent) (y : Nodes) (decl : DeclId) : Prop :=
  (∃ v, y.declaration? o decl = some (.var v)) ∧ ∀ id, ¬ y.Declares o id decl

/-- The variables behind parameters and results are those that no statement declares. -/
def SlotsApart (o : Extent) (y : Nodes) : Prop := ∀ decl, y.IsSlot o decl ↔ y.Undeclared o decl

theorem AllDeclared.append (hx : x.AllDeclared o) (hy : y.AllDeclared o')
    (h : (o + x.count).SameNodes o') : (x ++ y).AllDeclared o := by
  intro decl d hd
  simp only [declares_append h, exists_or]
  rcases (declaration?_append h).1 hd with hd | hd
  · exact ⟨(hx decl d hd).1, .inl (hx decl d hd).2⟩
  · exact ⟨(hy decl d hd).1, .inr (hy decl d hd).2⟩

/-- Where nothing is declared there is nothing to show. -/
theorem allDeclared_of_count (h : y.count.decls = 0) : y.AllDeclared o := by
  intro decl d hd
  have hlt : decl.index < o.decls + y.declarations.length := (bounds_of_itemAt? hd).2
  have hle : o.decls ≤ decl.index := (bounds_of_itemAt? hd).1
  change y.declarations.length = 0 at h
  omega

theorem isSlot_append (h : (o + x.count).SameNodes o') {decl : DeclId} :
    (x ++ y).IsSlot o decl ↔ x.IsSlot o decl ∨ y.IsSlot o' decl := by
  simp only [IsSlot, declaration?_append h, or_and_right, exists_or]

/-- A variable that no statement declares is one of the first nodes or one of the others. -/
theorem undeclared_append (hx : x.Exact o) (hy : y.Exact o') (h : (o + x.count).SameNodes o')
    {decl : DeclId} : (x ++ y).Undeclared o decl ↔ x.Undeclared o decl ∨ y.Undeclared o' decl := by
  simp only [Undeclared, declaration?_append h, declares_append h, exists_or, not_or]
  constructor
  · rintro ⟨hv | hv, hfree⟩
    · exact .inl ⟨hv, fun id => (hfree id).1⟩
    · exact .inr ⟨hv, fun id => (hfree id).2⟩
  · rintro (⟨⟨v, hv⟩, hfree⟩ | ⟨⟨v, hv⟩, hfree⟩)
    · exact ⟨.inl ⟨v, hv⟩, fun id => ⟨hfree id, hy.not_declares_of_declaration? h hv⟩⟩
    · exact ⟨.inr ⟨v, hv⟩, fun id =>
        ⟨fun hdecl => hx.declaration?_ne_of_declares h hdecl hv, hfree id⟩⟩

theorem SlotsApart.append (hx : x.Exact o) (hy : y.Exact o') (hxs : x.SlotsApart o)
    (hys : y.SlotsApart o') (h : (o + x.count).SameNodes o') : (x ++ y).SlotsApart o := by
  intro decl
  rw [isSlot_append h, undeclared_append hx hy h, hxs, hys]

theorem SlotsApart.congr (h : y.SlotsApart o) (hsame : o.SameNodes o') : y.SlotsApart o' := by
  simp only [SlotsApart, IsSlot, Undeclared, Declares, declaration?_congr hsame,
    statement?_congr hsame] at h
  exact h

end Nodes

namespace Nodes

/-- Without functions there are no parameters and results. -/
theorem not_isSlot_of_vars (h : ∀ decl d, y.declaration? o decl = some d → ∃ v, d = .var v)
    (decl : DeclId) : ¬ y.IsSlot o decl := by
  rintro ⟨id, f, hf, -⟩
  obtain ⟨v, hv⟩ := h id _ hf
  cases hv

theorem AllDeclared.not_isSlot (h : y.AllDeclared o) (decl : DeclId) : ¬ y.IsSlot o decl :=
  not_isSlot_of_vars (fun id d hd => (h id d hd).1) decl

theorem AllDeclared.not_undeclared (h : y.AllDeclared o) (decl : DeclId) :
    ¬ y.Undeclared o decl := by
  rintro ⟨⟨v, hv⟩, hfree⟩
  obtain ⟨id, hid⟩ := (h decl _ hv).2
  exact hfree id hid

@[simp] theorem isSlot_func {f : Function} {decl : DeclId} :
    (ofDeclaration (.func f)).IsSlot o decl ↔
      ∃ field ∈ f.parameters ++ f.results, field.decl = decl := by
  constructor
  · rintro ⟨id, g, hg, hfield⟩
    obtain rfl := Declaration.func.inj (declaration?_ofDeclaration.1 hg).2
    exact hfield
  · intro hfield
    exact ⟨⟨o.decls⟩, f, declaration?_ofDeclaration.2 ⟨rfl, rfl⟩, hfield⟩

@[simp] theorem not_undeclared_func {f : Function} {decl : DeclId} :
    ¬ (ofDeclaration (.func f)).Undeclared o decl := by
  rintro ⟨⟨v, hv⟩, -⟩
  cases (declaration?_ofDeclaration.1 hv).2

end Nodes

theorem Expr.allDeclared_nodes (e : Expr) (v : Sight) (o : Extent) :
    (e.nodes functions v o).AllDeclared o :=
  Nodes.allDeclared_of_count (by simp [Extent.ofExprs])

theorem Simple.allDeclared_nodes (s : Simple) (v : Sight) (o : Extent) :
    (s.nodes functions v o).AllDeclared o := by
  refine Nodes.allDeclared_of_count ?_
  cases s <;> simp [extent, Extent.stmt, Extent.ofExprs]

theorem Simple.allDeclared_nodes? (s? : Option Simple) (v : Sight) (o : Extent) :
    (nodes? functions v o s?).AllDeclared o := by
  cases s? with
  | none => exact Nodes.allDeclared_of_count rfl
  | some s => exact s.allDeclared_nodes v o

namespace Stmt

theorem allDeclared_nodesAll_of_forall (xs : List Stmt)
    (hxs : ∀ s ∈ xs, ∀ v o, (s.nodes functions v o).AllDeclared o) (v : Sight) (o : Extent) :
    (nodesAll functions v o xs).AllDeclared o := by
  induction xs generalizing v o with
  | nil => exact Nodes.allDeclared_of_count rfl
  | cons s xs ih =>
      refine (hxs s List.mem_cons_self v o).append
        (ih (fun s' hs' => hxs s' (List.mem_cons_of_mem s hs')) _ _) ?_
      simp [Extent.SameNodes, Stmt.count_nodes]

/-- Within a statement every variable is declared by a statement. -/
theorem allDeclared_nodes (s : Stmt) (v : Sight) (o : Extent) :
    (s.nodes functions v o).AllDeclared o := by
  induction s generalizing v o with
  | declare place name type =>
      intro decl d hd
      rw [nodes, ← Nodes.append_assoc, Nodes.declaration?_append_deferIf] at hd
      simp [Nodes.declaration?_append (Extent.SameNodes.refl _)] at hd
      obtain ⟨rfl, rfl⟩ := hd
      refine ⟨⟨_, rfl⟩, ⟨o.stmts⟩, place, ?_⟩
      rw [nodes, ← Nodes.append_assoc, Nodes.statement?_append_deferIf]
      exact (Nodes.statement?_append (.refl _)).2 (.inr (Nodes.statement?_ofStatement.2 ⟨rfl, rfl⟩))
  | simple s => exact Simple.allDeclared_nodes s v o
  | branch place condition thenBlock ih =>
      have hthen := allDeclared_nodesAll_of_forall thenBlock ih
      refine (Expr.allDeclared_nodes condition v o).append ((hthen _ _).append
        (Nodes.allDeclared_of_count rfl) (.refl _)) ?_
      simp [Extent.SameNodes]
  | branchElse place condition thenBlock elseBlock ihThen ihElse =>
      have hthen := allDeclared_nodesAll_of_forall thenBlock ihThen
      have helse := allDeclared_nodesAll_of_forall elseBlock ihElse
      refine (Expr.allDeclared_nodes condition v o).append ((hthen _ _).append ((helse _ _).append
        (Nodes.allDeclared_of_count rfl) (.refl _)) ?_) ?_
      · simp [Extent.SameNodes, Stmt.count_nodesAll, Extent.add_assoc]
      · simp [Extent.SameNodes]
  | whileLoop place condition body ih =>
      have hbody := allDeclared_nodesAll_of_forall body ih
      refine (Expr.allDeclared_nodes condition v o).append ((hbody _ _).append
        (Nodes.allDeclared_of_count rfl) (.refl _)) ?_
      simp [Extent.SameNodes]
  | forLoop place init? condition action? body ih =>
      have hbody := allDeclared_nodesAll_of_forall body ih
      refine (Simple.allDeclared_nodes? init? v o).append
        ((Expr.allDeclared_nodes condition v _).append
          ((Simple.allDeclared_nodes? action? v _).append
            ((hbody _ _).append (Nodes.allDeclared_of_count rfl) (.refl _)) ?_) ?_) ?_
      · simp [Extent.SameNodes]
      · simp [Extent.SameNodes]
      · simp [Extent.SameNodes]
  | result place values =>
      refine Nodes.allDeclared_of_count ?_
      simp [nodes, Extent.stmt, Extent.ofExprs]

theorem allDeclared_nodesAll (xs : List Stmt) (v : Sight) (o : Extent) :
    (nodesAll functions v o xs).AllDeclared o :=
  allDeclared_nodesAll_of_forall xs (fun s _ v o => allDeclared_nodes s v o) v o

end Stmt

/-- The variables behind slots are those that the fields name. -/
theorem Slot.declaration?_nodesAll (scope : ScopeId) (slots : List Slot) (o : Extent)
    (decl : DeclId) : (∃ field ∈ fields o slots, field.decl = decl) ↔
      ∃ v, (nodesAll scope o slots).declaration? o decl = some (.var v) := by
  induction slots generalizing o with
  | nil => simp [fields, nodesAll]
  | cons slot slots ih =>
      have hsame : (o + (slot.nodes scope o).count).SameNodes (o + .decl) := by
        simp [Extent.SameNodes]
      simp only [fields, nodesAll, List.mem_cons, or_and_right, exists_or, exists_eq_left, ih,
        Nodes.declaration?_append hsame]
      refine or_congr (eq_comm.trans ?_) Iff.rfl
      simp [nodes]

/-- Behind slots there are only variables that no statement declares. -/
theorem Slot.undeclared_nodesAll (scope : ScopeId) (slots : List Slot) (o : Extent)
    (decl : DeclId) : (nodesAll scope o slots).Undeclared o decl ↔
      ∃ field ∈ fields o slots, field.decl = decl := by
  rw [declaration?_nodesAll scope]
  refine and_iff_left_of_imp fun _ id => ?_
  rintro ⟨place, hs⟩
  have hlt := (bounds_of_itemAt? hs).2
  have hle := (bounds_of_itemAt? hs).1
  have hcount := congrArg Extent.stmts (count_nodesAll scope o slots)
  change (nodesAll scope o slots).statements.length = 0 at hcount
  omega

/-- Parameters and results are variables. -/
theorem Slot.vars_nodesAll (scope : ScopeId) (slots : List Slot) (o : Extent) (decl : DeclId)
    (d : Declaration) (hd : (nodesAll scope o slots).declaration? o decl = some d) :
    ∃ v, d = .var v := by
  induction slots generalizing o with
  | nil => simp [nodesAll] at hd
  | cons slot slots ih =>
      have hsame : (o + (slot.nodes scope o).count).SameNodes (o + .decl) := by
        simp [Extent.SameNodes]
      rcases (Nodes.declaration?_append hsame).1 hd with hd | hd
      · rw [nodes, Nodes.declaration?_append_deferIf] at hd
        exact ⟨_, (Nodes.declaration?_ofDeclaration.1 hd).2.symm⟩
      · exact ih _ hd

/-- In a function no statement declares the variables behind parameters and results, and some
statement every other variable. -/
theorem Func.slotsApart_nodes (f : Func) (o : Extent) : (f.nodes functions o).SlotsApart o := by
  -- entering the function makes a scope and no node
  refine Nodes.SlotsApart.congr (o := o + .scope) (fun decl => ?_) (by simp [Extent.SameNodes])
  have hparameters := nodewise_exact.slotNodesAll ⟨o.scopes⟩ (f.parameters.map Param.slot)
    (o + .scope)
  have hresults := nodewise_exact.slotNodesAll ⟨o.scopes⟩ (f.results.map Name.slot) (f.resultsAt o)
  have hheader := Nodes.exact_func (f.header o) (f.resultsAt o + .ofDecls f.results.length)
  have hbody : (Stmt.nodesAll functions (f.sight o) (f.bodyAt o) f.body).Exact (f.bodyAt o) :=
    nodewise_exact.stmtNodesAll f.body _ _
  have hdeclared : (Stmt.nodesAll functions (f.sight o) (f.bodyAt o) f.body).AllDeclared
      (f.bodyAt o) := Stmt.allDeclared_nodesAll f.body _ _
  have hrest := hheader.append hbody (Extent.SameNodes.refl _)
  have hsame : (f.resultsAt o + (Slot.nodesAll ⟨o.scopes⟩ (f.resultsAt o)
      (f.results.map Name.slot)).count).SameNodes
        (f.resultsAt o + .ofDecls f.results.length) := by
    simp [Extent.SameNodes]
  have hsame' : (o + .scope + (Slot.nodesAll ⟨o.scopes⟩ (o + .scope)
      (f.parameters.map Param.slot)).count).SameNodes (f.resultsAt o) := by
    simp [Extent.SameNodes, Func.resultsAt]
  have hslot : (f.nodes functions o).IsSlot (o + .scope) decl ↔
      ∃ field ∈ (f.header o).parameters ++ (f.header o).results, field.decl = decl := by
    rw [nodes, Nodes.isSlot_append hsame', Nodes.isSlot_append hsame,
      Nodes.isSlot_append (Extent.SameNodes.refl _), Nodes.isSlot_func]
    simp only [Nodes.not_isSlot_of_vars (Slot.vars_nodesAll _ _ _), false_or]
    exact or_iff_left (hdeclared.not_isSlot decl)
  have hfree : (f.nodes functions o).Undeclared (o + .scope) decl ↔
      ∃ field ∈ (f.header o).parameters ++ (f.header o).results, field.decl = decl := by
    rw [nodes, Nodes.undeclared_append hparameters (hresults.append hrest hsame) hsame',
      Nodes.undeclared_append hresults hrest hsame,
      Nodes.undeclared_append hheader hbody (Extent.SameNodes.refl _),
      Slot.undeclared_nodesAll, Slot.undeclared_nodesAll]
    have hnone := hdeclared.not_undeclared decl
    simp only [Nodes.not_undeclared_func, false_or, header, List.mem_append, or_and_right,
      exists_or]
    exact or_congr_right (or_iff_left hnone)
  rw [hslot, hfree]

/-- In a file no statement declares the variables behind parameters and results, and some statement
every other variable. -/
theorem slotsApart_earlyNodes (fs : List Func) (o : Extent) (functions : List (String × DeclId)) :
    (earlyNodes o functions fs).SlotsApart o := by
  induction fs generalizing o functions with
  | nil =>
      intro decl
      simp [earlyNodes, Nodes.IsSlot, Nodes.Undeclared]
  | cons f fs ih =>
      refine (Func.slotsApart_nodes f o).append (nodewise_exact.funcNodes f o)
        (nodewise_exact.earlyNodes fs _ _) (ih _ _) ?_
      simp [Extent.SameNodes, Func.count_nodes]

end Syntax

/-! ### Exact lists of files -/

namespace Draft

open Syntax

variable {d : Draft} {fs : List Func}

/-- The declarations of a file that was read. -/
theorem IsReading.declaration?_iff (h : d.IsReading fs) {decl : DeclId} {x : Declaration} :
    d.program.declaration? decl = some x ↔ Program.initial.declaration? decl = some x ∨
      (earlyNodes start [] fs).declaration? start decl = some x := by
  obtain ⟨scopes, noted, -, -, rfl⟩ := h
  exact declaration?_add (d := initial)

/-- The expressions of a file that was read. -/
theorem IsReading.expression?_iff (h : d.IsReading fs) {id : ExprId} {e : Expression} :
    d.program.expression? id = some e ↔
      (earlyNodes start [] fs).expression? start id = some e := by
  obtain ⟨scopes, noted, -, -, rfl⟩ := h
  have hinitial : Program.initial.expression? id ≠ some e := by
    simp [Program.expression?, Program.initial]
  exact (expression?_add (d := initial)).trans (or_iff_right hinitial)

/-- The statements of a file that was read. -/
theorem IsReading.statement?_iff (h : d.IsReading fs) {id : StmtId} {s : Statement} :
    d.program.statement? id = some s ↔
      (earlyNodes start [] fs).statement? start id = some s := by
  obtain ⟨scopes, noted, -, -, rfl⟩ := h
  have hinitial : Program.initial.statement? id ≠ some s := by
    simp [Program.statement?, Program.initial]
  exact (statement?_add (d := initial)).trans (or_iff_right hinitial)

/-- The variables of a file that was read. -/
theorem IsReading.variable?_iff (h : d.IsReading fs) {decl : DeclId} {v : Variable} :
    d.program.declaration? decl = some (.var v) ↔
      (earlyNodes start [] fs).declaration? start decl = some (.var v) := by
  refine h.declaration?_iff.trans (or_iff_right fun hinitial => ?_)
  obtain ⟨t, ht⟩ := Program.Realizes.initial_declaration? hinitial
  cases ht

/-- The functions of a file that was read. -/
theorem IsReading.function?_iff (h : d.IsReading fs) {decl : DeclId} {f : Function} :
    d.program.declaration? decl = some (.func f) ↔
      (earlyNodes start [] fs).declaration? start decl = some (.func f) := by
  refine h.declaration?_iff.trans (or_iff_right fun hinitial => ?_)
  obtain ⟨t, ht⟩ := Program.Realizes.initial_declaration? hinitial
  cases ht

theorem IsReading.deferred (h : d.IsReading fs) :
    d.deferred = (earlyNodes start [] fs).deferred := by
  obtain ⟨scopes, noted, -, -, rfl⟩ := h
  exact Deferred.empty_append _

/-- **The lists that a file comes with are exact.** -/
theorem IsReading.listsExactly (h : d.IsReading fs) : d.program.ListsExactly d.deferred := by
  have hexact := nodewise_exact.earlyNodes fs start []
  have hslots := slotsApart_earlyNodes fs start []
  have hdeclares : ∀ id decl, d.program.Declares id decl ↔
      (earlyNodes start [] fs).Declares start id decl := by
    intro id decl
    simp only [Program.Declares, Nodes.Declares, h.statement?_iff]
  have htypes : ∀ decl, d.program.TypePending decl ↔
      (earlyNodes start [] fs).TypePending start decl := by
    intro decl
    simp only [Program.TypePending, Nodes.TypePending, h.variable?_iff]
  have hnames : ∀ id, d.program.NamePending id ↔
      (earlyNodes start [] fs).NamePending start id := by
    intro id
    simp only [Program.NamePending, Nodes.NamePending, h.expression?_iff]
  have htargets : ∀ id, d.program.TargetPending id ↔
      (earlyNodes start [] fs).TargetPending start id := by
    intro id
    simp only [Program.TargetPending, Nodes.TargetPending, h.statement?_iff]
  have hslot : ∀ decl, d.program.IsSlot decl ↔
      (earlyNodes start [] fs).Undeclared start decl := by
    intro decl
    rw [← hslots decl]
    simp only [Program.IsSlot, Nodes.IsSlot, h.function?_iff]
  rw [h.deferred]
  refine ⟨hexact.identifiersSorted, ?_, hexact.statementsSorted, ?_, hexact.fieldsSorted, ?_, ?_⟩
  · intro id
    rw [hnames, hexact.identifiers]
  · intro id
    simp only [htargets, hdeclares, htypes, hexact.statements]
  · intro decl
    rw [hslot, htypes, hexact.fields]
    constructor
    · rintro ⟨⟨v, hv, hpending⟩, hfree⟩
      exact ⟨⟨⟨v, hv⟩, hfree⟩, v, hv, hpending⟩
    · rintro ⟨⟨-, hfree⟩, htype⟩
      exact ⟨htype, hfree⟩
  · intro decl htype
    rw [htypes] at htype
    simp only [hdeclares, hexact.fields, hexact.statements]
    by_cases hfree : ∀ id, ¬ (earlyNodes start [] fs).Declares start id decl
    · exact .inl ⟨⟨htype, hfree⟩, hfree⟩
    · obtain ⟨id, hid⟩ := Classical.not_forall_not.1 hfree
      refine .inr ⟨fun hfields => hfree hfields.2, id, .inr ⟨decl, hid, htype⟩, hid, ?_⟩
      exact fun other hother => hexact.once other id decl hother hid

end Draft

/-- **Reading a file lists exactly its pending references**: names in order, then statements, then
parameters and results; and if all that is listed can be resolved, nothing is left pending. -/
theorem parseFile_listsExactly {tokens : List Token} {p : Program} {d : Deferred}
    (h : parseFile tokens = .ok (p, d)) :
    p.ListsExactly d ∧ ∀ q, Program.resolve d p = .ok () q → q.IsResolved := by
  obtain ⟨fs, -, -, hreading⟩ := isReading_of_parseFile h
  refine ⟨hreading.listsExactly, fun q hq => ?_⟩
  obtain ⟨hresolved, rfl⟩ := (Program.resolve_ok_iff hreading.lists).1 hq
  exact hresolved

/-- A file with pending references of all sorts: the types of a parameter, of a result and of a
variable, a changed variable, and a function that is called above its declaration. -/
def unknownNames : List Token :=
  tokensOf "func f(a Real) Real \x7b var b Real; c = 1; g(a); c++; \x7d func g(n Int) \x7b\x7d"

/-- Each of the lists can have entries, and what is listed can all be resolved. -/
theorem parseFile_listsExactly_unknownNames :
    (∃ p d, parseFile unknownNames = .ok (p, d) ∧
      d = ⟨[⟨4⟩, ⟨5⟩], [⟨1⟩], [⟨0⟩, ⟨1⟩, ⟨3⟩]⟩ ∧ p.ListsExactly d) ∧
    ∃ p d q, parseFile forwardCall = .ok (p, d) ∧ d ≠ {} ∧ Program.resolve d p = .ok () q ∧
      q.IsResolved := by
  have hlists : (parseFile unknownNames).toOption.map Prod.snd =
      some ⟨[⟨4⟩, ⟨5⟩], [⟨1⟩], [⟨0⟩, ⟨1⟩, ⟨3⟩]⟩ := by decide +kernel
  have hparse : (parse forwardCall).toOption.isSome = true := by decide +kernel
  have hcalls : (parseFile forwardCall).toOption.map Prod.snd ≠ some {} := by decide +kernel
  constructor
  · cases h : parseFile unknownNames with
    | error e => simp [h, Except.toOption] at hlists
    | ok r =>
        obtain ⟨p, d⟩ := r
        simp only [h, Except.toOption, Option.map_some, Option.some.injEq] at hlists
        exact ⟨p, d, rfl, hlists, (parseFile_listsExactly h).1⟩
  · obtain ⟨q, hq⟩ := Run.exists_of_isSome hparse
    cases h : parseFile forwardCall with
    | error e => simp [parse, h] at hq
    | ok r =>
        obtain ⟨p, d⟩ := r
        have hresolve := (parse_eq_ok_iff h).1 hq
        refine ⟨p, d, q, rfl, ?_, hresolve, (parseFile_listsExactly h).2 q hresolve⟩
        rintro rfl
        exact hcalls (by rw [h]; rfl)

end FrontEnd
