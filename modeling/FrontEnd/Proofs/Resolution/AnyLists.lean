/-
**Lists in any order.**

What resolution does to one reference depends on the scopes only, which no step changes.  So it
makes no difference in which order references are listed, how often they are, or whether the type of
a variable is listed by itself, too, when the statement that declares the variable is: the nodes
that are listed decide whether resolution succeeds, and what comes out.

Main definitions:

* `FrontEnd.Deferred.Alike` — lists of the same nodes;
* `FrontEnd.Program.ResolvedBy` — a program in which the pending references that are listed are
  resolved, and nothing else is changed.

Main results:

* `FrontEnd.Program.resolve_of_alike` — lists of the same nodes have the same outcome;
* `FrontEnd.Program.resolvedBy_of_resolve` — what comes out;
* `FrontEnd.Program.resolve_alike` — **neither order nor number of entries matters**.
-/

import FrontEnd.Proofs.Resolution.Worklists

set_option relaxedAutoImplicit false
set_option autoImplicit false

namespace FrontEnd

/-! ### Lists of the same nodes -/

namespace Deferred

/-- The lists are of the same nodes, in whatever order and however often. -/
structure Alike (d d' : Deferred) : Prop where
  fields : ∀ id, id ∈ d.fields ↔ id ∈ d'.fields
  identifiers : ∀ id, id ∈ d.identifiers ↔ id ∈ d'.identifiers
  statements : ∀ id, id ∈ d.statements ↔ id ∈ d'.statements

theorem Alike.symm {d d' : Deferred} (h : d.Alike d') : d'.Alike d :=
  ⟨fun id => (h.fields id).symm, fun id => (h.identifiers id).symm,
    fun id => (h.statements id).symm⟩

end Deferred

namespace Program

variable {p q q' : Program} {d d' : Deferred} {ds : List DeclId} {es : List ExprId}
  {ss : List StmtId} {id : StmtId} {decl : DeclId}

/-- The declaration is listed by itself, or with a statement that declares it. -/
def ListsDeclaration (p : Program) (d : Deferred) (decl : DeclId) : Prop :=
  decl ∈ d.fields ∨ ∃ id ∈ d.statements, p.Declares id decl

theorem mem_declaredBy_iff : decl ∈ p.declaredBy id ↔ p.Declares id decl := by
  unfold declaredBy Declares
  cases hs : p.statement? id with
  | none => simp
  | some s =>
      obtain ⟨form, place⟩ := s
      cases form <;> simp [eq_comm]

theorem mem_listed_iff :
    decl ∈ d.fields ++ d.statements.flatMap p.declaredBy ↔ p.ListsDeclaration d decl := by
  simp only [List.mem_append, List.mem_flatMap, mem_declaredBy_iff, ListsDeclaration]

/-- All that is listed is found, whichever lists of it there are. -/
theorem Found.of_alike (h : p.Found d) (halike : d.Alike d') : p.Found d' := by
  obtain ⟨hfields, hidentifiers, hstatements⟩ := h
  exact ⟨fun decl hdecl => hfields decl ((halike.fields decl).2 hdecl),
    fun id hid => hidentifiers id ((halike.identifiers id).2 hid),
    fun id hid => hstatements id ((halike.statements id).2 hid)⟩

/-- The nodes that are settled determine the program that comes out. -/
theorem SettledOn.unique (h : SettledOn p ds es ss q) (h' : SettledOn p ds es ss q') : q = q' :=
  ext_nodes (fun id => by rw [h.declaration, h'.declaration])
    (fun id => by rw [h.expression, h'.expression])
    (fun id => by rw [h.statement, h'.statement])
    (h.scopes.trans h'.scopes.symm) (h.topLevel.trans h'.topLevel.symm)

/-- **Lists of the same nodes have the same outcome.** -/
theorem resolve_of_alike (halike : d.Alike d') (hok : resolve d p = .ok () q) :
    resolve d' p = .ok () q := by
  obtain ⟨hfound, hsettled⟩ := (resolve_meets p d).of_ok hok
  obtain ⟨u, q', hok'⟩ := (resolve_meets p d').exists_ok (hfound.of_alike halike)
  have hsettled' := ((resolve_meets p d').of_ok hok').2
  have hlisted : ∀ decl, decl ∈ d.fields ++ d.statements.flatMap p.declaredBy ↔
      decl ∈ d'.fields ++ d'.statements.flatMap p.declaredBy := by
    intro decl
    simp only [mem_listed_iff, ListsDeclaration, halike.fields, halike.statements]
  have hsame := hsettled.congr hlisted halike.identifiers halike.statements
  rw [hsame.unique hsettled', hok']

/-! ### What comes out -/

/-- The program `q` is `p` with the listed references resolved that were pending, each to what its
name stands for in the scope in which it was written, and all else is as it was. -/
structure ResolvedBy (p : Program) (d : Deferred) (q : Program) : Prop where
  scopes : q.scopes = p.scopes
  topLevel : q.topLevel = p.topLevel
  /-- The name of a type stands for a type. -/
  type : ∀ decl v name scope place, p.ListsDeclaration d decl →
    p.declaration? decl = some (.var v) → v.type = .pending name scope place →
    ∃ entry, p.scopes.search scope .type name = some entry ∧
      q.declaration? decl = some (.var { v with type := .resolved entry.declaration })
  /-- A name in an expression stands for a variable, or else for a function. -/
  value : ∀ id ∈ d.identifiers, ∀ e text name scope place, p.expression? id = some e →
    e.form = .identifier text (.pending name scope place) →
    ∃ entry, (p.scopes.search scope .var name).or (p.scopes.search scope .func name) = some entry ∧
      q.expression? id = some { e with form := .identifier text (.resolved entry.declaration) }
  /-- What a statement changes is a variable. -/
  target : ∀ id ∈ d.statements, ∀ s change name scope place, p.statement? id = some s →
    s.form = .change (.pending name scope place) change →
    ∃ entry, p.scopes.search scope .var name = some entry ∧
      q.statement? id = some { s with form := .change (.resolved entry.declaration) change }
  otherDeclaration : ∀ decl, ¬ (p.ListsDeclaration d decl ∧ p.TypePending decl) →
    q.declaration? decl = p.declaration? decl
  otherExpression : ∀ id, ¬ (id ∈ d.identifiers ∧ p.NamePending id) →
    q.expression? id = p.expression? id
  otherStatement : ∀ id, ¬ (id ∈ d.statements ∧ p.TargetPending id) →
    q.statement? id = p.statement? id

/-- A pending reference that is found is resolved when it is settled. -/
theorem exists_of_settle_pending {find : ScopeId → String → Option DeclId} {name : String}
    {scope : ScopeId} {place : Position}
    (h : ((Reference.pending name scope place).settle find).isPending = false) :
    ∃ found, find scope name = some found ∧
      (Reference.pending name scope place).settle find = .resolved found := by
  rw [Reference.settle] at h ⊢
  cases hfind : find scope name with
  | none =>
      rw [hfind] at h
      cases h
  | some found => exact ⟨found, rfl, rfl⟩

theorem findValue?_eq (p : Program) (scope : ScopeId) (name : String) :
    p.findValue? scope name = ((p.scopes.search scope .var name).or
      (p.scopes.search scope .func name)).map Entry.declaration := by
  unfold findValue? findVariable?
  cases p.scopes.search scope .var name <;> rfl

/-- What has no pending type stays as it is when it is settled. -/
theorem map_settle_declaration (h : ¬ p.TypePending decl) :
    (p.declaration? decl).map (Declaration.settle p.findType?) = p.declaration? decl := by
  cases hd : p.declaration? decl with
  | none => rfl
  | some x =>
      cases x with
      | var v =>
          have hv : v.type.isPending = false := Bool.eq_false_iff.2 fun hv => h ⟨v, hd, hv⟩
          simp [Declaration.settle, hv]
      | _ => rfl

/-- What is no pending name stays as it is when it is settled. -/
theorem map_settle_expression {id : ExprId} (h : ¬ p.NamePending id) :
    (p.expression? id).map (Expression.settle p.findValue?) = p.expression? id := by
  cases he : p.expression? id with
  | none => rfl
  | some e =>
      obtain ⟨form, place, types?⟩ := e
      cases form with
      | identifier text ref =>
          have hv : ref.isPending = false := Bool.eq_false_iff.2 fun hv => h ⟨_, ref, he, rfl, hv⟩
          simp [Expression.settle, hv]
      | _ => rfl

/-- What changes no pending variable stays as it is when it is settled. -/
theorem map_settle_statement (h : ¬ p.TargetPending id) :
    (p.statement? id).map (Statement.settle p.findVariable?) = p.statement? id := by
  cases hs : p.statement? id with
  | none => rfl
  | some s =>
      obtain ⟨form, place⟩ := s
      cases form with
      | change ref change =>
          have hv : ref.isPending = false := Bool.eq_false_iff.2 fun hv => h ⟨_, ref, hs, rfl, hv⟩
          simp [Statement.settle, hv]
      | _ => rfl

/-- The type of a listed variable is found. -/
theorem Found.typeFound (h : p.Found d) (hlists : p.ListsDeclaration d decl) :
    p.TypeFound decl := by
  rcases hlists with hmem | ⟨id, hid, hdeclares⟩
  · exact h.1 decl hmem
  · exact typeFound_of_declaredBy (h.2.2 id hid) (mem_declaredBy_iff.2 hdeclares)

/-- **What comes out of resolution**: what is listed and was pending is resolved. -/
theorem resolvedBy_of_resolve (hok : resolve d p = .ok () q) : p.ResolvedBy d q := by
  obtain ⟨hfound, hsettled⟩ := (resolve_meets p d).of_ok hok
  refine ⟨hsettled.scopes, hsettled.topLevel, ?_, ?_, ?_, ?_, ?_, ?_⟩
  · intro decl v name scope place hlists hv htype
    obtain ⟨v', hv', hsettles⟩ := hfound.typeFound hlists
    obtain rfl : v = v' := by simpa [hv] using hv'
    rw [htype] at hsettles
    obtain ⟨found, hfind, hsettle⟩ := exists_of_settle_pending hsettles
    obtain ⟨entry, hentry, rfl⟩ := Option.map_eq_some_iff.1 hfind
    refine ⟨entry, hentry, ?_⟩
    rw [hsettled.declaration, if_pos (mem_listed_iff.2 hlists), hv, Option.map_some,
      Declaration.settle, htype, hsettle]
  · intro id hid e text name scope place he hform
    have href : (p.expression? id).bind Expression.reference? =
        some (.pending name scope place) := by simp [he, Expression.reference?, hform]
    obtain ⟨found, hfind, hsettle⟩ := exists_of_settle_pending (hfound.2.1 id hid _ href)
    rw [findValue?_eq] at hfind
    obtain ⟨entry, hentry, rfl⟩ := Option.map_eq_some_iff.1 hfind
    refine ⟨entry, hentry, ?_⟩
    rw [hsettled.expression, if_pos hid, he, Option.map_some, Expression.settle]
    simp only [hform, hsettle]
  · intro id hid s change name scope place hs hform
    have href : s.target? = some (.pending name scope place) := by
      simp [Statement.target?, hform]
    obtain ⟨found, hfind, hsettle⟩ :=
      exists_of_settle_pending ((hfound.2.2 id hid s hs).2 _ href)
    obtain ⟨entry, hentry, rfl⟩ := Option.map_eq_some_iff.1 hfind
    refine ⟨entry, hentry, ?_⟩
    rw [hsettled.statement, if_pos hid, hs, Option.map_some, Statement.settle]
    simp only [hform, hsettle]
  · intro decl hno
    rw [hsettled.declaration]
    split
    · next hmem => exact map_settle_declaration fun hv => hno ⟨mem_listed_iff.1 hmem, hv⟩
    · rfl
  · intro id hno
    rw [hsettled.expression]
    split
    · next hmem => exact map_settle_expression fun hv => hno ⟨hmem, hv⟩
    · rfl
  · intro id hno
    rw [hsettled.statement]
    split
    · next hmem => exact map_settle_statement fun hv => hno ⟨hmem, hv⟩
    · rfl

/-- **Neither order nor number of entries matters.**  Resolution with lists of the same nodes has
the same outcome: it succeeds exactly if all that is listed is found, and then the listed references
that were pending are resolved and all else is as it was. -/
theorem resolve_alike (p : Program) (halike : d.Alike d') :
    (∀ q, resolve d p = .ok () q ↔ resolve d' p = .ok () q) ∧
      ((∃ q, resolve d p = .ok () q) ↔ p.Found d) ∧
      ∀ q, resolve d p = .ok () q → p.ResolvedBy d q := by
  refine ⟨fun q => ⟨resolve_of_alike halike, resolve_of_alike halike.symm⟩, ⟨?_, ?_⟩,
    fun q => resolvedBy_of_resolve⟩
  · rintro ⟨q, hok⟩
    exact ((resolve_meets p d).of_ok hok).1
  · intro hfound
    obtain ⟨u, q, hok⟩ := (resolve_meets p d).exists_ok hfound
    exact ⟨q, hok⟩

/-- A variable of a type that is declared late, with statements that declare and change it, and two
expressions, one of which is no name. -/
def lateType : Program := { initial with
  declarations := initial.declarations ++
    #[.var ⟨some "x", ⟨0, 4⟩, .pending "Meters" .file ⟨0, 6⟩⟩, .type ⟨"Meters", some ⟨3, 5⟩, .int⟩]
  expressions := #[⟨.identifier "x" (.pending "x" .file ⟨2, 7⟩), ⟨2, 7⟩, none⟩,
    ⟨.bool true, ⟨2, 10⟩, none⟩]
  statements := #[⟨.declare ⟨4⟩, ⟨0, 0⟩⟩, ⟨.change (.pending "x" .file ⟨1, 0⟩) .increment, ⟨1, 0⟩⟩,
    ⟨.result [⟨0⟩, ⟨1⟩], ⟨2, 0⟩⟩]
  scopes := ⟨#[ScopeTree.builtInScope, { kind := .file, parent? := some .builtIn, bindings :=
    [⟨.type, "Meters", ⟨⟨5⟩, some ⟨3, 5⟩⟩⟩, ⟨.var, "x", ⟨⟨4⟩, some ⟨0, 4⟩⟩⟩] }], rfl⟩ }

/-- The variable is listed twice, once with its statement; what is listed otherwise comes in another
order, too, and more often. -/
theorem resolve_alike_lateType :
    Deferred.Alike ⟨[⟨4⟩], [⟨0⟩, ⟨1⟩], [⟨0⟩, ⟨1⟩, ⟨2⟩]⟩
      ⟨[⟨4⟩, ⟨4⟩], [⟨1⟩, ⟨0⟩, ⟨1⟩], [⟨2⟩, ⟨1⟩, ⟨0⟩, ⟨1⟩]⟩ ∧
    ∃ q, resolve ⟨[⟨4⟩], [⟨0⟩, ⟨1⟩], [⟨0⟩, ⟨1⟩, ⟨2⟩]⟩ lateType = .ok () q ∧
      resolve ⟨[⟨4⟩, ⟨4⟩], [⟨1⟩, ⟨0⟩, ⟨1⟩], [⟨2⟩, ⟨1⟩, ⟨0⟩, ⟨1⟩]⟩ lateType = .ok () q ∧
      q.declaration? ⟨4⟩ = some (.var ⟨some "x", ⟨0, 4⟩, .resolved ⟨5⟩⟩) ∧ q ≠ lateType := by
  have halike : Deferred.Alike ⟨[⟨4⟩], [⟨0⟩, ⟨1⟩], [⟨0⟩, ⟨1⟩, ⟨2⟩]⟩
      ⟨[⟨4⟩, ⟨4⟩], [⟨1⟩, ⟨0⟩, ⟨1⟩], [⟨2⟩, ⟨1⟩, ⟨0⟩, ⟨1⟩]⟩ := by
    refine ⟨fun id => ?_, fun id => ?_, fun id => ?_⟩ <;>
      · simp only [List.mem_cons, List.not_mem_nil]
        grind
  obtain ⟨hsame, -, -⟩ := resolve_alike lateType halike
  exact ⟨halike, _, rfl, (hsame _).1 rfl, rfl, by decide⟩

end Program

end FrontEnd
