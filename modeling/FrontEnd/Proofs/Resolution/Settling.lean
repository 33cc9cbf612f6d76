/-
**Resolution settles references.**

To settle a reference is to look its name up in its scope; what is found takes the place of a
pending reference, and if nothing is found it stays.  Resolution settles the references in its
lists, one after the other.  No step changes a scope, so it makes no difference in which order they
come or how often one of them is listed, and resolution succeeds exactly if nothing that is listed
stays pending.

Main definitions:

* `FrontEnd.Reference.settle`, `FrontEnd.Program.settled` — references and programs with everything
  settled;
* `FrontEnd.Program.SettledOn` — a program in which some nodes are settled;
* `FrontEnd.Program.Lists` — lists that hold all pending references of a program;
* `FrontEnd.Program.IsResolved` — programs without pending references.

Main results:

* `FrontEnd.Program.resolve_meets` — what resolution does with any lists;
* `FrontEnd.Program.resolve_ok_iff` — what it does with lists of all pending references.
-/

import FrontEnd.Proofs.Run

set_option relaxedAutoImplicit false
set_option autoImplicit false

namespace FrontEnd

open Run

/-! ### Settling -/

/-- The reference after its name was looked up. -/
def Reference.settle (find : ScopeId → String → Option DeclId) : Reference → Reference
  | resolved id => resolved id
  | pending name scope place => ofFound (find scope name) name scope place

/-- The declaration with the type of its variable settled. -/
def Declaration.settle (find : ScopeId → String → Option DeclId) : Declaration → Declaration
  | var v => var { v with type := v.type.settle find }
  | other => other

def Expression.settle (find : ScopeId → String → Option DeclId) (e : Expression) : Expression :=
  match e.form with
  | .identifier name ref => { e with form := .identifier name (ref.settle find) }
  | _ => e

def Statement.settle (find : ScopeId → String → Option DeclId) (s : Statement) : Statement :=
  match s.form with
  | .change target change => { s with form := .change (target.settle find) change }
  | _ => s

@[simp] theorem Reference.settle_resolved (find : ScopeId → String → Option DeclId) (id : DeclId) :
    (resolved id).settle find = resolved id := rfl

/-- Looking a name up a second time finds nothing new. -/
@[simp] theorem Reference.settle_settle (find : ScopeId → String → Option DeclId)
    (ref : Reference) : (ref.settle find).settle find = ref.settle find := by
  cases ref with
  | resolved id => rfl
  | pending name scope place =>
      cases hfind : find scope name with
      | none => simp [settle, hfind]
      | some id => simp [settle, hfind]

@[simp] theorem Reference.settle_of_not_pending {find : ScopeId → String → Option DeclId}
    {ref : Reference} (h : ref.isPending = false) : ref.settle find = ref := by
  cases ref with
  | resolved id => rfl
  | pending name scope place => cases h

/-- A settled reference is not pending if its name is found whenever it was pending before. -/
theorem Reference.isPending_settle {find : ScopeId → String → Option DeclId} {ref : Reference}
    (h : ref.isPending = true → (ref.settle find).isPending = false) :
    (ref.settle find).isPending = false := by
  cases ref with
  | resolved id => rfl
  | pending name scope place => exact h rfl

@[simp] theorem Declaration.settle_settle (find : ScopeId → String → Option DeclId)
    (d : Declaration) : (d.settle find).settle find = d.settle find := by
  cases d <;> simp [settle]

@[simp] theorem Expression.settle_settle (find : ScopeId → String → Option DeclId)
    (e : Expression) : (e.settle find).settle find = e.settle find := by
  obtain ⟨form, place, types?⟩ := e
  cases form <;> simp [settle]

@[simp] theorem Statement.settle_settle (find : ScopeId → String → Option DeclId)
    (s : Statement) : (s.settle find).settle find = s.settle find := by
  obtain ⟨form, place⟩ := s
  cases form <;> simp [settle]

namespace Program

/-- The program with all its references settled. -/
def settled (p : Program) : Program := { p with
  declarations := p.declarations.map (Declaration.settle p.findType?)
  expressions := p.expressions.map (Expression.settle p.findValue?)
  statements := p.statements.map (Statement.settle p.findVariable?) }

/-- The program `q` is `p` with the given nodes settled and all else as it was. -/
structure SettledOn (p : Program) (ds : List DeclId) (es : List ExprId) (ss : List StmtId)
    (q : Program) : Prop where
  scopes : q.scopes = p.scopes
  topLevel : q.topLevel = p.topLevel
  declaration : ∀ id, q.declaration? id =
    if id ∈ ds then (p.declaration? id).map (Declaration.settle p.findType?) else p.declaration? id
  expression : ∀ id, q.expression? id =
    if id ∈ es then (p.expression? id).map (Expression.settle p.findValue?) else p.expression? id
  statement : ∀ id, q.statement? id =
    if id ∈ ss then (p.statement? id).map (Statement.settle p.findVariable?) else p.statement? id

variable {p q : Program} {ds : List DeclId} {es : List ExprId} {ss : List StmtId}

theorem SettledOn.refl (p : Program) : SettledOn p [] [] [] p :=
  ⟨rfl, rfl, fun _ => rfl, fun _ => rfl, fun _ => rfl⟩

theorem SettledOn.findType? (h : SettledOn p ds es ss q) : q.findType? = p.findType? := by
  unfold Program.findType?
  rw [h.scopes]

theorem SettledOn.findVariable? (h : SettledOn p ds es ss q) :
    q.findVariable? = p.findVariable? := by
  unfold Program.findVariable?
  rw [h.scopes]

theorem SettledOn.findValue? (h : SettledOn p ds es ss q) : q.findValue? = p.findValue? := by
  unfold Program.findValue?
  rw [h.findVariable?, h.scopes]

/-- A declaration is settled in place of what it was. -/
theorem SettledOn.settleDeclaration (h : SettledOn p ds es ss q) {id : DeclId}
    {q' : Program} (hq' : q' = q.modifyDeclaration id (Declaration.settle p.findType?)) :
    SettledOn p (id :: ds) es ss q' := by
  subst hq'
  refine ⟨h.scopes, h.topLevel, fun other => ?_, h.expression, h.statement⟩
  rw [declaration?_modifyDeclaration, h.declaration]
  by_cases hid : id = other
  · subst hid
    by_cases hmem : id ∈ ds
    · simp [hmem, Option.map_map, Function.comp_def]
    · simp [hmem]
  · have hother : other ≠ id := Ne.symm hid
    simp [hid, hother]

/-- An expression is settled in place of what it was. -/
theorem SettledOn.settleExpression (h : SettledOn p ds es ss q) {id : ExprId}
    {q' : Program} (hq' : q' = q.modifyExpression id (Expression.settle p.findValue?)) :
    SettledOn p ds (id :: es) ss q' := by
  subst hq'
  refine ⟨h.scopes, h.topLevel, h.declaration, fun other => ?_, h.statement⟩
  rw [expression?_modifyExpression, h.expression]
  by_cases hid : id = other
  · subst hid
    by_cases hmem : id ∈ es
    · simp [hmem, Option.map_map, Function.comp_def]
    · simp [hmem]
  · have hother : other ≠ id := Ne.symm hid
    simp [hid, hother]

/-- A statement is settled in place of what it was. -/
theorem SettledOn.settleStatement (h : SettledOn p ds es ss q) {id : StmtId}
    {q' : Program} (hq' : q' = q.modifyStatement id (Statement.settle p.findVariable?)) :
    SettledOn p ds es (id :: ss) q' := by
  subst hq'
  refine ⟨h.scopes, h.topLevel, h.declaration, h.expression, fun other => ?_⟩
  rw [statement?_modifyStatement, h.statement]
  by_cases hid : id = other
  · subst hid
    by_cases hmem : id ∈ ss
    · simp [hmem, Option.map_map, Function.comp_def]
    · simp [hmem]
  · have hother : other ≠ id := Ne.symm hid
    simp [hid, hother]

/-! ### Single steps -/

/-- The declaration is a variable whose type is found. -/
def TypeFound (p : Program) (id : DeclId) : Prop :=
  ∃ v, p.declaration? id = some (.var v) ∧ (v.type.settle p.findType?).isPending = false

/-- What the expression names, if anything, is found. -/
def ValueFound (p : Program) (id : ExprId) : Prop :=
  ∀ ref, (p.expression? id).bind Expression.reference? = some ref →
    (ref.settle p.findValue?).isPending = false

/-- What the statement refers to, if anything, is found: the type of the variable that it declares,
or the variable that it changes. -/
def TargetFound (p : Program) (id : StmtId) : Prop :=
  ∀ s, p.statement? id = some s →
    (∀ decl, s.form = .declare decl → TypeFound p decl) ∧
      ∀ ref, s.target? = some ref → (ref.settle p.findVariable?).isPending = false

/-- The variable that a statement declares, if there is one. -/
def declaredBy (p : Program) (id : StmtId) : List DeclId :=
  match (p.statement? id).map Statement.form with
  | some (.declare decl) => [decl]
  | _ => []

theorem modify_congr {α : Type} {xs : Array α} {i : Nat} {f g : α → α}
    (h : ∀ x, xs[i]? = some x → f x = g x) : xs.modify i f = xs.modify i g := by
  apply Array.ext_getElem?
  intro j
  rw [Array.getElem?_modify, Array.getElem?_modify]
  by_cases hij : i = j
  · subst hij
    cases hx : xs[i]? with
    | none => rfl
    | some x => simp [h x hx]
  · rw [if_neg hij, if_neg hij]

theorem modify_eq_self {α : Type} {xs : Array α} {i : Nat} {f : α → α}
    (h : ∀ x, xs[i]? = some x → f x = x) : xs.modify i f = xs := by
  apply Array.ext_getElem?
  intro j
  rw [Array.getElem?_modify]
  by_cases hij : i = j
  · subst hij
    cases hx : xs[i]? with
    | none => simp
    | some x => simp [h x hx]
  · rw [if_neg hij]

theorem modifyStatement_eq_self {p : Program} {id : StmtId} {change : Statement → Statement}
    (h : ∀ s, p.statement? id = some s → change s = s) : p.modifyStatement id change = p := by
  unfold modifyStatement
  rw [modify_eq_self h]

/-- Resolving the type of a variable settles its declaration. -/
theorem resolveType_meets (p : Program) (decl : DeclId) :
    Meets (resolveType decl) p (TypeFound p decl) fun _ q =>
      q = p.modifyDeclaration decl (Declaration.settle p.findType?) := by
  unfold TypeFound
  cases hd : p.declaration? decl with
  | none =>
      have hrun : ∀ u q, resolveType decl p ≠ .ok u q := by simp [resolveType, hd]
      exact .fails hrun (by simp)
  | some d =>
      cases d with
      | type t =>
          have hrun : ∀ u q, resolveType decl p ≠ .ok u q := by simp [resolveType, hd]
          exact .fails hrun (by simp)
      | func f =>
          have hrun : ∀ u q, resolveType decl p ≠ .ok u q := by simp [resolveType, hd]
          exact .fails hrun (by simp)
      | var v =>
          obtain ⟨name?, position, ref⟩ := v
          cases ref with
          -- what is resolved stays, what is pending is looked up once
          | resolved type =>
              have hrun : resolveType decl p = .ok () p := by simp only [resolveType, hd]
              have hsame : p.modifyDeclaration decl (Declaration.settle p.findType?) = p := by
                unfold modifyDeclaration
                rw [modify_eq_self]
                intro d hd'
                obtain rfl := Option.some.inj (hd.symm.trans hd')
                rfl
              exact .succeeds hrun ⟨_, rfl, rfl⟩ hsame.symm
          | pending name scope place =>
              cases hfind : p.findType? scope name with
              | none =>
                  have hrun : ∀ u q, resolveType decl p ≠ .ok u q := by
                    simp [resolveType, hd, hfind, found]
                  exact .fails hrun (by simp [Reference.settle, hfind])
              | some type =>
                  have hrun : resolveType decl p = .ok () (p.setType decl (.resolved type)) := by
                    simp only [resolveType, hd, hfind, found]
                  have hsame : p.setType decl (.resolved type) =
                      p.modifyDeclaration decl (Declaration.settle p.findType?) := by
                    unfold setType modifyDeclaration
                    rw [modify_congr]
                    intro d hd'
                    obtain rfl := Option.some.inj (hd.symm.trans hd')
                    simp [Declaration.settle, Reference.settle, hfind]
                  exact .succeeds hrun ⟨_, rfl, by simp [Reference.settle, hfind]⟩ hsame

/-- Resolving an identifier settles its expression. -/
theorem resolveIdentifier_meets (p : Program) (expr : ExprId) :
    Meets (resolveIdentifier expr) p (ValueFound p expr) fun _ q =>
      q = p.modifyExpression expr (Expression.settle p.findValue?) := by
  have hself : (∀ e, p.expression? expr = some e → e.settle p.findValue? = e) →
      p = p.modifyExpression expr (Expression.settle p.findValue?) := by
    intro h
    unfold modifyExpression
    rw [modify_eq_self h]
  unfold ValueFound
  cases he : p.expression? expr with
  | none =>
      have hrun : resolveIdentifier expr p = .ok () p := by simp [resolveIdentifier, he]
      exact .succeeds hrun (by simp) (hself (by simp [he]))
  | some e =>
      cases href : e.reference? with
      | none =>
          have hrun : resolveIdentifier expr p = .ok () p := by simp [resolveIdentifier, he, href]
          refine .succeeds hrun (by simp [href]) (hself ?_)
          intro e' he'
          obtain rfl := Option.some.inj (he.symm.trans he')
          obtain ⟨form, place, types?⟩ := e
          cases form with
          | identifier name ref => simp [Expression.reference?] at href
          | _ => rfl
      | some ref =>
          obtain ⟨name, hform⟩ : ∃ name, e.form = .identifier name ref := by
            obtain ⟨form, place, types?⟩ := e
            cases form <;> simp [Expression.reference?] at href
            exact ⟨_, by rw [href]⟩
          cases ref with
          | resolved id =>
              have hrun : resolveIdentifier expr p = .ok () p := by
                simp [resolveIdentifier, he, href]
              refine .succeeds hrun (by simp [href]) (hself ?_)
              intro e' he'
              obtain rfl := Option.some.inj (he.symm.trans he')
              obtain ⟨form, place, types?⟩ := e
              cases hform
              rfl
          | pending name' scope place =>
              cases hfind : p.findValue? scope name' with
              | none =>
                  have hrun : ∀ u q, resolveIdentifier expr p ≠ .ok u q := by
                    simp [resolveIdentifier, he, href, hfind, found]
                  exact .fails hrun (by simp [href, Reference.settle, hfind])
              | some value =>
                  have hrun : resolveIdentifier expr p =
                      .ok () (p.modifyExpression expr (·.withReference (.resolved value))) := by
                    simp only [resolveIdentifier, he, href, Option.bind_some, hfind, found]
                  have hsame : p.modifyExpression expr (·.withReference (.resolved value)) =
                      p.modifyExpression expr (Expression.settle p.findValue?) := by
                    unfold modifyExpression
                    rw [modify_congr]
                    intro e' he'
                    obtain rfl := Option.some.inj (he.symm.trans he')
                    simp [Expression.settle, Expression.withReference, Reference.settle, hform,
                      hfind]
                  exact .succeeds hrun (by simp [href, Reference.settle, hfind]) hsame

/-- Resolving what a statement changes settles the statement. -/
theorem resolveTarget_meets (p : Program) {id : StmtId} {s : Statement}
    (hs : p.statement? id = some s) :
    Meets (resolveTarget id s) p
      (∀ ref, s.target? = some ref → (ref.settle p.findVariable?).isPending = false) fun _ q =>
        q = p.modifyStatement id (Statement.settle p.findVariable?) := by
  have hself : s.settle p.findVariable? = s →
      p = p.modifyStatement id (Statement.settle p.findVariable?) := by
    intro h
    rw [modifyStatement_eq_self]
    intro s' hs'
    obtain rfl := Option.some.inj (hs.symm.trans hs')
    exact h
  cases htarget : s.target? with
  | none =>
      have hrun : resolveTarget id s p = .ok () p := by simp [resolveTarget, htarget]
      refine .succeeds hrun (by simp) (hself ?_)
      obtain ⟨form, place⟩ := s
      cases form with
      | change ref change => simp [Statement.target?] at htarget
      | _ => rfl
  | some ref =>
      obtain ⟨change, hform⟩ : ∃ change, s.form = .change ref change := by
        obtain ⟨form, place⟩ := s
        cases form <;> simp [Statement.target?] at htarget
        exact ⟨_, by rw [htarget]⟩
      cases ref with
      | resolved target =>
          have hrun : resolveTarget id s p = .ok () p := by simp [resolveTarget, htarget]
          refine .succeeds hrun (by simp) (hself ?_)
          obtain ⟨form, place⟩ := s
          cases hform
          rfl
      | pending name scope place =>
          cases hfind : p.findVariable? scope name with
          | none =>
              have hrun : ∀ u q, resolveTarget id s p ≠ .ok u q := by
                simp [resolveTarget, htarget, hfind, found]
              exact .fails hrun (by simp [Reference.settle, hfind])
          | some value =>
              have hrun : resolveTarget id s p =
                  .ok () (p.modifyStatement id (·.withTarget (.resolved value))) := by
                simp only [resolveTarget, htarget, hfind, found]
              have hsame : p.modifyStatement id (·.withTarget (.resolved value)) =
                  p.modifyStatement id (Statement.settle p.findVariable?) := by
                unfold modifyStatement
                rw [modify_congr]
                intro s' hs'
                obtain rfl := Option.some.inj (hs.symm.trans hs')
                simp [Statement.settle, Statement.withTarget, Reference.settle, hform, hfind]
              exact .succeeds hrun (by simp [Reference.settle, hfind]) hsame

/-! ### Loops -/

/-- Whether the type of a variable is found does not depend on what was settled before. -/
theorem SettledOn.typeFound_iff (h : SettledOn p ds es ss q) (decl : DeclId) :
    TypeFound q decl ↔ TypeFound p decl := by
  unfold TypeFound
  rw [h.declaration, h.findType?]
  by_cases hmem : decl ∈ ds
  · rw [if_pos hmem]
    cases hd : p.declaration? decl with
    | none => simp
    | some d => cases d <;> simp [Declaration.settle]
  · rw [if_neg hmem]

/-- Whether a name is found does not depend on what was settled before. -/
theorem SettledOn.valueFound_iff (h : SettledOn p ds es ss q) (id : ExprId) :
    ValueFound q id ↔ ValueFound p id := by
  unfold ValueFound
  rw [h.expression, h.findValue?]
  by_cases hmem : id ∈ es
  · rw [if_pos hmem]
    cases he : p.expression? id with
    | none => simp
    | some e =>
        obtain ⟨form, place, types?⟩ := e
        cases form <;> simp [Expression.settle, Expression.reference?]
  · rw [if_neg hmem]

/-- A statement is still what it was, or it was settled before. -/
theorem SettledOn.exists_statement (h : SettledOn p ds es ss q) {id : StmtId} {s : Statement}
    (hs : p.statement? id = some s) :
    ∃ s', q.statement? id = some s' ∧ (s' = s ∨ s' = s.settle p.findVariable?) := by
  have hstatement := h.statement id
  by_cases hmem : id ∈ ss
  · exact ⟨s.settle p.findVariable?, by simpa [hs, hmem] using hstatement, .inr rfl⟩
  · exact ⟨s, by simpa [hs, hmem] using hstatement, .inl rfl⟩

/-- Resolving the declaration of a variable settles the variable. -/
theorem SettledOn.resolveDeclare_meets (h : SettledOn p ds es ss q) {id : StmtId} {s : Statement}
    {decl : DeclId} (hs : p.statement? id = some s) (hform : s.form = .declare decl) :
    Meets (resolveStatement id) q (TargetFound p id) fun _ q' =>
      SettledOn p (declaredBy p id ++ ds) es (id :: ss) q' := by
  obtain ⟨s', hq, hs'⟩ := h.exists_statement hs
  have hs'form : s'.form = .declare decl := by
    rcases hs' with rfl | rfl
    · exact hform
    · simp [Statement.settle, hform]
  have hrun : resolveStatement id q = resolveType decl q := by
    simp only [resolveStatement, hq, hs'form]
  have hfound : TypeFound q decl ↔ TargetFound p id := by
    have htarget : s.target? = none := by simp [Statement.target?, hform]
    rw [h.typeFound_iff]
    simp [TargetFound, hs, hform, htarget]
  have hmeets := resolveType_meets q decl
  rw [h.findType?] at hmeets
  refine ((hmeets.of_run hrun).imp hfound) fun hq' => ?_
  subst hq'
  -- the statement itself holds no reference, so settling it changes nothing
  have hself : (q.modifyDeclaration decl (Declaration.settle p.findType?)).modifyStatement
      id (Statement.settle p.findVariable?) =
      q.modifyDeclaration decl (Declaration.settle p.findType?) := by
    refine modifyStatement_eq_self fun s'' hs'' => ?_
    obtain rfl := Option.some.inj (hq.symm.trans hs'')
    obtain ⟨form, place⟩ := s'
    cases hs'form
    rfl
  have hboth := (h.settleDeclaration rfl).settleStatement hself.symm
  simpa [declaredBy, hs, hform] using hboth

/-- Resolving any other statement settles what it changes. -/
theorem SettledOn.resolveChange_meets (h : SettledOn p ds es ss q) {id : StmtId} {s : Statement}
    (hs : p.statement? id = some s) (hno : ∀ decl, s.form ≠ .declare decl) :
    Meets (resolveStatement id) q (TargetFound p id) fun _ q' =>
      SettledOn p (declaredBy p id ++ ds) es (id :: ss) q' := by
  obtain ⟨s', hq, hs'⟩ := h.exists_statement hs
  have hs'form : ∀ decl, s'.form ≠ .declare decl := by
    intro decl hdecl
    rcases hs' with rfl | rfl
    · exact hno decl hdecl
    · refine hno decl ?_
      obtain ⟨form, place⟩ := s
      cases form <;> simp_all [Statement.settle]
  have hrun : resolveStatement id q = resolveTarget id s' q := by
    obtain ⟨form, place⟩ := s'
    cases form with
    | declare decl => exact absurd rfl (hs'form decl)
    | _ => simp only [resolveStatement, hq]
  have hfound : (∀ ref, s'.target? = some ref →
      (ref.settle p.findVariable?).isPending = false) ↔ TargetFound p id := by
    rcases hs' with rfl | rfl
    · simp [TargetFound, hs, hno]
    · obtain ⟨form, place⟩ := s
      cases form <;> simp_all [TargetFound, Statement.settle, Statement.target?]
  have hmeets := resolveTarget_meets q hq
  rw [h.findVariable?] at hmeets
  refine ((hmeets.of_run hrun).imp hfound) fun hq' => ?_
  have hnone : declaredBy p id = [] := by
    obtain ⟨form, place⟩ := s
    cases form with
    | declare decl => exact absurd rfl (hno decl)
    | _ => simp [declaredBy, hs]
  rw [hnone]
  exact h.settleStatement hq'

/-- Resolving a statement settles it, and the variable that it declares. -/
theorem SettledOn.resolveStatement_meets (h : SettledOn p ds es ss q) (id : StmtId) :
    Meets (resolveStatement id) q (TargetFound p id) fun _ q' =>
      SettledOn p (declaredBy p id ++ ds) es (id :: ss) q' := by
  cases hs : p.statement? id with
  | none =>
      have hq : q.statement? id = none := by simpa [hs] using h.statement id
      have hrun : resolveStatement id q = .ok () q := by simp only [resolveStatement, hq]
      have hself : q.modifyStatement id (Statement.settle p.findVariable?) = q :=
        modifyStatement_eq_self (by simp [hq])
      refine .succeeds hrun (by simp [TargetFound, hs]) ?_
      simpa [declaredBy, hs] using h.settleStatement hself.symm
  | some s =>
      by_cases hdeclare : ∃ decl, s.form = .declare decl
      · obtain ⟨decl, hform⟩ := hdeclare
        exact h.resolveDeclare_meets hs hform
      · exact h.resolveChange_meets hs fun decl hform => hdeclare ⟨decl, hform⟩

/-! ### Resolution -/

/-- All that is listed is found. -/
def Found (p : Program) (d : Deferred) : Prop :=
  (∀ decl ∈ d.fields, TypeFound p decl) ∧ (∀ id ∈ d.identifiers, ValueFound p id) ∧
    ∀ id ∈ d.statements, TargetFound p id

/-- The nodes that are settled are told by their numbers, in any order. -/
theorem SettledOn.congr {ds' : List DeclId} {es' : List ExprId} {ss' : List StmtId}
    (h : SettledOn p ds es ss q) (hds : ∀ id, id ∈ ds ↔ id ∈ ds') (hes : ∀ id, id ∈ es ↔ id ∈ es')
    (hss : ∀ id, id ∈ ss ↔ id ∈ ss') : SettledOn p ds' es' ss' q where
  scopes := h.scopes
  topLevel := h.topLevel
  declaration id := by rw [h.declaration]; simp only [hds]
  expression id := by rw [h.expression]; simp only [hes]
  statement id := by rw [h.statement]; simp only [hss]

/-- **What resolution does**: it succeeds exactly if all that is listed is found, and settles the
listed nodes and the variables that listed statements declare. -/
theorem resolve_meets (p : Program) (d : Deferred) :
    Meets (resolve d) p (Found p d) fun _ q =>
      SettledOn p (d.fields ++ d.statements.flatMap (declaredBy p)) d.identifiers d.statements q := by
  -- each loop leaves settled what the loops before it have settled
  have hfields := Meets.forM (fun done q => SettledOn p done [] [] q)
    (fun decl done q h => ((resolveType_meets q decl).imp (h.typeFound_iff decl) fun hq' =>
      h.settleDeclaration (h.findType? ▸ hq'))) d.fields [] (SettledOn.refl p)
  refine (hfields.bind fun _ q₁ h₁ => ?_)
  have hidentifiers := Meets.forM (fun done q => SettledOn p (d.fields.reverse ++ []) done [] q)
    (fun id done q h => ((resolveIdentifier_meets q id).imp (h.valueFound_iff id) fun hq' =>
      h.settleExpression (h.findValue? ▸ hq'))) d.identifiers [] h₁
  refine (hidentifiers.bind fun _ q₂ h₂ => ?_)
  have hstatements := Meets.forM (fun done q => SettledOn p
    (done.flatMap (declaredBy p) ++ (d.fields.reverse ++ [])) (d.identifiers.reverse ++ []) done q)
    (fun id done q h => ((h.resolveStatement_meets id).imp Iff.rfl fun h' => by
      simpa using h')) d.statements [] (by simpa using h₂)
  refine hstatements.imp Iff.rfl fun h₃ => h₃.congr ?_ (by simp) (by simp)
  intro decl
  simp only [List.append_nil, List.mem_append, List.mem_flatMap, List.mem_reverse]
  exact or_comm

/-- The lists hold the places of all pending references in the program, and what they list has a
type to be found. -/
structure Lists (p : Program) (d : Deferred) : Prop where
  types : ∀ decl v, p.declaration? decl = some (.var v) → v.type.isPending = true →
    decl ∈ d.fields ∨ ∃ id ∈ d.statements, decl ∈ p.declaredBy id
  values : ∀ id ref, (p.expression? id).bind Expression.reference? = some ref →
    ref.isPending = true → id ∈ d.identifiers
  targets : ∀ id ref, (p.statement? id).bind Statement.target? = some ref →
    ref.isPending = true → id ∈ d.statements
  fields : ∀ decl ∈ d.fields, ∃ v, p.declaration? decl = some (.var v)
  declares : ∀ id ∈ d.statements, ∀ decl ∈ p.declaredBy id,
    ∃ v, p.declaration? decl = some (.var v)

/-- No reference of the program is pending. -/
structure IsResolved (p : Program) : Prop where
  types : ∀ decl v, p.declaration? decl = some (.var v) → v.type.isPending = false
  values : ∀ id ref, (p.expression? id).bind Expression.reference? = some ref →
    ref.isPending = false
  targets : ∀ id ref, (p.statement? id).bind Statement.target? = some ref → ref.isPending = false

theorem declaration?_settled (p : Program) (decl : DeclId) :
    p.settled.declaration? decl = (p.declaration? decl).map (Declaration.settle p.findType?) := by
  simp [declaration?, settled]

theorem expression?_settled (p : Program) (id : ExprId) :
    p.settled.expression? id = (p.expression? id).map (Expression.settle p.findValue?) := by
  simp [expression?, settled]

theorem statement?_settled (p : Program) (id : StmtId) :
    p.settled.statement? id = (p.statement? id).map (Statement.settle p.findVariable?) := by
  simp [statement?, settled]

/-- Programs with the same nodes are equal. -/
theorem ext_nodes (hd : ∀ id, p.declaration? id = q.declaration? id)
    (he : ∀ id, p.expression? id = q.expression? id) (hs : ∀ id, p.statement? id = q.statement? id)
    (hscopes : p.scopes = q.scopes) (htop : p.topLevel = q.topLevel) : p = q := by
  obtain ⟨ds, es, ss, scopes, top⟩ := p
  obtain ⟨ds', es', ss', scopes', top'⟩ := q
  obtain rfl : ds = ds' := Array.ext_getElem? fun i => hd ⟨i⟩
  obtain rfl : es = es' := Array.ext_getElem? fun i => he ⟨i⟩
  obtain rfl : ss = ss' := Array.ext_getElem? fun i => hs ⟨i⟩
  obtain rfl : scopes = scopes' := hscopes
  obtain rfl : top = top' := htop
  rfl

/-- What is not pending needs no settling. -/
theorem SettledOn.eq_settled {d : Deferred} (hlists : Lists p d)
    (h : SettledOn p (d.fields ++ d.statements.flatMap (declaredBy p)) d.identifiers d.statements
      q) : q = p.settled := by
  refine ext_nodes (fun decl => ?_) (fun id => ?_) (fun id => ?_) h.scopes h.topLevel
  · rw [h.declaration, declaration?_settled]
    by_cases hmem : decl ∈ d.fields ++ d.statements.flatMap (declaredBy p)
    · rw [if_pos hmem]
    · rw [if_neg hmem]
      -- a variable that is not listed has no pending type
      cases hd : p.declaration? decl with
      | none => rfl
      | some x =>
          cases x with
          | var v =>
              have hv : v.type.isPending = false := by
                refine Bool.eq_false_iff.2 fun hpending => hmem ?_
                simpa using hlists.types decl v hd hpending
              simp [Declaration.settle, hv]
          | _ => rfl
  · rw [h.expression, expression?_settled]
    by_cases hmem : id ∈ d.identifiers
    · rw [if_pos hmem]
    · rw [if_neg hmem]
      cases he : p.expression? id with
      | none => rfl
      | some e =>
          obtain ⟨form, place, types?⟩ := e
          cases form with
          | identifier name ref =>
              have hv : ref.isPending = false := by
                refine Bool.eq_false_iff.2 fun hpending => hmem ?_
                exact hlists.values id ref (by rw [he]; rfl) hpending
              simp [Expression.settle, hv]
          | _ => rfl
  · rw [h.statement, statement?_settled]
    by_cases hmem : id ∈ d.statements
    · rw [if_pos hmem]
    · rw [if_neg hmem]
      cases hs : p.statement? id with
      | none => rfl
      | some s =>
          obtain ⟨form, place⟩ := s
          cases form with
          | change ref change =>
              have hv : ref.isPending = false := by
                refine Bool.eq_false_iff.2 fun hpending => hmem ?_
                exact hlists.targets id ref (by rw [hs]; rfl) hpending
              simp [Statement.settle, hv]
          | _ => rfl

theorem typeFound_of_declaredBy {id : StmtId} {decl : DeclId} (h : TargetFound p id)
    (hdecl : decl ∈ p.declaredBy id) : TypeFound p decl := by
  unfold declaredBy at hdecl
  cases hs : p.statement? id with
  | none => simp [hs] at hdecl
  | some s =>
      obtain ⟨form, place⟩ := s
      cases form <;> simp [hs] at hdecl
      exact (h _ hs).1 decl (by rw [hdecl])

/-- A reference of the settled program is a settled one. -/
theorem reference?_settled {id : ExprId} {ref : Reference}
    (h : (p.settled.expression? id).bind Expression.reference? = some ref) :
    ∃ ref', (p.expression? id).bind Expression.reference? = some ref' ∧
      ref = ref'.settle p.findValue? := by
  rw [expression?_settled] at h
  cases he : p.expression? id with
  | none => simp [he] at h
  | some e =>
      obtain ⟨form, place, types?⟩ := e
      cases form <;> simp [he, Expression.settle, Expression.reference?] at h
      exact ⟨_, rfl, h.symm⟩

/-- A changed variable of the settled program is a settled one. -/
theorem target?_settled {id : StmtId} {ref : Reference}
    (h : (p.settled.statement? id).bind Statement.target? = some ref) :
    ∃ ref', (p.statement? id).bind Statement.target? = some ref' ∧
      ref = ref'.settle p.findVariable? := by
  rw [statement?_settled] at h
  cases hs : p.statement? id with
  | none => simp [hs] at h
  | some s =>
      obtain ⟨form, place⟩ := s
      cases form <;> simp [hs, Statement.settle, Statement.target?] at h
      exact ⟨_, rfl, h.symm⟩

/-- If all that is listed is found, no reference stays pending. -/
theorem Found.isResolved {d : Deferred} (h : Found p d) (hlists : Lists p d) :
    p.settled.IsResolved := by
  obtain ⟨hfields, hidentifiers, hstatements⟩ := h
  refine ⟨fun decl v hv => ?_, fun id ref href => ?_, fun id ref href => ?_⟩
  · rw [declaration?_settled] at hv
    obtain ⟨x, hx, hxv⟩ := Option.map_eq_some_iff.1 hv
    obtain ⟨w, rfl, rfl⟩ : ∃ w, x = .var w ∧ v = { w with type := w.type.settle p.findType? } := by
      cases x <;> simp [Declaration.settle] at hxv
      exact ⟨_, rfl, hxv.symm⟩
    refine Reference.isPending_settle fun hpending => ?_
    -- a type is listed by itself, or with the statement that declares the variable
    have hfound : TypeFound p decl := by
      rcases hlists.types decl w hx hpending with hmem | ⟨id, hid, hmem⟩
      · exact hfields decl hmem
      · exact typeFound_of_declaredBy (hstatements id hid) hmem
    obtain ⟨w', hw', hsettled⟩ := hfound
    rw [hx] at hw'
    cases hw'
    exact hsettled
  · obtain ⟨ref', href', rfl⟩ := reference?_settled href
    refine Reference.isPending_settle fun hpending => ?_
    exact hidentifiers id (hlists.values id ref' href' hpending) ref' href'
  · obtain ⟨ref', href', rfl⟩ := target?_settled href
    refine Reference.isPending_settle fun hpending => ?_
    obtain ⟨s, hs, hsref⟩ := Option.bind_eq_some_iff.1 href'
    exact (hstatements id (hlists.targets id ref' href' hpending) s hs).2 ref' hsref

/-- If no reference stays pending, all that is listed is found. -/
theorem IsResolved.found {d : Deferred} (h : p.settled.IsResolved) (hlists : Lists p d) :
    Found p d := by
  have hvar : ∀ decl, (∃ v, p.declaration? decl = some (.var v)) → TypeFound p decl := by
    rintro decl ⟨v, hv⟩
    refine ⟨v, hv, h.types decl { v with type := v.type.settle p.findType? } ?_⟩
    rw [declaration?_settled, hv]
    rfl
  refine ⟨fun decl hdecl => hvar decl (hlists.fields decl hdecl), ?_, ?_⟩
  · intro id _ ref href
    refine h.values id (ref.settle p.findValue?) ?_
    obtain ⟨e, he, heref⟩ := Option.bind_eq_some_iff.1 href
    rw [expression?_settled, he, Option.map_some, Option.bind_some]
    obtain ⟨form, place, types?⟩ := e
    cases form <;> simp_all [Expression.reference?, Expression.settle]
  · intro id hid s hs
    constructor
    · intro decl hdecl
      refine hvar decl (hlists.declares id hid decl ?_)
      simp [declaredBy, hs, hdecl]
    · intro ref href
      refine h.targets id (ref.settle p.findVariable?) ?_
      rw [statement?_settled, hs, Option.map_some, Option.bind_some]
      obtain ⟨form, place⟩ := s
      cases form <;> simp_all [Statement.target?, Statement.settle]

/-- All that is listed is found exactly if no reference stays pending. -/
theorem found_iff_isResolved {d : Deferred} (hlists : Lists p d) :
    Found p d ↔ p.settled.IsResolved :=
  ⟨fun h => h.isResolved hlists, fun h => h.found hlists⟩

/-- **Resolution with lists of all pending references** settles the program, and succeeds exactly if
no reference stays pending. -/
theorem resolve_ok_iff {d : Deferred} (hlists : Lists p d) {u : Unit} :
    resolve d p = .ok u q ↔ p.settled.IsResolved ∧ q = p.settled := by
  rw [← found_iff_isResolved hlists]
  constructor
  · intro hok
    obtain ⟨hfound, hsettled⟩ := (resolve_meets p d).of_ok hok
    exact ⟨hfound, hsettled.eq_settled hlists⟩
  · rintro ⟨hfound, rfl⟩
    obtain ⟨u', q, hok⟩ := (resolve_meets p d).exists_ok hfound
    obtain rfl := ((resolve_meets p d).of_ok hok).2.eq_settled hlists
    exact hok

end Program

end FrontEnd
