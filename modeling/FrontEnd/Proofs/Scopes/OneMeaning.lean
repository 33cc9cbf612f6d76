/-
**One meaning for every name of a file.**

Making the nodes of a file changes its scopes in the five ways that keep the names on each chain of
parents apart.  So in every scope that comes out, also in those that only earlier statements see, a
name has one meaning at most, and it makes no difference in which order the kinds of declarations
are searched.

Main definitions:

* `FrontEnd.Draft.KeepsScopes`, `FrontEnd.Draft.Enlarges` — computations that leave the scopes as
  they are, or take steps with them.

Main results:

* `FrontEnd.Syntax.Stmt.build_enlarges`, `FrontEnd.Syntax.Func.build_enlarges`,
  `FrontEnd.Syntax.buildFile_enlarges` — the nodes of a file are made in such steps;
* `FrontEnd.parseFile_one_meaning` — **in a file that was read no name has two meanings**.
-/

import FrontEnd.Proofs.Resolution.TwoPass
import FrontEnd.Proofs.Scopes.Growing

set_option relaxedAutoImplicit false
set_option autoImplicit false

namespace FrontEnd

open Run ScopeTree

variable {α β : Type} {scope : ScopeId}

/-! ### Changes to the scopes of a draft -/

namespace Draft

/-- The computation leaves the scopes as they are. -/
def KeepsScopes (m : BuildM α) : Prop :=
  ∀ ⦃d a d'⦄, m d = .ok a d' → d'.program.scopes = d.program.scopes

theorem keepsScopes_pure (a : α) : KeepsScopes (pure a) := by
  intro d b d' h
  obtain ⟨-, rfl⟩ := pure_ok_iff.1 h
  rfl

theorem KeepsScopes.bind {m : BuildM α} {f : α → BuildM β} (hm : KeepsScopes m)
    (hf : ∀ a, KeepsScopes (f a)) : KeepsScopes (m >>= f) := by
  intro d b d' h
  obtain ⟨a, d₁, h₁, h₂⟩ := bind_ok_iff.1 h
  rw [hf a h₂, hm h₁]

theorem KeepsScopes.map {m : BuildM α} (hm : KeepsScopes m) (f : α → β) :
    KeepsScopes (f <$> m) := by
  intro d b d' h
  obtain ⟨a, h, -⟩ := map_ok_iff.1 h
  exact hm h

theorem keepsScopes_get : KeepsScopes get := by
  intro d a d' h
  obtain ⟨-, rfl⟩ := get_ok_iff.1 h
  rfl

theorem keepsScopes_modify {f : Draft → Draft}
    (hf : ∀ d, (f d).program.scopes = d.program.scopes) : KeepsScopes (modify f) := by
  intro d a d' h
  rw [modify_ok_iff.1 h, hf]

theorem keepsScopes_addDeclaration (declaration : Declaration) :
    KeepsScopes (addDeclaration declaration) := by
  intro d a d' h
  cases h
  rfl

theorem keepsScopes_addExpression (e : Expression) : KeepsScopes (addExpression e) := by
  intro d a d' h
  cases h
  rfl

theorem keepsScopes_addStatement (form : StmtForm) (place : Position) :
    KeepsScopes (addStatement form place) := by
  intro d a d' h
  cases h
  rfl

theorem keepsScopes_deferIf (ref : Reference) (change : Deferred → Deferred) :
    KeepsScopes (deferIf ref change) := by
  intro d a d' h
  rw [program_of_deferIf h]

/-- From scopes as described first, the computation takes steps to scopes as described last. -/
def Enlarges (P : ScopeTree → Prop) (m : BuildM α) (Q : α → ScopeTree → Prop) : Prop :=
  ∀ ⦃d a d'⦄, P d.program.scopes → m d = .ok a d' →
    Grows d.program.scopes d'.program.scopes ∧ Q a d'.program.scopes

variable {P : ScopeTree → Prop} {Q : α → ScopeTree → Prop} {R : β → ScopeTree → Prop}
  {m : BuildM α}

theorem enlarges_pure {a : α} (h : ∀ t, P t → Q a t) : Enlarges P (pure a) Q := by
  intro d b d' hd hok
  obtain ⟨rfl, rfl⟩ := pure_ok_iff.1 hok
  exact ⟨.refl _, h _ hd⟩

theorem Enlarges.bind {f : α → BuildM β} (hm : Enlarges P m Q)
    (hf : ∀ a, Enlarges (Q a) (f a) R) : Enlarges P (m >>= f) R := by
  intro d b d' hd h
  obtain ⟨a, d₁, h₁, h₂⟩ := bind_ok_iff.1 h
  obtain ⟨hgrows₁, hd₁⟩ := hm hd h₁
  obtain ⟨hgrows₂, hd₂⟩ := hf a hd₁ h₂
  exact ⟨hgrows₁.trans hgrows₂, hd₂⟩

theorem Enlarges.imp {P' : ScopeTree → Prop} (h : Enlarges P m Q) (hP : ∀ t, P' t → P t) :
    Enlarges P' m Q := fun _ _ _ hd hok => h (hP _ hd) hok

/-- What holds of the scopes goes on to hold when they are left as they are. -/
theorem KeepsScopes.enlarges (h : KeepsScopes m) : Enlarges P m fun _ => P := by
  intro d a d' hd hok
  rw [h hok]
  exact ⟨.refl _, hd⟩

/-- Functions and blocks stay what they are. -/
theorem Enlarges.stays (h : Enlarges (·.IsLocal scope) m Q) :
    Enlarges (·.IsLocal scope) m fun _ => (·.IsLocal scope) := by
  intro d a d' hd hok
  obtain ⟨hgrows, -⟩ := h hd hok
  exact ⟨hgrows, hd.grows hgrows⟩

/-! ### Steps of the builder -/

theorem enlarges_newScope_block :
    Enlarges (·.IsLocal scope) (onProgram (Program.newScope .block scope))
      fun inner => (·.IsLocal inner) := by
  intro d inner d' hd h
  cases h
  exact ⟨(Step.block scope hd).grows, isLocal_push_next rfl⟩

/-- The scope is the youngest one, and that of a function or a block. -/
def IsYoungest (t : ScopeTree) (id : ScopeId) : Prop :=
  t.IsLocal id ∧ id.index + 1 = t.scopes.size

theorem enlarges_newScope_function :
    Enlarges (fun _ => True) (onProgram (Program.newScope .function .file))
      fun inner t => IsYoungest t inner := by
  intro d inner d' hd h
  cases h
  exact ⟨Step.function.grows, isLocal_push_next rfl, size_push.symm⟩

/-- Declaring a variable in the youngest scope is a step, and that scope stays the youngest. -/
theorem enlarges_declare_var (name : String) (decl : DeclId) (place : Position) :
    Enlarges (IsYoungest · scope) (onProgram (Program.declare scope .var name decl place))
      fun _ => (IsYoungest · scope) := by
  intro d u d' hd h
  cases hres : d.program.scopes.declare scope .var name decl place with
  | error e => simp [onProgram, Program.declare, hres] at h
  | ok t =>
      simp only [onProgram, Program.declare, hres] at h
      cases h
      have hstep : Step d.program.scopes t := .var scope name decl place t hd.1 hd.2 hres
      exact ⟨hstep.grows, hd.1.step hstep, hd.2.trans (size_declare hres).symm⟩

/-- Declaring a function in the file is a step. -/
theorem enlarges_declare_func (name : String) (decl : DeclId) (place : Position) :
    Enlarges (·.IsLocal scope) (onProgram (Program.declare .file .func name decl place))
      fun _ => (·.IsLocal scope) := by
  intro d u d' hd h
  cases hres : d.program.scopes.declare .file .func name decl place with
  | error e => simp [onProgram, Program.declare, hres] at h
  | ok t =>
      simp only [onProgram, Program.declare, hres] at h
      cases h
      have hstep : Step d.program.scopes t := .func name decl place t hres
      exact ⟨hstep.grows, hd.step hstep⟩

/-- Declaring a variable in a copy is copying the scope and declaring the variable in the youngest
scope. -/
theorem enlarges_extend (name : String) (decl : DeclId) (place : Position) :
    Enlarges (·.IsLocal scope) (onProgram (Program.extend scope name decl place))
      fun behind => (·.IsLocal behind) := by
  intro d behind d' hd h
  obtain ⟨old, hold, hlocal⟩ := hd
  have hcopy : d.program.scopes.copy? scope =
      some (d.program.scopes.next, d.program.scopes.push old) := by
    rw [copy?, hold]
    rfl
  cases hres : (d.program.scopes.push old).declare d.program.scopes.next .var name decl place with
  | error e => simp [onProgram, Program.extend, ScopeTree.extend, hcopy, hres] at h
  | ok t =>
      simp only [onProgram, Program.extend, ScopeTree.extend, hcopy, hres] at h
      cases h
      have hcopied : Step d.program.scopes (d.program.scopes.push old) :=
        .copy scope old hold hlocal
      have hnext : (d.program.scopes.push old).IsLocal d.program.scopes.next :=
        isLocal_push_next hlocal
      have hdeclared : Step (d.program.scopes.push old) t :=
        .var _ name decl place t hnext size_push.symm hres
      exact ⟨hcopied.grows.trans hdeclared.grows, hnext.step hdeclared⟩

end Draft

/-! ### Trees -/

namespace Syntax

open Draft

theorem Name.build_keepsScopes (name : Name) : KeepsScopes (name.build scope) := by
  refine keepsScopes_get.bind fun d => (keepsScopes_addExpression _).bind fun id => ?_
  exact (keepsScopes_deferIf _ _).bind fun _ => keepsScopes_pure id

theorem Expr.buildAll_keepsScopes_of_forall (es : List Expr)
    (hes : ∀ e ∈ es, KeepsScopes (e.build scope)) : KeepsScopes (Expr.buildAll scope es) := by
  induction es with
  | nil => exact keepsScopes_pure _
  | cons e es ih =>
      rw [Expr.buildAll]
      exact (hes e List.mem_cons_self).bind fun _ =>
        (ih fun e' he' => hes e' (List.mem_cons_of_mem e he')).bind fun _ => keepsScopes_pure _

/-- **Expressions change no scopes.** -/
theorem Expr.build_keepsScopes (e : Expr) : KeepsScopes (e.build scope) := by
  induction e with
  | literal value place => exact keepsScopes_addExpression _
  | name n => exact n.build_keepsScopes
  | not place operand ih =>
      rw [Expr.build]
      exact ih.bind fun _ => keepsScopes_addExpression _
  | binary operator place left right ihLeft ihRight =>
      rw [Expr.build]
      exact ihLeft.bind fun _ => ihRight.bind fun _ => keepsScopes_addExpression _
  | call callee arguments ihCallee ihArguments =>
      rw [Expr.build]
      exact ihCallee.bind fun _ => (Expr.buildAll_keepsScopes_of_forall arguments ihArguments).bind
        fun _ => keepsScopes_addExpression _

theorem Expr.buildAll_keepsScopes (es : List Expr) : KeepsScopes (Expr.buildAll scope es) :=
  Expr.buildAll_keepsScopes_of_forall es fun e _ => e.build_keepsScopes

theorem Update.build_keepsScopes (u : Update) : KeepsScopes (u.build scope) := by
  cases u with
  | assign value => exact value.build_keepsScopes.map _
  | add value => exact value.build_keepsScopes.map _
  | subtract value => exact value.build_keepsScopes.map _
  | increment => exact keepsScopes_pure _
  | decrement => exact keepsScopes_pure _

theorem Simple.build_keepsScopes (s : Simple) : KeepsScopes (s.build scope) := by
  cases s with
  | call place e => exact e.build_keepsScopes.bind fun _ => keepsScopes_addStatement _ _
  | change name update =>
      refine keepsScopes_get.bind fun d => update.build_keepsScopes.bind fun change => ?_
      refine (keepsScopes_addStatement _ _).bind fun id => ?_
      exact (keepsScopes_deferIf _ _).bind fun _ => keepsScopes_pure id

theorem Simple.buildMaybe_keepsScopes (s? : Option Simple) :
    KeepsScopes (Simple.buildMaybe scope s?) := by
  cases s? with
  | none => exact keepsScopes_pure _
  | some s => exact s.build_keepsScopes.map _

/-- What making a statement does to the scopes. -/
def Stmt.BuildEnlarges (s : Stmt) : Prop :=
  ∀ scope, Enlarges (·.IsLocal scope) (s.build scope) fun result => (·.IsLocal result.2)

theorem Stmt.buildAll_enlarges_of_forall (xs : List Stmt) (hxs : ∀ x ∈ xs, x.BuildEnlarges)
    (scope : ScopeId) :
    Enlarges (·.IsLocal scope) (Stmt.buildAll scope xs) fun _ _ => True := by
  induction xs generalizing scope with
  | nil => exact enlarges_pure fun _ _ => trivial
  | cons x xs ih =>
      rw [Stmt.buildAll]
      refine (hxs x List.mem_cons_self scope).bind fun result => ?_
      -- the others are made in the scope behind the first one
      refine (ih (fun y hy => hxs y (List.mem_cons_of_mem x hy)) result.2).bind fun _ => ?_
      exact enlarges_pure fun _ _ => trivial

theorem Stmt.buildBlock_enlarges (xs : List Stmt) (hxs : ∀ x ∈ xs, x.BuildEnlarges) :
    Enlarges (·.IsLocal scope) (Stmt.buildBlock (fun inner => Stmt.buildAll inner xs) scope)
      fun _ => (·.IsLocal scope) := by
  refine Enlarges.stays (Q := fun _ _ => True) ?_
  refine enlarges_newScope_block.bind fun inner => ?_
  exact (Stmt.buildAll_enlarges_of_forall xs hxs inner).bind fun _ =>
    enlarges_pure fun _ _ => trivial

/-- The statement itself is added behind its parts, and the list goes on in the same scope. -/
theorem Stmt.close_enlarges (form : StmtForm) (place : Position) :
    Enlarges (·.IsLocal scope) (addStatement form place >>= fun id => pure (id, scope))
      fun result => (·.IsLocal result.2) :=
  (keepsScopes_addStatement form place).enlarges.bind fun _ => enlarges_pure fun _ h => h

/-- **Statements take steps with the scopes.** -/
theorem Stmt.build_enlarges (s : Stmt) : s.BuildEnlarges := by
  induction s with
  | declare place name type =>
      intro scope
      rw [Stmt.build]
      refine keepsScopes_get.enlarges.bind fun _ => ?_
      refine (keepsScopes_addDeclaration _).enlarges.bind fun decl => ?_
      refine (enlarges_extend name.text decl name.position).bind fun behind => ?_
      refine (keepsScopes_addStatement _ _).enlarges.bind fun _ => ?_
      exact (keepsScopes_deferIf _ _).enlarges.bind fun _ => enlarges_pure fun _ h => h
  | simple s =>
      intro scope
      rw [Stmt.build]
      exact s.build_keepsScopes.enlarges.bind fun _ => enlarges_pure fun _ h => h
  | branch place condition thenBlock ih =>
      intro scope
      rw [Stmt.build]
      refine condition.build_keepsScopes.enlarges.bind fun _ => ?_
      exact (Stmt.buildBlock_enlarges thenBlock ih).bind fun _ => Stmt.close_enlarges _ _
  | branchElse place condition thenBlock elseBlock ihThen ihElse =>
      intro scope
      rw [Stmt.build]
      refine condition.build_keepsScopes.enlarges.bind fun _ => ?_
      refine (Stmt.buildBlock_enlarges thenBlock ihThen).bind fun _ => ?_
      exact (Stmt.buildBlock_enlarges elseBlock ihElse).bind fun _ => Stmt.close_enlarges _ _
  | whileLoop place condition body ih =>
      intro scope
      rw [Stmt.build]
      refine condition.build_keepsScopes.enlarges.bind fun _ => ?_
      exact (Stmt.buildBlock_enlarges body ih).bind fun _ => Stmt.close_enlarges _ _
  | forLoop place init? condition action? body ih =>
      intro scope
      rw [Stmt.build]
      refine (Simple.buildMaybe_keepsScopes init?).enlarges.bind fun _ => ?_
      refine condition.build_keepsScopes.enlarges.bind fun _ => ?_
      refine (Simple.buildMaybe_keepsScopes action?).enlarges.bind fun _ => ?_
      exact (Stmt.buildBlock_enlarges body ih).bind fun _ => Stmt.close_enlarges _ _
  | result place values =>
      intro scope
      rw [Stmt.build]
      exact (Expr.buildAll_keepsScopes values).enlarges.bind fun _ => Stmt.close_enlarges _ _

theorem buildField_keepsScopes (name? : Option String) (type : Reference) (place : Position) :
    KeepsScopes (buildField name? type place) :=
  (keepsScopes_addDeclaration _).bind fun _ => (keepsScopes_deferIf _ _).bind fun _ =>
    keepsScopes_pure _

/-- Parameters are declared while the scope of their function is the youngest. -/
theorem Param.build_enlarges (p : Param) :
    Enlarges (IsYoungest · scope) (p.build scope) fun _ => (IsYoungest · scope) := by
  refine keepsScopes_get.enlarges.bind fun _ => ?_
  refine (buildField_keepsScopes _ _ _).enlarges.bind fun field => ?_
  exact (enlarges_declare_var p.name.text field.decl p.name.position).bind fun _ =>
    enlarges_pure fun _ h => h

theorem Name.buildResult_keepsScopes (name : Name) : KeepsScopes (name.buildResult scope) :=
  keepsScopes_get.bind fun _ => buildField_keepsScopes _ _ _

theorem buildItems_enlarges {P : ScopeTree → Prop} {item : α → BuildM β}
    (hitem : ∀ x, Enlarges P (item x) fun _ => P) (xs : List α) :
    Enlarges P (buildItems item xs) fun _ => P := by
  induction xs with
  | nil => exact enlarges_pure fun _ h => h
  | cons x xs ih => exact (hitem x).bind fun _ => ih.bind fun _ => enlarges_pure fun _ h => h

/-- **Functions take steps with the scopes.** -/
theorem Func.build_enlarges (f : Func) :
    Enlarges (fun _ => True) (f.build .file) fun _ _ => True := by
  refine enlarges_newScope_function.bind fun inner => ?_
  refine (buildItems_enlarges (fun p => p.build_enlarges) f.parameters).bind fun _ => ?_
  refine (buildItems_enlarges (fun n => n.buildResult_keepsScopes.enlarges) f.results).bind
    fun _ => ?_
  refine (keepsScopes_addDeclaration _).enlarges.bind fun decl => ?_
  -- from here on variables are declared in copies, and the scope of the function is one like others
  refine Enlarges.imp (P := (·.IsLocal inner)) ?_ fun _ h => h.1
  refine (enlarges_declare_func f.name.text decl f.name.position).bind fun _ => ?_
  refine (Stmt.buildAll_enlarges_of_forall f.body (fun s _ => s.build_enlarges) inner).bind
    fun body => ?_
  refine Enlarges.bind (KeepsScopes.enlarges (keepsScopes_modify ?_)) fun _ => ?_
  · exact fun _ => rfl
  · exact enlarges_pure fun _ h => h

/-- **Files take steps with the scopes.** -/
theorem buildFile_enlarges (fs : List Func) :
    Enlarges (fun _ => True) (buildFile fs) fun _ _ => True := by
  induction fs with
  | nil => exact enlarges_pure fun _ h => h
  | cons f fs ih =>
      refine f.build_enlarges.bind fun _ => ?_
      refine Enlarges.bind (KeepsScopes.enlarges (keepsScopes_modify ?_)) fun _ => ih
      exact fun _ => rfl

end Syntax

/-! ### Files -/

variable {tokens : List Token} {p : Program} {d : Deferred}

/-- The scopes of a file that was read are made in the steps in which files grow. -/
theorem inFile_of_parseFile (h : parseFile tokens = .ok (p, d)) : p.scopes.InFile := by
  obtain ⟨fs, -, hbuild⟩ := spelled_of_parseFile h
  have hgrows : Grows ScopeTree.initial p.scopes := (Syntax.buildFile_enlarges fs trivial hbuild).1
  exact inFile_initial.grows hgrows

/-- Along the chain of parents of a scope, the name is bound in the scope `outer`, as the given kind
of declaration. -/
def ScopeTree.Means (t : ScopeTree) (id : ScopeId) (name : String) (outer : ScopeId)
    (kind : DeclKind) : Prop :=
  ∃ scope, (outer, scope) ∈ t.chain id ∧ (scope.get? kind name).isSome = true

/-- **In a file that was read no name has two meanings.**  The parents of every scope lead to the
built-in types; on the way every name is bound in one scope at most, and as one kind of declaration.
So to find out what a name stands for the kinds of declarations can be searched in any order, and to
find a value functions can come before variables as well as after them. -/
theorem parseFile_one_meaning (h : parseFile tokens = .ok (p, d)) {id : ScopeId} {scope : Scope}
    (hscope : p.scopes.scope? id = some scope) (name : String) :
    (p.scopes.chain id).getLast? = some (.builtIn, ScopeTree.builtInScope) ∧
      (∀ outer outer' kind kind', p.scopes.Means id name outer kind →
        p.scopes.Means id name outer' kind' → outer = outer' ∧ kind = kind') ∧
      (∀ order : List DeclKind, (∀ kind, kind ∈ order) →
        p.scopes.searchIn order id name = p.scopes.searchAny id name) ∧
      p.findValue? id name =
        ((p.scopes.search id .func name).or (p.scopes.search id .var name)).map
          Entry.declaration := by
  have hinFile := inFile_of_parseFile h
  obtain ⟨functions, noted, hlexical⟩ := hinFile.lexical
  refine ⟨hlexical.getLast?_chain hscope, ?_, ?_, ?_⟩
  · rintro outer outer' kind kind' ⟨x, hx, hget⟩ ⟨y, hy, hget'⟩
    obtain ⟨hxy, hkind⟩ := hinFile.unique hx hy hget hget'
    exact ⟨congrArg Prod.fst hxy, hkind⟩
  · exact fun order hall => hinFile.searchIn_eq hall DeclKind.mem_all id name
  · -- at most one of the two searches finds anything
    unfold Program.findValue? Program.findVariable?
    cases hvar : p.scopes.search id .var name with
    | none => simp
    | some entry =>
        cases hfunc : p.scopes.search id .func name with
        | none => simp
        | some entry' =>
            have hkind := hinFile.search_unique hvar hfunc
            cases hkind

/-- A file with a variable in a block: the scope behind it is a copy of the one of the block, which
stays. -/
def innerVariable : List Token :=
  tokensOf "func f(n Int) \x7b var m Int; while m < n \x7b var k Int; m = k; \x7d \x7d"

theorem parseFile_one_meaning_innerVariable : ∃ p d scope,
    parseFile innerVariable = .ok (p, d) ∧ p.scopes.scope? ⟨5⟩ = some scope ∧
      (p.scopes.chain ⟨5⟩).getLast? = some (.builtIn, ScopeTree.builtInScope) ∧
        (∀ outer outer' kind kind', p.scopes.Means ⟨5⟩ "n" outer kind →
          p.scopes.Means ⟨5⟩ "n" outer' kind' → outer = outer' ∧ kind = kind') ∧
        (∀ order : List DeclKind, (∀ kind, kind ∈ order) →
          p.scopes.searchIn order ⟨5⟩ "n" = p.scopes.searchAny ⟨5⟩ "n") ∧
        p.findValue? ⟨5⟩ "n" =
          ((p.scopes.search ⟨5⟩ .func "n").or (p.scopes.search ⟨5⟩ .var "n")).map
            Entry.declaration := by
  have hread : ((parseFile innerVariable).toOption.any fun x => (x.1.scopes.scope? ⟨5⟩).isSome) =
      true := by
    decide +kernel
  obtain ⟨⟨p, d⟩, hparse, hscope⟩ := exists_of_any hread
  obtain ⟨scope, hscope⟩ := Option.isSome_iff_exists.1 hscope
  exact ⟨p, d, scope, hparse, hscope, parseFile_one_meaning hparse hscope "n"⟩

end FrontEnd
