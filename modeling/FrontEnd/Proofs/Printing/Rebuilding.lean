/-
**Trees without positions.**

The nodes of a tree are made in the same order wherever its tokens stand, and the names in it are
looked up in the same scopes.  So a tree without positions makes the nodes that the tree makes,
without positions, and a declaration is refused for the one exactly if it is refused for the other.

Main definitions:

* `FrontEnd.Syntax.Expr.unplaced`, `FrontEnd.Syntax.Stmt.unplaced`,
  `FrontEnd.Syntax.Func.unplaced` — trees without positions;
* `FrontEnd.Run.Mirrors` — a run that does on an image of the state what another run does on the
  state.

Main results:

* `FrontEnd.Run.Mirrors.bind` — a sequence mirrors what its steps mirror;
* `FrontEnd.Syntax.mirrors_buildFile` — making a file without positions.
-/

import FrontEnd.Proofs.Printing.Unplacing
import FrontEnd.Proofs.Run
import FrontEnd.Proofs.Syntax.Building

set_option relaxedAutoImplicit false
set_option autoImplicit false

namespace FrontEnd

/-! ### Runs on images of states -/

namespace Run

variable {ε σ α β : Type}

/-- The answer of a run and the state it leaves, if it succeeds. -/
def outcome? : EStateM.Result ε σ α → Option (α × σ)
  | .ok a s => some (a, s)
  | .error _ _ => none

theorem outcome?_eq_some_iff {r : EStateM.Result ε σ α} {a : α} {s : σ} :
    outcome? r = some (a, s) ↔ r = .ok a s := by
  cases r <;> simp [outcome?]

/-- On the images of states the second computation does what the first one does on the states: it
gives the same answer and leaves the image of the state, or it fails where the first one fails. -/
def Mirrors (image : σ → σ) (m m' : EStateM ε σ α) : Prop :=
  ∀ s, outcome? (m' (image s)) = (outcome? (m s)).map (Prod.map id image)

namespace Mirrors

variable {image : σ → σ} {m m' : EStateM ε σ α}

/-- Both computations fail, or both succeed with the same answer. -/
theorem cases (h : Mirrors image m m') (s : σ) :
    (∃ e s₁ e' s₁', m s = .error e s₁ ∧ m' (image s) = .error e' s₁') ∨
      ∃ a s₁, m s = .ok a s₁ ∧ m' (image s) = .ok a (image s₁) := by
  have hs := h s
  cases hm : m s with
  | error e s₁ =>
      rw [hm] at hs
      cases hm' : m' (image s) with
      | error e' s₁' => exact .inl ⟨e, s₁, e', s₁', rfl, rfl⟩
      | ok a s₁' => simp [hm', outcome?] at hs
  | ok a s₁ =>
      rw [hm] at hs
      exact .inr ⟨a, s₁, rfl, outcome?_eq_some_iff.1 hs⟩

theorem pure (a : α) : Mirrors image (Pure.pure a : EStateM ε σ α) (Pure.pure a) := fun _ => rfl

/-- **A sequence mirrors what its steps mirror.** -/
theorem bind {f f' : α → EStateM ε σ β} (hm : Mirrors image m m')
    (hf : ∀ a, Mirrors image (f a) (f' a)) : Mirrors image (m >>= f) (m' >>= f') := by
  intro s
  rcases hm.cases s with ⟨e, s₁, e', s₁', hrun, hrun'⟩ | ⟨a, s₁, hrun, hrun'⟩
  · rw [bind_of_error hrun, bind_of_error hrun']
    rfl
  · rw [bind_of_ok hrun, bind_of_ok hrun']
    exact hf a s₁

/-- Looking at the state before going on. -/
theorem get_bind {f f' : σ → EStateM ε σ β} (hf : ∀ s, Mirrors image (f s) (f' (image s))) :
    Mirrors image (get >>= f) (get >>= f') := fun s => hf s s

theorem map (f : α → β) (hm : Mirrors image m m') : Mirrors image (f <$> m) (f <$> m') := by
  rw [← bind_pure_comp, ← bind_pure_comp]
  exact hm.bind fun a => pure (f a)

theorem modify {f f' : σ → σ} (h : ∀ s, f' (image s) = image (f s)) :
    Mirrors image (modify f : EStateM ε σ PUnit) (modify f') := fun s => by
  change some (PUnit.unit, f' (image s)) = some (PUnit.unit, image (f s))
  rw [h]

/-- Two computations that are mirrored by one do the same, up to the images of their states. -/
theorem exists_ok {n : EStateM ε σ α} {a : α} {s s₁ : σ} (hm : Mirrors image m m')
    (hn : Mirrors image n m') (h : m s = .ok a s₁) :
    ∃ s₂, n s = .ok a s₂ ∧ image s₂ = image s₁ := by
  have hs := (hn s).symm.trans (hm s)
  rw [h] at hs
  obtain ⟨⟨a', s₂⟩, hrun, heq⟩ := Option.map_eq_some_iff.1 hs
  obtain ⟨rfl, himage⟩ := Prod.mk.inj heq
  exact ⟨s₂, outcome?_eq_some_iff.1 hrun, himage⟩

end Mirrors

end Run

open Run

/-! ### Changes of programs -/

/-- Two results of which the one is the image of the other, or both are refusals. -/
theorem Run.cases_of_toOption {ε α β : Type} {f : α → β} {x : Except ε α} {x' : Except ε β}
    (h : x'.toOption = x.toOption.map f) :
    (∃ e e', x = .error e ∧ x' = .error e') ∨ ∃ a, x = .ok a ∧ x' = .ok (f a) := by
  cases x with
  | error e =>
      cases x' with
      | error e' => exact .inl ⟨e, e', rfl, rfl⟩
      | ok b => cases h
  | ok a =>
      cases x' with
      | error e' => cases h
      | ok b =>
          cases h
          exact .inr ⟨a, rfl, rfl⟩

/-- Extending a scope, without positions. -/
theorem ScopeTree.mirrors_extend (id : ScopeId) (name : String) (decl : DeclId) (p : Position) :
    Mirrors unplaced (extend id name decl p) (extend id name decl .start) := fun t => by
  unfold extend copy?
  rw [scope?_unplaced]
  cases t.scope? id with
  | none => rfl
  | some scope =>
      simp only [Option.map_some, next_unplaced, ← unplaced_push]
      rcases cases_of_toOption ((t.push scope).declare_unplaced t.next .var name decl p) with
        ⟨e, e', h, h'⟩ | ⟨t', h, h'⟩
      · simp only [h, h']
        rfl
      · simp only [h, h']
        rfl

namespace Program

theorem mirrors_newScope (kind : ScopeKind) (parent : ScopeId) :
    Mirrors unplaced (newScope kind parent) (newScope kind parent) := fun p => by
  let scope : Scope := { kind, parent? := some parent }
  change some (p.scopes.unplaced.next,
      ({ p.unplaced with scopes := p.scopes.unplaced.push scope } : Program)) =
    some (p.scopes.next, { p.unplaced with scopes := (p.scopes.push scope).unplaced })
  rw [ScopeTree.next_unplaced, ScopeTree.unplaced_push]
  rfl

theorem mirrors_declare (scope : ScopeId) (kind : DeclKind) (name : String) (decl : DeclId)
    (place : Position) :
    Mirrors unplaced (declare scope kind name decl place) (declare scope kind name decl .start) :=
  fun p => by
    have hscopes : p.unplaced.scopes = p.scopes.unplaced := rfl
    rcases cases_of_toOption (p.scopes.declare_unplaced scope kind name decl place) with
      ⟨e, e', h, h'⟩ | ⟨t, h, h'⟩
    · simp only [declare, hscopes, h, h']
      rfl
    · simp only [declare, hscopes, h, h']
      rfl

theorem mirrors_extend (scope : ScopeId) (name : String) (decl : DeclId) (place : Position) :
    Mirrors unplaced (extend scope name decl place) (extend scope name decl .start) := fun p => by
  have hscopes : p.unplaced.scopes = p.scopes.unplaced := rfl
  rcases (ScopeTree.mirrors_extend scope name decl place).cases p.scopes with
    ⟨e, t, e', t', h, h'⟩ | ⟨id, t, h, h'⟩
  · simp only [extend, hscopes, h, h']
    rfl
  · simp only [extend, hscopes, h, h']
    rfl

end Program

/-! ### Drafts -/

namespace Draft

/-- The draft without positions.  The lists of pending references have none. -/
def unplaced (d : Draft) : Draft := { d with program := d.program.unplaced }

theorem mirrors_onProgram {α : Type} {m m' : ProgramM α} (h : Mirrors Program.unplaced m m') :
    Mirrors unplaced (onProgram m) (onProgram m') := fun d => by
  have hprogram : d.unplaced.program = d.program.unplaced := rfl
  rcases h.cases d.program with ⟨e, p, e', p', h, h'⟩ | ⟨a, p, h, h'⟩
  · simp only [onProgram, hprogram, h, h']
    rfl
  · simp only [onProgram, hprogram, h, h']
    rfl

theorem mirrors_addDeclaration (declaration : Declaration) :
    Mirrors unplaced (addDeclaration declaration) (addDeclaration declaration.unplaced) :=
  fun d => by
    change some (d.program.unplaced.nextDecl,
      { d with program := d.program.unplaced.addDeclaration declaration.unplaced }) = _
    rw [Program.nextDecl_unplaced, ← Program.unplaced_addDeclaration]
    rfl

theorem mirrors_addExpression (e : Expression) :
    Mirrors unplaced (addExpression e) (addExpression e.unplaced) := fun d => by
  change some (d.program.unplaced.nextExpr,
    { d with program := d.program.unplaced.addExpression e.unplaced }) = _
  rw [Program.nextExpr_unplaced, ← Program.unplaced_addExpression]
  rfl

theorem mirrors_addStatement (form : StmtForm) (place : Position) :
    Mirrors unplaced (addStatement form place) (addStatement form.unplaced .start) := fun d => by
  change some (d.program.unplaced.nextStmt,
    { d with program := d.program.unplaced.addStatement (Statement.unplaced ⟨form, place⟩) }) = _
  rw [Program.nextStmt_unplaced, ← Program.unplaced_addStatement]
  rfl

theorem mirrors_deferIf (ref : Reference) (change : Deferred → Deferred) :
    Mirrors unplaced (deferIf ref change) (deferIf ref.unplaced change) := fun d => by
  cases ref <;> rfl

end Draft

/-! ### Trees -/

namespace Syntax

open Draft

def Name.unplaced (name : Name) : Name := { name with position := .start }

namespace Expr

mutual

/-- The expression without positions. -/
def unplaced : Expr → Expr
  | literal value _ => literal value .start
  | name n => name n.unplaced
  | not _ operand => not .start operand.unplaced
  | binary operator _ left right => binary operator .start left.unplaced right.unplaced
  | call callee arguments => call callee.unplaced (unplacedAll arguments)

def unplacedAll : List Expr → List Expr
  | [] => []
  | e :: others => e.unplaced :: unplacedAll others

end

@[simp] theorem position_unplaced (e : Expr) : e.unplaced.position = .start := by
  induction e with
  | literal value place => rfl
  | name n => rfl
  | not place operand ih => rfl
  | binary operator place left right ihLeft ihRight => rfl
  | call callee arguments ihCallee ihArguments => exact ihCallee

end Expr

def Update.unplaced : Update → Update
  | assign value => assign value.unplaced
  | add value => add value.unplaced
  | subtract value => subtract value.unplaced
  | increment => increment
  | decrement => decrement

def Simple.unplaced : Simple → Simple
  | call _ e => call .start e.unplaced
  | change target update => change target.unplaced update.unplaced

namespace Stmt

mutual

/-- The statement without positions. -/
def unplaced : Stmt → Stmt
  | declare _ name type => declare .start name.unplaced type.unplaced
  | simple s => simple s.unplaced
  | branch _ condition thenBlock none =>
      branch .start condition.unplaced (unplacedAll thenBlock) none
  | branch _ condition thenBlock (some elseBlock) =>
      branch .start condition.unplaced (unplacedAll thenBlock) (some (unplacedAll elseBlock))
  | whileLoop _ condition body => whileLoop .start condition.unplaced (unplacedAll body)
  | forLoop _ init? condition action? body =>
      forLoop .start (init?.map Simple.unplaced) condition.unplaced (action?.map Simple.unplaced)
        (unplacedAll body)
  | result _ values => result .start (Expr.unplacedAll values)

def unplacedAll : List Stmt → List Stmt
  | [] => []
  | s :: others => s.unplaced :: unplacedAll others

end

end Stmt

def Param.unplaced (p : Param) : Param := ⟨p.name.unplaced, p.type.unplaced⟩

def Func.unplaced (f : Func) : Func where
  name := f.name.unplaced
  parameters := f.parameters.map Param.unplaced
  results := f.results.map Name.unplaced
  body := Stmt.unplacedAll f.body

/-! ### Making nodes without positions -/

theorem Name.mirrors_build (scope : ScopeId) (name : Name) :
    Mirrors Draft.unplaced (name.build scope) (name.unplaced.build scope) := by
  refine .get_bind fun d => ?_
  change Mirrors Draft.unplaced _ (do
    let id ← addExpression
      { form := .identifier name.text (d.program.unplaced.valueReference scope name.text .start),
        position := .start }
    deferIf (d.program.unplaced.valueReference scope name.text .start) (·.addIdentifier id)
    pure id)
  rw [← Program.unplaced_valueReference]
  exact (mirrors_addExpression _).bind fun id => (mirrors_deferIf _ _).bind fun _ => .pure id

namespace Expr

theorem mirrors_buildAll_of_forall {scope : ScopeId} (es : List Expr)
    (hes : ∀ e ∈ es, Mirrors Draft.unplaced (e.build scope) (e.unplaced.build scope)) :
    Mirrors Draft.unplaced (buildAll scope es) (buildAll scope (unplacedAll es)) := by
  induction es with
  | nil => exact .pure []
  | cons e es ih =>
      refine (hes e List.mem_cons_self).bind fun id => ?_
      exact (ih fun e' he' => hes e' (List.mem_cons_of_mem e he')).bind fun ids => .pure _

/-- Making an expression without positions mirrors making it with them, by induction on the tree. -/
theorem mirrors_build (scope : ScopeId) (e : Expr) :
    Mirrors Draft.unplaced (e.build scope) (e.unplaced.build scope) := by
  induction e with
  | literal value place =>
      have hform : value.form.unplaced = value.form := by cases value <;> rfl
      have h := mirrors_addExpression
        { form := value.form, position := place, types? := some [value.type.declaration] }
      unfold Expression.unplaced at h
      rwa [hform] at h
  | name n => exact n.mirrors_build scope
  | not place operand ih => exact ih.bind fun id => mirrors_addExpression _
  | binary operator place left right ihLeft ihRight =>
      exact ihLeft.bind fun idLeft => ihRight.bind fun idRight => mirrors_addExpression _
  | call callee arguments ihCallee ihArguments =>
      refine ihCallee.bind fun called => (mirrors_buildAll_of_forall arguments ihArguments).bind ?_
      intro ids
      rw [position_unplaced]
      exact mirrors_addExpression _

theorem mirrors_buildAll (scope : ScopeId) (es : List Expr) :
    Mirrors Draft.unplaced (buildAll scope es) (buildAll scope (unplacedAll es)) :=
  mirrors_buildAll_of_forall es fun e _ => e.mirrors_build scope

end Expr

theorem Update.mirrors_build (scope : ScopeId) (u : Update) :
    Mirrors Draft.unplaced (u.build scope) (u.unplaced.build scope) := by
  cases u with
  | assign value | add value | subtract value => exact (value.mirrors_build scope).map _
  | increment | decrement => exact .pure _

/-- So does making a statement without blocks. -/
theorem Simple.mirrors_build (scope : ScopeId) (s : Simple) :
    Mirrors Draft.unplaced (s.build scope) (s.unplaced.build scope) := by
  cases s with
  | call place e => exact (e.mirrors_build scope).bind fun id => mirrors_addStatement _ place
  | change name update =>
      refine .get_bind fun d => ?_
      change Mirrors Draft.unplaced _ (do
        let change ← update.unplaced.build scope
        let id ← addStatement
          (.change (d.program.unplaced.variableReference scope name.text .start) change) .start
        deferIf (d.program.unplaced.variableReference scope name.text .start) (·.addStatement id)
        pure id)
      rw [← Program.unplaced_variableReference]
      refine (update.mirrors_build scope).bind fun change => ?_
      refine (mirrors_addStatement _ _).bind fun id => ?_
      exact (mirrors_deferIf _ _).bind fun _ => .pure id

theorem Simple.mirrors_buildMaybe (scope : ScopeId) (s? : Option Simple) :
    Mirrors Draft.unplaced (buildMaybe scope s?) (buildMaybe scope (s?.map unplaced)) := by
  cases s? with
  | none => exact .pure none
  | some s => exact (s.mirrors_build scope).map some

namespace Stmt

/-- So does declaring a variable. -/
theorem mirrors_buildDeclare (scope : ScopeId) (place : Position) (name type : Name) :
    Mirrors Draft.unplaced (buildDeclare scope place name type)
      (buildDeclare scope .start name.unplaced type.unplaced) := by
  refine .get_bind fun d => ?_
  change Mirrors Draft.unplaced _ (do
    let decl ← addDeclaration
      (.var { name? := some name.text, position := .start,
              type := d.program.unplaced.typeReference scope type.text .start })
    let behind ← onProgram (Program.extend scope name.text decl .start)
    let id ← addStatement (.declare decl) .start
    deferIf (d.program.unplaced.typeReference scope type.text .start) (·.addStatement id)
    pure (id, behind))
  rw [← Program.unplaced_typeReference]
  refine (mirrors_addDeclaration _).bind fun decl => ?_
  refine (mirrors_onProgram (Program.mirrors_extend _ _ _ _)).bind fun behind => ?_
  refine (mirrors_addStatement _ _).bind fun id => ?_
  exact (mirrors_deferIf _ _).bind fun _ => .pure (id, behind)

theorem mirrors_buildBlock {list list' : ScopeId → BuildM (List StmtId)}
    (h : ∀ inner, Mirrors Draft.unplaced (list inner) (list' inner)) (scope : ScopeId) :
    Mirrors Draft.unplaced (buildBlock list scope) (buildBlock list' scope) := by
  refine (mirrors_onProgram (Program.mirrors_newScope _ _)).bind fun inner => ?_
  exact (h inner).bind fun statements => .pure _

theorem mirrors_buildAll_of_forall (xs : List Stmt)
    (hxs : ∀ x ∈ xs, ∀ scope, Mirrors Draft.unplaced (x.build scope) (x.unplaced.build scope))
    (scope : ScopeId) :
    Mirrors Draft.unplaced (buildAll scope xs) (buildAll scope (unplacedAll xs)) := by
  induction xs generalizing scope with
  | nil => exact .pure []
  | cons x xs ih =>
      refine (hxs x List.mem_cons_self scope).bind fun built => ?_
      exact (ih (fun y hy => hxs y (List.mem_cons_of_mem x hy)) built.2).bind fun ids => .pure _

/-- So does making any statement, by induction on the tree. -/
theorem mirrors_build (s : Stmt) (scope : ScopeId) :
    Mirrors Draft.unplaced (s.build scope) (s.unplaced.build scope) := by
  induction s generalizing scope with
  | declare place name type => exact mirrors_buildDeclare scope place name type
  | simple s => exact (s.mirrors_build scope).bind fun id => .pure _
  | branch place condition thenBlock ih =>
      refine (condition.mirrors_build scope).bind fun c => ?_
      refine (mirrors_buildBlock (mirrors_buildAll_of_forall thenBlock ih) scope).bind fun b => ?_
      exact (mirrors_addStatement _ _).bind fun id => .pure _
  | branchElse place condition thenBlock elseBlock ihThen ihElse =>
      refine (condition.mirrors_build scope).bind fun c => ?_
      refine (mirrors_buildBlock (mirrors_buildAll_of_forall thenBlock ihThen) scope).bind
        fun b => ?_
      refine (mirrors_buildBlock (mirrors_buildAll_of_forall elseBlock ihElse) scope).bind
        fun b' => ?_
      exact (mirrors_addStatement _ _).bind fun id => .pure _
  | whileLoop place condition body ih =>
      refine (condition.mirrors_build scope).bind fun c => ?_
      refine (mirrors_buildBlock (mirrors_buildAll_of_forall body ih) scope).bind fun b => ?_
      exact (mirrors_addStatement _ _).bind fun id => .pure _
  | forLoop place init? condition action? body ih =>
      refine (Simple.mirrors_buildMaybe scope init?).bind fun i => ?_
      refine (condition.mirrors_build scope).bind fun c => ?_
      refine (Simple.mirrors_buildMaybe scope action?).bind fun a => ?_
      refine (mirrors_buildBlock (mirrors_buildAll_of_forall body ih) scope).bind fun b => ?_
      exact (mirrors_addStatement _ _).bind fun id => .pure _
  | result place values =>
      refine (Expr.mirrors_buildAll scope values).bind fun ids => ?_
      exact (mirrors_addStatement _ _).bind fun id => .pure _

theorem mirrors_buildAll (xs : List Stmt) (scope : ScopeId) :
    Mirrors Draft.unplaced (buildAll scope xs) (buildAll scope (unplacedAll xs)) :=
  mirrors_buildAll_of_forall xs (fun x _ scope => x.mirrors_build scope) scope

end Stmt

/-! ### Making functions without positions -/

theorem mirrors_buildField (name? : Option String) (type : Reference) (place : Position) :
    Mirrors Draft.unplaced (buildField name? type place)
      (buildField name? type.unplaced .start) := by
  refine (mirrors_addDeclaration _).bind fun decl => ?_
  exact (mirrors_deferIf _ _).bind fun _ => .pure _

theorem Param.mirrors_build (scope : ScopeId) (p : Param) :
    Mirrors Draft.unplaced (p.build scope) (p.unplaced.build scope) := by
  refine .get_bind fun d => ?_
  change Mirrors Draft.unplaced _ (do
    let field ← buildField (some p.name.text)
      (d.program.unplaced.typeReference scope p.type.text .start) .start
    onProgram (Program.declare scope .var p.name.text field.decl .start)
    pure field)
  rw [← Program.unplaced_typeReference]
  refine (mirrors_buildField _ _ _).bind fun field => ?_
  exact (mirrors_onProgram (Program.mirrors_declare _ _ _ _ _)).bind fun _ => .pure field

theorem Name.mirrors_buildResult (scope : ScopeId) (name : Name) :
    Mirrors Draft.unplaced (name.buildResult scope) (name.unplaced.buildResult scope) := by
  refine .get_bind fun d => ?_
  change Mirrors Draft.unplaced _
    (buildField none (d.program.unplaced.typeReference scope name.text .start) .start)
  rw [← Program.unplaced_typeReference]
  exact mirrors_buildField _ _ _

theorem mirrors_buildItems {α β : Type} {item : α → BuildM β} {change : α → α}
    (h : ∀ x, Mirrors Draft.unplaced (item x) (item (change x))) (xs : List α) :
    Mirrors Draft.unplaced (buildItems item xs) (buildItems item (xs.map change)) := by
  induction xs with
  | nil => exact .pure []
  | cons x xs ih => exact (h x).bind fun y => ih.bind fun ys => .pure _

/-- So does making a function. -/
theorem Func.mirrors_build (scope : ScopeId) (f : Func) :
    Mirrors Draft.unplaced (f.build scope) (f.unplaced.build scope) := by
  refine (mirrors_onProgram (Program.mirrors_newScope _ _)).bind fun inner => ?_
  refine (mirrors_buildItems (Param.mirrors_build inner) f.parameters).bind fun parameters => ?_
  refine (mirrors_buildItems (Name.mirrors_buildResult inner) f.results).bind fun results => ?_
  refine (mirrors_addDeclaration _).bind fun decl => ?_
  refine (mirrors_onProgram (Program.mirrors_declare _ _ _ _ _)).bind fun _ => ?_
  refine (Stmt.mirrors_buildAll f.body inner).bind fun body => ?_
  refine Mirrors.bind (.modify fun d => ?_) fun _ => .pure decl
  exact congrArg (fun program => { d with program }) (d.program.unplaced_setBody decl body).symm

/-- **Making a file without positions** gives the nodes of the file, without positions. -/
theorem mirrors_buildFile (fs : List Func) :
    Mirrors Draft.unplaced (buildFile fs) (buildFile (fs.map Func.unplaced)) := by
  induction fs with
  | nil => exact .pure ()
  | cons f fs ih =>
      refine (f.mirrors_build .file).bind fun decl => ?_
      exact Mirrors.bind (.modify fun d => rfl) fun _ => ih

end Syntax

end FrontEnd
