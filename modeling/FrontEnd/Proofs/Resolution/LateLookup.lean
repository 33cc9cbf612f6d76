/-
**Early and late lookup.**

A name is looked up once when it is read, and again, if that finds nothing, when the whole file is
known.  What comes out is what the late lookup alone would find: a name stands for the nearest
visible variable, or else for the function of that name, and it does not matter where in the file
the function is declared.  The two agree because a scope that was read never changes, apart from
that of the file, and because no name there ever changes its meaning.

Main definitions:

* `FrontEnd.Program.Shows` — in the scope of a sight, what is found is what is visible;
* `FrontEnd.Syntax.Nodes.Settles` — settling some nodes gives some others.

Main results:

* `FrontEnd.Syntax.settles_earlyNodes` — settling the nodes of a file gives those that see every
  function.
-/

import FrontEnd.Proofs.Layout.BuildingFile
import FrontEnd.Proofs.Resolution.Settling

set_option relaxedAutoImplicit false
set_option autoImplicit false

namespace FrontEnd

open Syntax

/-! ### What is found in scopes -/

namespace Program

/-- In the scope of a sight, a search finds what is visible there and the given functions. -/
structure Shows (p : Program) (functions : List (String × DeclId)) (v : Sight) : Prop where
  variable_eq : ∀ name, p.findVariable? v.scope name = v.locals.lookup name
  value_eq : ∀ name,
    p.findValue? v.scope name = (v.locals.lookup name).or (functions.lookup name)

/-- No type is found but the built-in ones. -/
def FindsBuiltIn (p : Program) : Prop :=
  ∀ scope name, BasicType.ofName? name = none → p.findType? scope name = none

variable {p : Program} {functions : List (String × DeclId)} {noted : List String}
  {locals : List (String × DeclId)} {v : Sight}

theorem shows_of_sees (h : p.scopes.Lexical functions noted)
    (hv : p.scopes.Sees v.scope v.locals) : p.Shows functions v := by
  obtain ⟨scope, hscope⟩ := hv.scope
  refine ⟨hv.var, fun name => ?_⟩
  unfold findValue? findVariable?
  rw [hv.var, h.search_func hv.inner hscope]
  cases v.locals.lookup name <;> rfl

theorem findsBuiltIn_of_lexical (h : p.scopes.Lexical functions noted) : p.FindsBuiltIn := by
  intro scope name hname
  unfold findType?
  rw [h.search_type_eq_none hname]
  rfl

end Program

namespace Syntax

variable {p : Program} {functions early : List (String × DeclId)} {o : Extent} {v : Sight}
  {x x' y y' : Nodes}

/-! ### Settling nodes -/

/-- Settling the nodes of `x` in a program gives the nodes of `y`. -/
structure Nodes.Settles (p : Program) (x y : Nodes) : Prop where
  declarations : x.declarations.map (Declaration.settle p.findType?) = y.declarations
  expressions : x.expressions.map (Expression.settle p.findValue?) = y.expressions
  statements : x.statements.map (Statement.settle p.findVariable?) = y.statements

theorem Nodes.Settles.append (hx : x.Settles p x') (hy : y.Settles p y') :
    (x ++ y).Settles p (x' ++ y') := by
  refine ⟨?_, ?_, ?_⟩
  · rw [append_declarations, List.map_append, hx.declarations, hy.declarations]
    rfl
  · rw [append_expressions, List.map_append, hx.expressions, hy.expressions]
    rfl
  · rw [append_statements, List.map_append, hx.statements, hy.statements]
    rfl

theorem Nodes.settles_empty : ({} : Nodes).Settles p {} := ⟨rfl, rfl, rfl⟩

theorem Nodes.settles_deferIf (ref ref' : Reference) (places places' : Deferred) :
    (deferIf ref places).Settles p (deferIf ref' places') := by
  cases ref <;> cases ref' <;> exact ⟨rfl, rfl, rfl⟩

theorem Nodes.settles_ofDeclaration {d d' : Declaration} (h : d.settle p.findType? = d') :
    (ofDeclaration d).Settles p (ofDeclaration d') := by
  subst h
  exact ⟨rfl, rfl, rfl⟩

theorem Nodes.settles_ofExpression {e e' : Expression} (h : e.settle p.findValue? = e') :
    (ofExpression e).Settles p (ofExpression e') := by
  subst h
  exact ⟨rfl, rfl, rfl⟩

/-- A statement that changes no variable is settled. -/
theorem Nodes.settles_ofStatement {form : StmtForm} {place : Position}
    (hchange : ∀ ref change, form ≠ .change ref change) :
    (ofStatement form place).Settles p (ofStatement form place) := by
  refine ⟨rfl, rfl, ?_⟩
  cases form <;> first | rfl | exact absurd rfl (hchange _ _)

/-! ### Settling references -/

/-- A type that is not built in is not found later either. -/
theorem Sight.settle_type (hp : p.FindsBuiltIn) (scope : ScopeId) (name : Name) :
    (Sight.type scope name).settle p.findType? = Sight.type scope name := by
  unfold Sight.type
  cases hname : BasicType.ofName? name.text with
  | some b => rfl
  | none =>
      change Reference.ofFound (p.findType? scope name.text) _ _ _ = _
      rw [hp scope name.text hname]
      rfl

/-- A changed variable that is not visible is not found later either. -/
theorem Sight.settle_target (hv : p.Shows functions v) (name : Name) :
    (v.target name).settle p.findVariable? = v.target name := by
  unfold Sight.target
  cases hname : v.locals.lookup name.text with
  | some id => rfl
  | none =>
      change Reference.ofFound (p.findVariable? v.scope name.text) _ _ _ = _
      rw [hv.variable_eq, hname]

/-- A name that is looked up early and then late stands for what it stands for in the end. -/
theorem Sight.settle_value (hv : p.Shows functions v)
    (hearly : ∀ name id, early.lookup name = some id → functions.lookup name = some id)
    (name : Name) : (v.value early name).settle p.findValue? = v.value functions name := by
  unfold Sight.value
  cases hlocal : v.locals.lookup name.text with
  | some id => rfl
  | none =>
      simp only [Option.none_or]
      cases hfunc : early.lookup name.text with
      | some id =>
          rw [hearly name.text id hfunc]
          rfl
      | none =>
          change Reference.ofFound (p.findValue? v.scope name.text) _ _ _ = _
          rw [hv.value_eq, hlocal, Option.none_or]

/-! ### Settling trees -/

section Trees

variable (hearly : ∀ name id, early.lookup name = some id → functions.lookup name = some id)

include hearly

namespace Expr

omit hearly in
theorem settles_nodesAll_of_forall (es : List Expr)
    (hes : ∀ e ∈ es, ∀ o, (e.nodes early v o).Settles p (e.nodes functions v o)) (o : Extent) :
    (nodesAll early v o es).Settles p (nodesAll functions v o es) := by
  induction es generalizing o with
  | nil => exact Nodes.settles_empty
  | cons e es ih =>
      have hrest := ih fun e' he' => hes e' (List.mem_cons_of_mem e he')
      exact (hes e List.mem_cons_self o).append (hrest _)

/-- Settling an expression looks its names up among all the functions of the file. -/
theorem settles_nodes (hv : p.Shows functions v) (e : Expr) (o : Extent) :
    (e.nodes early v o).Settles p (e.nodes functions v o) := by
  induction e generalizing o with
  | literal value place =>
      refine Nodes.settles_ofExpression ?_
      cases value <;> rfl
  | name n =>
      refine (Nodes.settles_ofExpression ?_).append (Nodes.settles_deferIf _ _ _ _)
      simp only [Expression.settle, Sight.settle_value hv hearly]
  | not place operand ih => exact (ih o).append (Nodes.settles_ofExpression rfl)
  | binary operator place left right ihLeft ihRight =>
      exact (ihLeft o).append ((ihRight _).append (Nodes.settles_ofExpression rfl))
  | call callee arguments ihCallee ihArguments =>
      exact (ihCallee o).append ((settles_nodesAll_of_forall arguments ihArguments _).append
        (Nodes.settles_ofExpression rfl))

theorem settles_nodesAll (hv : p.Shows functions v) (es : List Expr) (o : Extent) :
    (nodesAll early v o es).Settles p (nodesAll functions v o es) :=
  settles_nodesAll_of_forall es (fun e _ o => settles_nodes hearly hv e o) o

end Expr

theorem Update.settles_nodes (hv : p.Shows functions v) (u : Update) (o : Extent) :
    (u.nodes early v o).Settles p (u.nodes functions v o) := by
  cases u with
  | assign value | add value | subtract value => exact Expr.settles_nodes hearly hv value o
  | increment | decrement => exact Nodes.settles_empty

theorem Simple.settles_nodes (hv : p.Shows functions v) (s : Simple) (o : Extent) :
    (s.nodes early v o).Settles p (s.nodes functions v o) := by
  cases s with
  | call place e =>
      exact (Expr.settles_nodes hearly hv e o).append (Nodes.settles_ofStatement (by simp))
  | change name update =>
      have hchange : (Nodes.ofStatement (.change (v.target name) (update.change o))
          name.position).Settles p
            (Nodes.ofStatement (.change (v.target name) (update.change o)) name.position) := by
        refine ⟨rfl, rfl, ?_⟩
        simp [Nodes.ofStatement, Statement.settle, Sight.settle_target hv]
      exact (Update.settles_nodes hearly hv update o).append
        (hchange.append (Nodes.settles_deferIf _ _ _ _))

theorem Simple.settles_nodes? (hv : p.Shows functions v) (s? : Option Simple) (o : Extent) :
    (Simple.nodes? early v o s?).Settles p (Simple.nodes? functions v o s?) := by
  cases s? with
  | none => exact Nodes.settles_empty
  | some s => exact Simple.settles_nodes hearly hv s o

variable (hp : p.FindsBuiltIn)

include hp

namespace Stmt

omit hearly hp in
theorem settles_nodesAll_of_forall (xs : List Stmt)
    (hxs : ∀ x ∈ xs, ∀ v o, (∀ w ∈ x.sights v o, p.Shows functions w) →
      (x.nodes early v o).Settles p (x.nodes functions v o)) (v : Sight) (o : Extent)
    (hsights : ∀ w ∈ sightsAll v o xs, p.Shows functions w) :
    (nodesAll early v o xs).Settles p (nodesAll functions v o xs) := by
  induction xs generalizing v o with
  | nil => exact Nodes.settles_empty
  | cons x xs ih =>
      rw [sightsAll, List.forall_mem_append] at hsights
      have hrest := ih fun y hy => hxs y (List.mem_cons_of_mem x hy)
      exact (hxs x List.mem_cons_self v o hsights.1).append (hrest _ _ hsights.2)

/-- Settling a statement looks its names up among all the functions of the file, by induction on the
tree. -/
theorem settles_nodes (s : Stmt) (v : Sight) (o : Extent)
    (hsights : ∀ w ∈ s.sights v o, p.Shows functions w) :
    (s.nodes early v o).Settles p (s.nodes functions v o) := by
  induction s generalizing v o with
  | declare place name type =>
      refine (Nodes.settles_ofDeclaration ?_).append ((Nodes.settles_ofStatement (by simp)).append
        (Nodes.settles_deferIf _ _ _ _))
      simp only [Declaration.settle, Sight.settle_type hp]
  | simple s => exact Simple.settles_nodes hearly (hsights v List.mem_cons_self) s o
  | branch place condition thenBlock ih =>
      rw [sights, List.forall_mem_cons] at hsights
      obtain ⟨hv, hthen⟩ := hsights
      have hblock := settles_nodesAll_of_forall thenBlock ih _ _ hthen
      exact (Expr.settles_nodes hearly hv condition o).append
        (hblock.append (Nodes.settles_ofStatement (by simp)))
  | branchElse place condition thenBlock elseBlock ihThen ihElse =>
      rw [sights, List.forall_mem_cons, List.forall_mem_append] at hsights
      obtain ⟨hv, hthen, helse⟩ := hsights
      have hblock := settles_nodesAll_of_forall thenBlock ihThen _ _ hthen
      have hblock' := settles_nodesAll_of_forall elseBlock ihElse _ _ helse
      exact (Expr.settles_nodes hearly hv condition o).append
        (hblock.append (hblock'.append (Nodes.settles_ofStatement (by simp))))
  | whileLoop place condition body ih =>
      rw [sights, List.forall_mem_cons] at hsights
      obtain ⟨hv, hbody⟩ := hsights
      have hblock := settles_nodesAll_of_forall body ih _ _ hbody
      exact (Expr.settles_nodes hearly hv condition o).append
        (hblock.append (Nodes.settles_ofStatement (by simp)))
  | forLoop place init? condition action? body ih =>
      rw [sights, List.forall_mem_cons] at hsights
      obtain ⟨hv, hbody⟩ := hsights
      have hblock := settles_nodesAll_of_forall body ih _ _ hbody
      exact (Simple.settles_nodes? hearly hv init? o).append
        ((Expr.settles_nodes hearly hv condition _).append
          ((Simple.settles_nodes? hearly hv action? _).append
            (hblock.append (Nodes.settles_ofStatement (by simp)))))
  | result place values =>
      have hv := hsights v List.mem_cons_self
      exact (Expr.settles_nodesAll hearly hv values o).append (Nodes.settles_ofStatement (by simp))

theorem settles_nodesAll (xs : List Stmt) (v : Sight) (o : Extent)
    (hsights : ∀ w ∈ sightsAll v o xs, p.Shows functions w) :
    (nodesAll early v o xs).Settles p (nodesAll functions v o xs) :=
  settles_nodesAll_of_forall xs
    (fun x _ v o hsights => settles_nodes hearly hp x v o hsights) v o hsights

end Stmt

omit hearly in
theorem Slot.settles_nodesAll (scope : ScopeId) (slots : List Slot) (o : Extent) :
    (nodesAll scope o slots).Settles p (nodesAll scope o slots) := by
  induction slots generalizing o with
  | nil => exact Nodes.settles_empty
  | cons slot slots ih =>
      refine ((Nodes.settles_ofDeclaration ?_).append (Nodes.settles_deferIf _ _ _ _)).append (ih _)
      simp only [Declaration.settle, Sight.settle_type hp]

theorem Func.settles_nodes (f : Func) (o : Extent)
    (hsights : ∀ w ∈ f.sights o, p.Shows functions w) :
    (f.nodes early o).Settles p (f.nodes functions o) :=
  (Slot.settles_nodesAll hp _ _ _).append ((Slot.settles_nodesAll hp _ _ _).append
    ((Nodes.settles_ofDeclaration rfl).append
      (Stmt.settles_nodesAll hearly hp f.body _ _ hsights)))

end Trees

/-! ### Settling files -/

/-- Functions that are declared later hide none of the earlier ones. -/
theorem lookup_declared {fs : List Func} {noted : List String} (o : Extent)
    (hclear : FileClear (functions.map Prod.fst) noted fs) {name : String} {id : DeclId}
    (hname : functions.lookup name = some id) :
    (declared o functions fs).lookup name = some id := by
  induction fs generalizing o functions noted with
  | nil => exact hname
  | cons f fs ih =>
      obtain ⟨⟨-, ⟨⟨-, hfresh⟩, -⟩, -⟩, hrest⟩ := hclear
      refine ih (o + f.extent) hrest ?_
      have hne : (name == f.name.text) = false := by
        rw [beq_eq_false_iff_ne]
        rintro rfl
        rw [← lookup_eq_none_iff, hname] at hfresh
        cases hfresh
      rw [List.lookup_cons, hne]
      exact hname

/-- **Settling the nodes of a file** gives those in which every function of the file is visible. -/
theorem settles_earlyNodes (hp : p.FindsBuiltIn) (fs : List Func) {noted : List String}
    (hclear : FileClear (functions.map Prod.fst) noted fs)
    (hsights : ∀ w ∈ fileSights o fs, p.Shows (declared o functions fs) w) :
    (earlyNodes o functions fs).Settles p (fileNodes (declared o functions fs) o fs) := by
  induction fs generalizing o functions noted with
  | nil => exact Nodes.settles_empty
  | cons f fs ih =>
      rw [fileSights, List.forall_mem_append] at hsights
      obtain ⟨hf, hfs⟩ := hsights
      have hclear' : FileClear (((f.name.text, f.root o) :: functions).map Prod.fst) _ fs :=
        hclear.2
      have hrest := ih hclear' hfs
      -- what the function sees of the file stays as it is
      have hkept : ∀ name id, ((f.name.text, f.root o) :: functions).lookup name = some id →
          (declared o functions (f :: fs)).lookup name = some id :=
        fun name id hname => lookup_declared (o + f.extent) hclear' hname
      exact (Func.settles_nodes hkept hp f o hf).append hrest

end Syntax

end FrontEnd
