/-
**The nodes of a tree behind another offset.**

The offset behind which the nodes of a tree are made shows in their numbers only.  When a renaming
shifts the numbers from one offset to another one, and the functions that can be named are renamed
with them, it takes the nodes behind the one offset to the nodes behind the other.

Main results:

* `FrontEnd.Syntax.Expr.rename_nodes`, `FrontEnd.Syntax.Stmt.rename_nodes`,
  `FrontEnd.Syntax.Func.rename_nodes` — the nodes of each sort of tree.
-/

import FrontEnd.Proofs.Layout.Nodewise
import FrontEnd.Proofs.Order.Renaming

set_option relaxedAutoImplicit false
set_option autoImplicit false

namespace FrontEnd.Syntax

variable {ρ : Renaming} {functions functions' : List (String × DeclId)} {o o' : Extent}

/-! ### Names -/

def Sight.rename (ρ : Renaming) (v : Sight) : Sight :=
  ⟨ρ.scope v.scope, v.locals.map fun x => (x.1, ρ.decl x.2)⟩

theorem lookup_map_snd (locals : List (String × DeclId)) (name : String) :
    (locals.map fun x => (x.1, ρ.decl x.2)).lookup name = (locals.lookup name).map ρ.decl := by
  induction locals with
  | nil => rfl
  | cons x locals ih =>
      obtain ⟨key, decl⟩ := x
      rw [List.map_cons, List.lookup_cons, List.lookup_cons, ih]
      cases name == key <;> rfl

theorem Sight.rename_type (hρ : ρ.KeepsTypes) (scope : ScopeId) (name : Name) :
    (Sight.type scope name).rename ρ = Sight.type (ρ.scope scope) name := by
  rw [Sight.type, Reference.rename_ofFound, Option.map_map, Sight.type]
  cases BasicType.ofName? name.text with
  | none => rfl
  | some b => rw [Option.map_some, Function.comp_apply, hρ b]; rfl

theorem Sight.rename_target (v : Sight) (name : Name) :
    (v.target name).rename ρ = (v.rename ρ).target name := by
  rw [Sight.target, Reference.rename_ofFound, ← lookup_map_snd]
  rfl

theorem Sight.rename_value (hfunctions : ρ.Finds functions functions') (v : Sight) (name : Name) :
    (v.value functions name).rename ρ = (v.rename ρ).value functions' name := by
  rw [Sight.value, Reference.rename_ofFound, Sight.value, Sight.rename, lookup_map_snd,
    hfunctions]
  cases v.locals.lookup name.text <;> rfl

theorem Sight.rename_enter (v : Sight) (h : ρ.Shifts o o' .scope) :
    (v.enter o).rename ρ = (v.rename ρ).enter o' := by
  rw [Sight.enter, Sight.rename, h.scope]
  rfl

theorem Sight.rename_declare (v : Sight) (name : Name) (h : ρ.Shifts o o' (.decl + .scope)) :
    (v.declare o name).rename ρ = (v.rename ρ).declare o' name := by
  obtain ⟨hdecl, hscope⟩ := Renaming.shifts_add.1 h
  have hscope : ρ.scope ⟨o.scopes⟩ = ⟨o'.scopes⟩ := hscope.scope
  rw [Sight.declare, Sight.rename, hscope, List.map_cons, hdecl.decl]
  rfl

/-! ### Expressions -/

namespace Expr

theorem rename_root (e : Expr) (h : ρ.Shifts o o' (.ofExprs e.size)) :
    ρ.expr (e.root o) = e.root o' := by
  have hpos := e.size_pos
  have hlast := h.exprs (e.size - 1) (by simp only [Extent.ofExprs]; omega)
  rw [root, root, Renaming.expr, Nat.add_sub_assoc hpos, Nat.add_sub_assoc hpos, hlast]

theorem rename_roots (es : List Expr) (h : ρ.Shifts o o' (.ofExprs (sizes es))) :
    (roots o es).map ρ.expr = roots o' es := by
  induction es generalizing o o' with
  | nil => rfl
  | cons e es ih =>
      obtain ⟨he, hes⟩ := Renaming.shifts_exprs.1 h
      rw [roots, List.map_cons, rename_root e he, ih hes]
      rfl

variable (hρ : ρ.KeepsTypes) (hfunctions : ρ.Finds functions functions') {v : Sight}

/-- A list of expressions is shifted if each of them is. -/
theorem rename_nodesAll_of_forall (es : List Expr)
    (hes : ∀ e ∈ es, ∀ {o o'}, ρ.Shifts o o' (.ofExprs e.size) →
      (e.nodes functions v o).rename ρ = e.nodes functions' (v.rename ρ) o')
    (h : ρ.Shifts o o' (.ofExprs (sizes es))) :
    (nodesAll functions v o es).rename ρ = nodesAll functions' (v.rename ρ) o' es := by
  induction es generalizing o o' with
  | nil => rfl
  | cons e es ih =>
      obtain ⟨he, hrest⟩ := Renaming.shifts_exprs.1 h
      rw [nodesAll, Nodes.rename_append, hes e List.mem_cons_self he,
        ih (fun e' he' => hes e' (List.mem_cons_of_mem e he')) hrest]
      rfl

include hρ hfunctions

/-- The nodes of an expression behind another offset. -/
theorem rename_nodes (e : Expr) (h : ρ.Shifts o o' (.ofExprs e.size)) :
    (e.nodes functions v o).rename ρ = e.nodes functions' (v.rename ρ) o' := by
  induction e generalizing o o' with
  | literal value place =>
      rw [nodes, Nodes.rename_ofExpression, Expression.rename]
      rw [Option.map_some, List.map_cons, hρ value.type]
      cases value <;> rfl
  | name n =>
      have hroot : ρ.expr ⟨o.exprs⟩ = ⟨o'.exprs⟩ := rename_root (.name n) h
      rw [nodes, nodes, ← Sight.rename_value hfunctions, ← hroot]
      simp [Expression.rename, ExprForm.rename, Deferred.rename]
  | not place operand ih =>
      obtain ⟨hoperand, -⟩ := Renaming.shifts_exprs.1 h
      rw [nodes, nodes, Nodes.rename_append, ih hoperand, ← rename_root operand hoperand]
      rfl
  | binary operator place left right ihLeft ihRight =>
      obtain ⟨hparts, -⟩ := Renaming.shifts_exprs.1 h
      obtain ⟨hleft, hright⟩ := Renaming.shifts_exprs.1 hparts
      rw [nodes, nodes, Nodes.rename_append, Nodes.rename_append, ihLeft hleft, ihRight hright,
        ← rename_root left hleft, ← rename_root right hright]
      rfl
  | call callee arguments ihCallee ihArguments =>
      obtain ⟨hparts, -⟩ := Renaming.shifts_exprs.1 h
      obtain ⟨hcallee, harguments⟩ := Renaming.shifts_exprs.1 hparts
      rw [nodes, nodes, Nodes.rename_append, Nodes.rename_append, ihCallee hcallee,
        rename_nodesAll_of_forall arguments (fun e he => ihArguments e he) harguments,
        ← rename_root callee hcallee, ← rename_roots arguments harguments]
      rfl

theorem rename_nodesAll (es : List Expr) (h : ρ.Shifts o o' (.ofExprs (sizes es))) :
    (nodesAll functions v o es).rename ρ = nodesAll functions' (v.rename ρ) o' es :=
  rename_nodesAll_of_forall es (fun e _ _ _ he => rename_nodes hρ hfunctions e he) h

end Expr

/-! ### Statements -/

section Statements

variable (hρ : ρ.KeepsTypes) (hfunctions : ρ.Finds functions functions') {v : Sight}

theorem Update.rename_change (u : Update) (h : ρ.Shifts o o' (.ofExprs u.size)) :
    (u.change o).rename ρ = u.change o' := by
  cases u with
  | assign value => exact congrArg Change.assign (Expr.rename_root value h)
  | add value => exact congrArg Change.add (Expr.rename_root value h)
  | subtract value => exact congrArg Change.subtract (Expr.rename_root value h)
  | increment | decrement => rfl

include hρ hfunctions in
theorem Update.rename_nodes (u : Update) (h : ρ.Shifts o o' (.ofExprs u.size)) :
    (u.nodes functions v o).rename ρ = u.nodes functions' (v.rename ρ) o' := by
  cases u with
  | assign value | add value | subtract value => exact Expr.rename_nodes hρ hfunctions value h
  | increment | decrement => rfl

theorem Simple.rename_root (s : Simple) (h : ρ.Shifts o o' s.extent) :
    ρ.stmt (root o) = root o' := by
  cases s with
  | call place e =>
      have hlast : ρ.stmt ⟨o.stmts⟩ = ⟨o'.stmts⟩ := (Renaming.shifts_add.1 h).2.stmt
      exact hlast
  | change name u =>
      have hlast : ρ.stmt ⟨o.stmts⟩ = ⟨o'.stmts⟩ := (Renaming.shifts_add.1 h).2.stmt
      exact hlast

theorem Simple.rename_root? (s? : Option Simple) (h : ρ.Shifts o o' (Simple.extent? s?)) :
    (root? o s?).map ρ.stmt = root? o' s? := by
  cases s? with
  | none => rfl
  | some s => exact congrArg some (Simple.rename_root s h)

include hρ hfunctions in
/-- The nodes of a statement without blocks behind another offset. -/
theorem Simple.rename_nodes (s : Simple) (h : ρ.Shifts o o' s.extent) :
    (s.nodes functions v o).rename ρ = s.nodes functions' (v.rename ρ) o' := by
  have hroot := Simple.rename_root s h
  cases s with
  | call place e =>
      obtain ⟨he, -⟩ := Renaming.shifts_add.1 h
      rw [nodes, nodes, Nodes.rename_append, Expr.rename_nodes hρ hfunctions e he,
        ← Expr.rename_root e he]
      rfl
  | change name u =>
      obtain ⟨hu, -⟩ := Renaming.shifts_add.1 h
      rw [nodes, nodes, Nodes.rename_append, Nodes.rename_append, Nodes.rename_deferIf,
        Update.rename_nodes hρ hfunctions u hu, Sight.rename_target, ← Update.rename_change u hu,
        ← Sight.rename_target, ← hroot]
      rfl

include hρ hfunctions in
theorem Simple.rename_nodes? (s? : Option Simple) (h : ρ.Shifts o o' (Simple.extent? s?)) :
    (Simple.nodes? functions v o s?).rename ρ = Simple.nodes? functions' (v.rename ρ) o' s? := by
  cases s? with
  | none => rfl
  | some s => exact Simple.rename_nodes hρ hfunctions s h

end Statements

namespace Stmt

theorem rename_root (s : Stmt) (h : ρ.Shifts o o' s.extent) : ρ.stmt (s.root o) = s.root o' := by
  have hpos := s.stmts_pos
  have hlast := h.stmts (s.extent.stmts - 1) (by omega)
  rw [root, root, Renaming.stmt, Nat.add_sub_assoc hpos, Nat.add_sub_assoc hpos, hlast]

theorem rename_roots (xs : List Stmt) (h : ρ.Shifts o o' (extents xs)) :
    (roots o xs).map ρ.stmt = roots o' xs := by
  induction xs generalizing o o' with
  | nil => rfl
  | cons x xs ih =>
      obtain ⟨hx, hxs⟩ := Renaming.shifts_add.1 h
      rw [roots, List.map_cons, rename_root x hx, ih hxs]
      rfl

theorem rename_block (xs : List Stmt) (h : ρ.Shifts o o' (.scope + extents xs)) :
    (block o xs).rename ρ = block o' xs := by
  obtain ⟨hscope, hxs⟩ := Renaming.shifts_add.1 h
  rw [block, Block.rename, rename_roots xs hxs, hscope.scope]
  rfl

theorem rename_after (s : Stmt) (v : Sight) (h : ρ.Shifts o o' s.extent) :
    (s.after v o).rename ρ = s.after (v.rename ρ) o' := by
  cases s with
  | declare place name type => exact Sight.rename_declare v name (Renaming.shifts_add.1 h).1
  | _ => rfl

/-- A list of statements is shifted if each of them is. -/
theorem rename_nodesAll_of_forall (xs : List Stmt)
    (hxs : ∀ x ∈ xs, ∀ {v o o'}, ρ.Shifts o o' x.extent →
      (x.nodes functions v o).rename ρ = x.nodes functions' (v.rename ρ) o')
    {v : Sight} (h : ρ.Shifts o o' (extents xs)) :
    (nodesAll functions v o xs).rename ρ = nodesAll functions' (v.rename ρ) o' xs := by
  induction xs generalizing v o o' with
  | nil => rfl
  | cons x xs ih =>
      obtain ⟨hx, hrest⟩ := Renaming.shifts_add.1 h
      rw [nodesAll, Nodes.rename_append, hxs x List.mem_cons_self hx,
        ih (fun y hy => hxs y (List.mem_cons_of_mem x hy)) hrest, rename_after x v hx]
      rfl

/-- The statements of a block behind another offset. -/
theorem rename_inner (xs : List Stmt)
    (hxs : ∀ x ∈ xs, ∀ {v o o'}, ρ.Shifts o o' x.extent →
      (x.nodes functions v o).rename ρ = x.nodes functions' (v.rename ρ) o')
    {v : Sight} (h : ρ.Shifts o o' (.scope + extents xs)) :
    (nodesAll functions (v.enter o) (o + .scope) xs).rename ρ =
      nodesAll functions' ((v.rename ρ).enter o') (o' + .scope) xs := by
  obtain ⟨hscope, hrest⟩ := Renaming.shifts_add.1 h
  rw [rename_nodesAll_of_forall xs hxs hrest, Sight.rename_enter v hscope]

section Nodes

variable (hρ : ρ.KeepsTypes) (hfunctions : ρ.Finds functions functions')

include hρ hfunctions

/-- The nodes of a statement behind another offset. -/
theorem rename_nodes (s : Stmt) {v : Sight} (h : ρ.Shifts o o' s.extent) :
    (s.nodes functions v o).rename ρ = s.nodes functions' (v.rename ρ) o' := by
  induction s generalizing v o o' with
  | declare place name type =>
      obtain ⟨hparts, hlast⟩ := Renaming.shifts_add.1 h
      have hdecl : ρ.decl ⟨o.decls⟩ = ⟨o'.decls⟩ := (Renaming.shifts_add.1 hparts).1.decl
      have hstmt : ρ.stmt ⟨o.stmts⟩ = ⟨o'.stmts⟩ := hlast.stmt
      have htype : (Sight.type v.scope type).rename ρ = Sight.type (v.rename ρ).scope type :=
        Sight.rename_type hρ v.scope type
      rw [nodes, nodes, Nodes.rename_append, Nodes.rename_append, Nodes.rename_deferIf, ← htype,
        ← hdecl, ← hstmt]
      rfl
  | simple s => exact Simple.rename_nodes hρ hfunctions s h
  | branch place condition thenBlock ih =>
      obtain ⟨hparts, -⟩ := Renaming.shifts_add.1 h
      obtain ⟨hcondition, hthen⟩ := Renaming.shifts_add.1 hparts
      rw [nodes, nodes, Nodes.rename_append, Nodes.rename_append,
        Expr.rename_nodes hρ hfunctions condition hcondition,
        rename_inner thenBlock (fun x hx => ih x hx) hthen,
        ← Expr.rename_root condition hcondition, ← rename_block thenBlock hthen]
      rfl
  | branchElse place condition thenBlock elseBlock ihThen ihElse =>
      obtain ⟨hparts, -⟩ := Renaming.shifts_add.1 h
      obtain ⟨hparts, helse⟩ := Renaming.shifts_add.1 hparts
      obtain ⟨hcondition, hthen⟩ := Renaming.shifts_add.1 hparts
      rw [← Extent.add_assoc o, ← Extent.add_assoc o'] at helse
      rw [nodes, nodes, Nodes.rename_append, Nodes.rename_append, Nodes.rename_append,
        Expr.rename_nodes hρ hfunctions condition hcondition,
        rename_inner thenBlock (fun x hx => ihThen x hx) hthen,
        rename_inner elseBlock (fun x hx => ihElse x hx) helse,
        ← Expr.rename_root condition hcondition, ← rename_block thenBlock hthen,
        ← rename_block elseBlock helse]
      rfl
  | whileLoop place condition body ih =>
      obtain ⟨hparts, -⟩ := Renaming.shifts_add.1 h
      obtain ⟨hcondition, hbody⟩ := Renaming.shifts_add.1 hparts
      rw [nodes, nodes, Nodes.rename_append, Nodes.rename_append,
        Expr.rename_nodes hρ hfunctions condition hcondition,
        rename_inner body (fun x hx => ih x hx) hbody,
        ← Expr.rename_root condition hcondition, ← rename_block body hbody]
      rfl
  | forLoop place init? condition action? body ih =>
      obtain ⟨hparts, -⟩ := Renaming.shifts_add.1 h
      obtain ⟨hparts, hbody⟩ := Renaming.shifts_add.1 hparts
      obtain ⟨hparts, haction⟩ := Renaming.shifts_add.1 hparts
      obtain ⟨hinit, hcondition⟩ := Renaming.shifts_add.1 hparts
      rw [← Extent.add_assoc o, ← Extent.add_assoc o'] at haction
      rw [← Extent.add_assoc o, ← Extent.add_assoc o, ← Extent.add_assoc o',
        ← Extent.add_assoc o'] at hbody
      rw [nodes, nodes, Nodes.rename_append, Nodes.rename_append, Nodes.rename_append,
        Nodes.rename_append, Simple.rename_nodes? hρ hfunctions init? hinit,
        Expr.rename_nodes hρ hfunctions condition hcondition,
        Simple.rename_nodes? hρ hfunctions action? haction,
        rename_inner body (fun x hx => ih x hx) hbody, ← Simple.rename_root? init? hinit,
        ← Expr.rename_root condition hcondition, ← Simple.rename_root? action? haction,
        ← rename_block body hbody]
      rfl
  | result place values =>
      obtain ⟨hvalues, -⟩ := Renaming.shifts_add.1 h
      rw [nodes, nodes, Nodes.rename_append, Expr.rename_nodesAll hρ hfunctions values hvalues,
        ← Expr.rename_roots values hvalues]
      rfl

theorem rename_nodesAll (xs : List Stmt) {v : Sight} (h : ρ.Shifts o o' (extents xs)) :
    (nodesAll functions v o xs).rename ρ = nodesAll functions' (v.rename ρ) o' xs :=
  rename_nodesAll_of_forall xs (fun x _ _ _ _ hx => rename_nodes hρ hfunctions x hx) h

end Nodes

end Stmt

/-! ### Functions -/

namespace Slot

theorem rename_fields (slots : List Slot) (h : ρ.Shifts o o' (.ofDecls slots.length)) :
    (fields o slots).map (Field.rename ρ) = fields o' slots := by
  induction slots generalizing o o' with
  | nil => rfl
  | cons slot slots ih =>
      obtain ⟨hslot, hslots⟩ := Renaming.shifts_decls.1 h
      rw [fields, List.map_cons, ih hslots, Field.rename, hslot.decl]
      rfl

theorem rename_nodesAll (hρ : ρ.KeepsTypes) {scope : ScopeId} (slots : List Slot)
    (h : ρ.Shifts o o' (.ofDecls slots.length)) :
    (nodesAll scope o slots).rename ρ = nodesAll (ρ.scope scope) o' slots := by
  induction slots generalizing o o' with
  | nil => rfl
  | cons slot slots ih =>
      obtain ⟨hslot, hslots⟩ := Renaming.shifts_decls.1 h
      rw [nodesAll, Nodes.rename_append, ih hslots, nodesAll, nodes, nodes, Nodes.rename_append,
        Nodes.rename_deferIf, ← hslot.decl, ← Sight.rename_type hρ]
      rfl

end Slot

theorem Sight.rename_parameters (v : Sight) (ps : List Param)
    (h : ρ.Shifts o o' (.ofDecls ps.length)) :
    (v.parameters o ps).rename ρ = (v.rename ρ).parameters o' ps := by
  induction ps generalizing v o o' with
  | nil => rfl
  | cons p ps ih =>
      obtain ⟨hp, hps⟩ := Renaming.shifts_decls.1 h
      rw [Sight.parameters, ih _ hps, Sight.rename, List.map_cons, hp.decl]
      rfl

namespace Func

/-- The parts of a function are shifted with it: its scope, the variables of its signature, its
declaration and its body. -/
theorem shifts_parts (f : Func) (h : ρ.Shifts o o' f.extent) :
    ρ.Shifts o o' .scope ∧ ρ.Shifts (o + .scope) (o' + .scope) (.ofDecls f.parameters.length) ∧
      ρ.Shifts (f.resultsAt o) (f.resultsAt o') (.ofDecls f.results.length) ∧
        ρ.decl (f.root o) = f.root o' ∧
          ρ.Shifts (f.bodyAt o) (f.bodyAt o') (Stmt.extents f.body) := by
  have hextent : f.extent = .scope + .ofDecls f.parameters.length +
      .ofDecls f.results.length + .decl + Stmt.extents f.body := by
    ext <;> simp [extent, Extent.scope, Extent.ofDecls, Extent.decl]
  rw [hextent] at h
  obtain ⟨h, hbody⟩ := Renaming.shifts_add.1 h
  obtain ⟨h, hroot⟩ := Renaming.shifts_add.1 h
  obtain ⟨h, hresults⟩ := Renaming.shifts_add.1 h
  obtain ⟨hscope, hparameters⟩ := Renaming.shifts_add.1 h
  simp only [← Extent.add_assoc] at hbody hroot hresults
  exact ⟨hscope, hparameters, hresults, hroot.decl, hbody⟩

theorem rename_root (f : Func) (h : ρ.Shifts o o' f.extent) : ρ.decl (f.root o) = f.root o' :=
  (f.shifts_parts h).2.2.2.1

theorem rename_header (f : Func) (h : ρ.Shifts o o' f.extent) :
    (f.header o).rename ρ = f.header o' := by
  obtain ⟨hscope, hparameters, hresults, -, hbody⟩ := f.shifts_parts h
  have hparameters' := Slot.rename_fields (f.parameters.map Param.slot)
    (by rwa [List.length_map])
  have hresults' := Slot.rename_fields (f.results.map Name.slot) (by rwa [List.length_map])
  rw [header, header, Function.rename, hparameters', hresults', Stmt.rename_roots f.body hbody,
    hscope.scope]

theorem rename_sight (f : Func) (h : ρ.Shifts o o' f.extent) :
    (f.sight o).rename ρ = f.sight o' := by
  obtain ⟨hscope, hparameters, -⟩ := f.shifts_parts h
  rw [sight, Sight.rename_parameters _ f.parameters hparameters, Sight.rename, hscope.scope]
  rfl

/-- **The nodes of a function behind another offset.** -/
theorem rename_nodes (hρ : ρ.KeepsTypes) (hfunctions : ρ.Finds functions functions') (f : Func)
    (h : ρ.Shifts o o' f.extent) : (f.nodes functions o).rename ρ = f.nodes functions' o' := by
  obtain ⟨hscope, hparameters, hresults, -, hbody⟩ := f.shifts_parts h
  rw [nodes, nodes, Nodes.rename_append, Nodes.rename_append, Nodes.rename_append,
    Slot.rename_nodesAll hρ _ (by rwa [List.length_map]),
    Slot.rename_nodesAll hρ _ (by rwa [List.length_map]), Nodes.rename_ofDeclaration,
    Stmt.rename_nodesAll hρ hfunctions f.body hbody, rename_sight f h, hscope.scope,
    Declaration.rename, rename_header f h]

end Func

theorem rename_roots (fs : List Func) (h : ρ.Shifts o o' (extents fs)) :
    (roots o fs).map ρ.decl = roots o' fs := by
  induction fs generalizing o o' with
  | nil => rfl
  | cons f fs ih =>
      obtain ⟨hf, hfs⟩ := Renaming.shifts_add.1 h
      rw [roots, List.map_cons, f.rename_root hf, ih hfs]
      rfl

end FrontEnd.Syntax
