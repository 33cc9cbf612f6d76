/-
**Making functions and files.**

The parameters of a function are declared in its scope one after the other, then the function is
declared in the file, and then its body is made.  So a function can name itself and the functions
before it, and a file can be made exactly if its names are distinct.

Main results:

* `FrontEnd.Syntax.Func.build_meets` — when a function can be made, and its nodes;
* `FrontEnd.Syntax.buildFile_meets` — when a file can be made, and its nodes.
-/

import FrontEnd.Proofs.Layout.Building

set_option relaxedAutoImplicit false
set_option autoImplicit false

namespace FrontEnd.Syntax

open Draft Run ScopeTree

variable {d d' : Draft} {o : Extent} {functions : List (String × DeclId)} {noted : List String}
  {v : Sight}

/-! ### Parameters and results -/

theorem buildField_eq (h : d.Stands o functions noted) (slot : Slot) (scope : ScopeId) :
    buildField slot.name? (Sight.type scope slot.type) slot.position d =
      .ok { name? := slot.name?, decl := ⟨o.decls⟩ } (d.add (slot.nodes scope o)) := by
  rw [Slot.nodes, ← add_add]
  exact bind_ok (addDeclaration_eq h.extent _) (bind_ok (deferIf_eq _ _ (addField_eq _ _)) rfl)

/-- A variable is declared in place. -/
theorem declare_meets (name : Name) (decl : DeclId) (h : d.Stands o functions noted)
    (hv : d.Sees v) :
    Meets (Draft.onProgram (Program.declare v.scope .var name.text decl name.position)) d
      ((name.text ∉ v.names ∧ ¬ IsTypeName name.text) ∧ name.text ∉ functions.map Prod.fst)
      fun _ d' => Built v.scope.index d o functions (name.text :: noted) {} [] d' ∧
        d'.Sees ⟨v.scope, (name.text, decl) :: v.locals⟩ := by
  have hdeclare : ∀ {t'},
      d.program.scopes.declare v.scope .var name.text decl name.position = .ok t' ↔ _ ∧ _ :=
    declare_var_ok_iff h.lexical hv
  rw [← free_iff]
  constructor
  · intro u d' hok
    cases hres : d.program.scopes.declare v.scope .var name.text decl name.position with
    | error e => simp [Draft.onProgram, Program.declare, hres] at hok
    | ok t =>
        simp only [Draft.onProgram, Program.declare, hres] at hok
        cases hok
        obtain ⟨hfree, rfl⟩ := hdeclare.1 hres
        refine ⟨hfree, ⟨⟨?_, lexical_bindVar h.lexical hv.inner⟩, ?_, ?_,
          keepsBelow_bindVar hv.inner, ?_⟩, sees_bindVar h.lexical hv⟩
        · rw [← h.extent]
          ext <;> simp [Program.extent, size_bindVar]
        · rw [add_empty]
          rfl
        · simp only [size_bindVar]
          exact Nat.le_of_lt hv.lt_size
        · exact fun _ hw => absurd hw List.not_mem_nil
  · intro hfree
    refine ⟨(), d.withScopes (d.program.scopes.bindVar v.scope name.text decl name.position
      hv.inner), ?_⟩
    simp only [Draft.onProgram, Program.declare, hdeclare.2 ⟨hfree, rfl⟩]
    rfl

theorem not_mem_nil_sights {n : Nat} : ∀ w ∈ ([] : List Sight), w.scope.index < n :=
  fun _ hw => absurd hw List.not_mem_nil

/-- A parameter is laid out as a slot and becomes visible, if its name is free. -/
theorem Param.build_meets (p : Param) (h : d.Stands o functions noted) (hv : d.Sees v) :
    Meets (p.build v.scope) d
      ((p.name.text ∉ v.names ∧ ¬ IsTypeName p.name.text) ∧
        p.name.text ∉ functions.map Prod.fst)
      fun field d' => field = { name? := some p.name.text, decl := ⟨o.decls⟩ } ∧
        Built v.scope.index d (o + .decl) functions (p.name.text :: noted)
          (p.slot.nodes v.scope o) [] d' ∧
        d'.Sees ⟨v.scope, (p.name.text, ⟨o.decls⟩) :: v.locals⟩ := by
  have hlt : v.scope.index ≤ o.scopes := h.size ▸ Nat.le_of_lt hv.lt_size
  have h₁ := (h.add (p.slot.nodes v.scope o)).mono hlt
  rw [Slot.count_nodes] at h₁
  rw [Param.build]
  refine Meets.bind_eq rfl ?_
  simp only [h.typeReference_eq hv]
  refine Meets.bind_eq (buildField_eq h p.slot v.scope) ?_
  refine (declare_meets p.name ⟨o.decls⟩ h₁.stands hv).bind_always fun _ d₂ hdeclared => ?_
  obtain ⟨h₂, hsees⟩ := hdeclared
  exact Meets.of_eq rfl ⟨rfl, (h₁.trans h₂ (Nat.le_refl _) not_mem_nil_sights).imp rfl rfl
    (by simp [Slot.nodes]) fun _ hw => hw, hsees⟩

/-- Parameters are declared one after the other. -/
theorem buildParams_meets (ps : List Param) (h : d.Stands o functions noted) (hv : d.Sees v) :
    Meets (buildItems (Param.build v.scope) ps) d
      (ParamsDistinct v.names ps ∧ ∀ p ∈ ps, p.name.text ∉ functions.map Prod.fst)
      fun fields d' => fields = Slot.fields o (ps.map Param.slot) ∧
        Built v.scope.index d (o + .ofDecls ps.length) functions (paramNames noted ps)
          (Slot.nodesAll v.scope o (ps.map Param.slot)) [] d' ∧ d'.Sees (v.parameters o ps) := by
  induction ps generalizing d o noted v with
  | nil =>
      have hlt : v.scope.index ≤ o.scopes := h.size ▸ Nat.le_of_lt hv.lt_size
      have hbuilt := (h.add {}).mono hlt
      rw [add_empty] at hbuilt
      exact Meets.imp (Meets.of_eq rfl ⟨rfl, hbuilt, hv⟩) (by simp [ParamsDistinct]) id
  | cons p ps ih =>
      rw [buildItems]
      refine Meets.imp (c := _ ∧ ((ParamsDistinct (p.name.text :: v.names) ps ∧
          ∀ q ∈ ps, q.name.text ∉ functions.map Prod.fst) ∧ True))
        ((Param.build_meets p h hv).bind fun field d₁ hfield => ?_) ?_ id
      · obtain ⟨rfl, h₁, hsees₁⟩ := hfield
        refine (ih h₁.stands hsees₁).bind fun fields d₂ hfields => ?_
        obtain ⟨rfl, h₂, hsees₂⟩ := hfields
        refine Meets.of_eq rfl ⟨rfl, (h₁.trans h₂ (Nat.le_refl _) not_mem_nil_sights).imp ?_ rfl rfl
          fun _ hw => hw, hsees₂⟩
        rw [Extent.add_assoc]
        simp [Extent.ext_iff, Extent.decl, Extent.ofDecls, Nat.add_comm]
      · simp only [ParamsDistinct, List.mem_cons]
        grind

/-- The results of a function have no names that could be taken. -/
theorem buildResults_eq (types : List Name) (h : d.Stands o functions noted) (hv : d.Sees v) :
    buildItems (Name.buildResult v.scope) types d =
      .ok (Slot.fields o (types.map Name.slot))
        (d.add (Slot.nodesAll v.scope o (types.map Name.slot))) := by
  induction types generalizing d o with
  | nil =>
      rw [List.map_nil, Slot.nodesAll, add_empty]
      rfl
  | cons type types ih =>
      have h₁ := (h.add (type.slot.nodes v.scope o)).stands
      rw [Slot.count_nodes] at h₁
      have hfield : type.buildResult v.scope d =
          .ok { name? := none, decl := ⟨o.decls⟩ } (d.add (type.slot.nodes v.scope o)) := by
        refine bind_ok rfl ?_
        rw [h.typeReference_eq hv]
        exact buildField_eq h type.slot v.scope
      rw [List.map_cons, Slot.nodesAll, ← add_add]
      exact bind_ok hfield (bind_ok (ih h₁ hv) rfl)

/-! ### Functions -/

/-- A function is entered. -/
theorem newScope_function_ok (h : d.Stands o functions noted) :
    ∃ d', Draft.onProgram (Program.newScope .function .file) d = .ok ⟨o.scopes⟩ d' ∧
      Built o.scopes d (o + .scope) functions noted {} [] d' ∧ d'.Sees ⟨⟨o.scopes⟩, []⟩ := by
  have hnext : d.program.scopes.next = ⟨o.scopes⟩ := congrArg ScopeId.mk h.size
  obtain ⟨hlexical, hsees⟩ := ScopeTree.nest_function h.lexical
  rw [hnext] at hsees
  have hkeeps : KeepsBelow d.program.scopes.scopes.size d.program.scopes
      (d.program.scopes.nest .function .file).2 := keepsBelow_push
  have hsize : (d.program.scopes.nest .function .file).2.scopes.size =
      d.program.scopes.scopes.size + 1 := size_push
  refine ⟨d.withScopes (d.program.scopes.nest .function .file).2, ?_,
    ⟨⟨?_, hlexical⟩, ?_, ?_, ?_, ?_⟩, hsees⟩
  · simp only [Draft.onProgram, Program.newScope]
    exact congrArg (EStateM.Result.ok · _) hnext
  · rw [← h.extent]
    ext <;> simp [Program.extent, Extent.scope, Draft.withScopes, hsize]
  · rw [add_empty]
    rfl
  · rw [← h.size, withScopes_scopes]
    omega
  · rw [← h.size]
    exact hkeeps
  · exact fun _ hw => absurd hw List.not_mem_nil

/-- A function is declared in the file. -/
theorem declare_func_meets (name : Name) (decl : DeclId) (h : d.Stands o functions noted) :
    Meets (Draft.onProgram (Program.declare .file .func name.text decl name.position)) d
      ((¬ IsTypeName name.text ∧ name.text ∉ functions.map Prod.fst) ∧ name.text ∉ noted)
      fun _ d' => Built o.scopes d o ((name.text, decl) :: functions) noted {} [] d' ∧
        ∀ v, d.Sees v → d'.Sees v := by
  have hdeclare : ∀ {t'},
      d.program.scopes.declare .file .func name.text decl name.position = .ok t' ↔ _ ∧ _ :=
    declare_func_ok_iff h.lexical
  have hlexical : (d.program.scopes.bindFunc name.text decl name.position).Lexical
      ((name.text, decl) :: functions) noted := lexical_bindFunc h.lexical
  have hfree : Free functions [] name.text ↔
      ¬ IsTypeName name.text ∧ name.text ∉ functions.map Prod.fst := by
    rw [Free, lookup_eq_none_iff, lookup_eq_none_iff, ofName?_eq_none_iff]
    simp
  rw [← hfree]
  constructor
  · intro u d' hok
    cases hres : d.program.scopes.declare .file .func name.text decl name.position with
    | error e => simp [Draft.onProgram, Program.declare, hres] at hok
    | ok t =>
        simp only [Draft.onProgram, Program.declare, hres] at hok
        cases hok
        obtain ⟨hfree, rfl⟩ := hdeclare.1 hres
        refine ⟨hfree, ⟨⟨?_, hlexical⟩, ?_, ?_, keepsBelow_bindFunc _, ?_⟩, fun v hv => ?_⟩
        · rw [← h.extent]
          ext <;> simp [Program.extent, size_bindFunc]
        · rw [add_empty]
          rfl
        · simp only [size_bindFunc]
          exact Nat.le_of_eq h.size.symm
        · exact fun _ hw => absurd hw List.not_mem_nil
        · exact ScopeTree.Sees.of_keepsBelow hv h.lexical hlexical (keepsBelow_bindFunc _)
            hv.lt_size
  · intro hfree
    refine ⟨(), d.withScopes (d.program.scopes.bindFunc name.text decl name.position), ?_⟩
    simp only [Draft.onProgram, Program.declare, hdeclare.2 ⟨hfree, rfl⟩]
    rfl

/-- Changing one of several items that were added changes what was added. -/
theorem modify_append_cons {α : Type} (a : Array α) (l r : List α) (x : α) (change : α → α) :
    (a ++ (l ++ x :: r).toArray).modify (a.size + l.length) change =
      a ++ (l ++ change x :: r).toArray := by
  apply Array.ext'
  have hmodify := List.modifyTailIdx_add (List.modifyHead change) 0 (a.toList ++ l) (x :: r)
  simpa [List.modify] using hmodify

/-- The body is put into the declaration of a function that was added. -/
theorem setBody_add {x y : Nodes} {f : Function} {body : List StmtId} (t : ScopeTree)
    (hd : d.program.extent = o) :
    ((d.add (x ++ (.ofDeclaration (.func f) ++ y))).withScopes t).program.setBody
        ⟨o.decls + x.declarations.length⟩ body =
      ((d.add (x ++ (.ofDeclaration (.func { f with body }) ++ y))).withScopes t).program := by
  subst hd
  unfold Program.setBody Program.modifyDeclaration
  simp only [Draft.withScopes, Draft.add, Program.mk.injEq, and_self, and_true]
  exact ⟨modify_append_cons d.program.declarations x.declarations y.declarations (.func f) _, rfl,
    rfl⟩

/-- What is known after the body of a function is put into its declaration. -/
theorem built_setBody {n : Nat} {x y : Nodes} {f : Function} {sights : List Sight}
    {o' : Extent} (body : List StmtId) (hd : d.program.extent = o)
    (h : Built n d o' functions noted (x ++ (.ofDeclaration (.func f) ++ y)) sights d') :
    Built n d o' functions noted (x ++ (.ofDeclaration (.func { f with body }) ++ y)) sights
      { d' with program := d'.program.setBody ⟨o.decls + x.declarations.length⟩ body } := by
  have heq : d'.program.setBody ⟨o.decls + x.declarations.length⟩ body =
      ((d.add (x ++ (.ofDeclaration (.func { f with body }) ++ y))).withScopes
        d'.program.scopes).program := by
    rw [← setBody_add d'.program.scopes hd, ← h.eq]
  have hextent : (d'.program.setBody ⟨o.decls + x.declarations.length⟩ body).extent = o' := by
    rw [← h.stands.extent]
    simp [Program.extent, Program.setBody, Program.modifyDeclaration]
  have hdeferred : d'.deferred =
      (d.add (x ++ (.ofDeclaration (.func { f with body }) ++ y))).deferred := by
    rw [h.eq]
    rfl
  refine ⟨⟨hextent, h.stands.lexical⟩, ?_, h.size, h.keeps, h.sights⟩
  rw [hdeferred, heq]
  rfl

theorem names_parameters (v : Sight) (o : Extent) (ps : List Param) :
    (v.parameters o ps).names = paramNames v.names ps := by
  induction ps generalizing v o with
  | nil => rfl
  | cons p ps ih =>
      rw [Sight.parameters, ih]
      rfl

theorem paramNames_append (visible noted : List String) (ps : List Param) :
    paramNames (visible ++ noted) ps = paramNames visible ps ++ noted := by
  induction ps generalizing visible with
  | nil => rfl
  | cons p ps ih => exact ih (p.name.text :: visible)

/-- The nodes of the parameters and the results. -/
def Func.slotNodes (f : Func) (o : Extent) : Nodes :=
  Slot.nodesAll ⟨o.scopes⟩ (o + .scope) (f.parameters.map Param.slot) ++
    Slot.nodesAll ⟨o.scopes⟩ (f.resultsAt o) (f.results.map Name.slot)

/-- The function is declared behind its parameters and its results. -/
theorem Func.behind_slotNodes (f : Func) (o : Extent) :
    (⟨o.decls + (f.slotNodes o).declarations.length⟩ : DeclId) = f.root o := by
  have hcount : (f.slotNodes o).count =
      .ofDecls f.parameters.length + .ofDecls f.results.length := by
    simp [Func.slotNodes]
  have hlength := congrArg Extent.decls hcount
  simp only [Nodes.count, Extent.add_decls, Extent.ofDecls] at hlength
  rw [hlength, Func.root, Nat.add_assoc]

/-- **When a function can be made**, and its nodes. -/
theorem Func.build_meets (f : Func) (h : d.Stands o functions noted) :
    Meets (f.build .file) d (f.Clear (functions.map Prod.fst) noted)
      fun decl d' => decl = f.root o ∧
        Built o.scopes d (o + f.extent) ((f.name.text, f.root o) :: functions) (f.names ++ noted)
          (f.nodes ((f.name.text, f.root o) :: functions) o) (f.sights o) d' := by
  obtain ⟨d₀, hentered, h₀, hsees₀⟩ := newScope_function_ok h
  -- first the parameters, then the results, which have no names
  have hparams := buildParams_meets f.parameters h₀.stands hsees₀
  rw [Func.build]
  refine Meets.bind_eq hentered (Meets.imp (hparams.bind (k := ((¬ IsTypeName f.name.text ∧
    f.name.text ∉ functions.map Prod.fst) ∧ f.name.text ∉ paramNames noted f.parameters) ∧
      Stmt.ClearAll (f.name.text :: functions.map Prod.fst) (paramNames [] f.parameters) f.body)
        fun parameters d₁ hparameters => ?_) Iff.rfl id)
  obtain ⟨rfl, h₁, hsees₁⟩ := hparameters
  have h₂ := h₁.stands.add (Slot.nodesAll ⟨o.scopes⟩ (f.resultsAt o) (f.results.map Name.slot))
  rw [Slot.count_nodesAll, List.length_map] at h₂
  have hresults := buildResults_eq f.results h₁.stands hsees₁
  rw [Sight.scope_parameters] at hresults
  have h₃ := h₂.stands.add (.ofDeclaration (.func { f.header o with body := [] }))
  have hadded := addDeclaration_eq h₂.stands.extent (.func { f.header o with body := [] })
  have hroot : (⟨(o + .scope + .ofDecls f.parameters.length + .ofDecls f.results.length).decls⟩ :
      DeclId) = f.root o := by
    simp [Func.root, Extent.scope, Extent.ofDecls]
  rw [hroot] at hadded
  refine Meets.bind_eq hresults (Meets.bind_eq hadded ?_)
  -- the function is declared before its body is made, so that it can call itself
  refine (declare_func_meets f.name (f.root o) h₃.stands).bind fun _ d₄ hdeclared => ?_
  obtain ⟨h₄, hkept⟩ := hdeclared
  have hsees₄ : d₄.Sees (f.sight o) := hkept _ hsees₁
  have hbody := Stmt.buildAll_meets f.body h₄.stands hsees₄
  rw [Func.sight, Sight.scope_parameters, names_parameters] at hbody
  refine hbody.bind_always fun ids d₅ hids => ?_
  obtain ⟨rfl, h₅⟩ := hids
  have hall := h₀.trans (h₁.trans_keeping (h₂.trans_keeping (h₃.trans_keeping
    (h₄.trans_keeping h₅)))) (Nat.le_refl _) not_mem_nil_sights
  -- the declaration was made with an empty body, which is put in at last
  have hset := built_setBody (Stmt.roots (f.bodyAt o) f.body) h.extent
    (hall.imp (y := f.slotNodes o ++ (.ofDeclaration (.func { f.header o with body := [] }) ++ _))
      rfl rfl (by rw [Nodes.empty_append, Nodes.empty_append, Func.slotNodes, Nodes.append_assoc])
        fun _ hw => hw)
  rw [f.behind_slotNodes] at hset
  refine Meets.of_eq (bind_ok rfl rfl) ⟨rfl, hset.imp ?_ ?_ ?_ ?_⟩
  · simp [Extent.ext_iff, Func.extent, Extent.scope, Extent.ofDecls, Extent.decl]
    omega
  · rw [Func.names, List.append_assoc, ← paramNames_append]
    rfl
  · rw [Func.slotNodes, Nodes.append_assoc]
    rfl
  · intro w hw
    exact hw

/-! ### Files -/

/-- The functions of the file can be told afterwards. -/
theorem built_of_addTopLevel {n : Nat} {ids : List DeclId} {y : Nodes} {sights : List Sight}
    (h : Built n (d.addTopLevel ids) o functions noted y sights d') :
    ∃ d'', Built n d o functions noted y sights d'' ∧ d' = d''.addTopLevel ids := by
  refine ⟨(d.add y).withScopes d'.program.scopes, ⟨⟨?_, h.stands.lexical⟩, rfl, h.size, h.keeps,
    h.sights⟩, h.eq⟩
  have hextent := h.stands.extent
  rw [h.eq] at hextent
  exact hextent

/-- **When a file can be made**, and its nodes. -/
theorem buildFile_meets (fs : List Func) (h : d.Stands o functions noted) :
    Meets (buildFile fs) d (FileClear (functions.map Prod.fst) noted fs)
      fun _ d' => ∃ noted' d₁, Built o.scopes d (o + extents fs) (declared o functions fs) noted'
        (earlyNodes o functions fs) (fileSights o fs) d₁ ∧ d' = d₁.addTopLevel (roots o fs) := by
  induction fs generalizing d o functions noted with
  | nil =>
      have hbuilt := h.add {}
      rw [add_empty] at hbuilt
      refine Meets.of_eq rfl ⟨noted, d, hbuilt, ?_⟩
      simp [Draft.addTopLevel, roots]
  | cons f fs ih =>
      rw [buildFile]
      refine (Func.build_meets f h).bind fun decl d₁ hf => ?_
      obtain ⟨rfl, h₁⟩ := hf
      -- the list of functions has no part in what stands
      have hstands : (d₁.addTopLevel [f.root o]).Stands (o + f.extent)
          ((f.name.text, f.root o) :: functions) (f.names ++ noted) :=
        ⟨h₁.stands.extent, h₁.stands.lexical⟩
      refine Meets.bind_eq rfl ((ih hstands).imp Iff.rfl ?_)
      rintro _ d' ⟨noted', d₂', h₂', rfl⟩
      obtain ⟨d₂, h₂, rfl⟩ := built_of_addTopLevel h₂'
      refine ⟨noted', d₂, (h₁.trans_keeping h₂).imp ?_ rfl rfl fun _ hw => hw, ?_⟩
      · rw [Extent.add_assoc]
        rfl
      · simp [Draft.addTopLevel, roots]

end FrontEnd.Syntax
