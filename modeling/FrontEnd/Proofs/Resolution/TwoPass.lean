/-
**Two passes.**

Reading a file and resolving what is pending afterwards comes to plain lexical scoping in two
passes: first all functions of the file are declared, then every name is looked up among the visible
variables and, behind them, among the functions.  The program that comes out is laid out in full,
and it comes out exactly if every name that is used is declared.

Main definitions:

* `FrontEnd.Syntax.Nodes.IsResolved` — nodes without pending references;
* `FrontEnd.Syntax.fileLayout`, `FrontEnd.Program.Realizes` — the nodes of a whole file, and the
  programs that consist of them.

Main results:

* `FrontEnd.Syntax.isResolved_fileNodes` — when nothing in the nodes of a file is pending;
* `FrontEnd.parse_two_pass` — reading and resolution together.
-/

import FrontEnd.Proofs.Resolution.LateLookup
import FrontEnd.Proofs.Resolution.Pending
import FrontEnd.Proofs.Syntax.ReadingFile

set_option relaxedAutoImplicit false
set_option autoImplicit false

namespace FrontEnd

open Syntax

namespace Syntax

variable {functions : List (String × DeclId)} {names : List String} {o : Extent} {v : Sight}
  {x y : Nodes}

/-! ### Nodes without pending references -/

/-- No reference in the nodes is pending. -/
structure Nodes.IsResolved (y : Nodes) : Prop where
  types : ∀ v, .var v ∈ y.declarations → v.type.isPending = false
  values : ∀ e ∈ y.expressions, ∀ ref, e.reference? = some ref → ref.isPending = false
  targets : ∀ s ∈ y.statements, ∀ ref, s.target? = some ref → ref.isPending = false

@[simp] theorem Nodes.isResolved_append :
    (x ++ y).IsResolved ↔ x.IsResolved ∧ y.IsResolved := by
  constructor
  · rintro ⟨types, values, targets⟩
    simp only [append_declarations, append_expressions, append_statements, List.mem_append,
      or_imp, forall_and] at types values targets
    exact ⟨⟨types.1, values.1, targets.1⟩, types.2, values.2, targets.2⟩
  · rintro ⟨hx, hy⟩
    refine ⟨fun v hv => ?_, fun e he => ?_, fun s hs => ?_⟩
    · exact (List.mem_append.1 hv).elim (hx.types v) (hy.types v)
    · exact (List.mem_append.1 he).elim (hx.values e) (hy.values e)
    · exact (List.mem_append.1 hs).elim (hx.targets s) (hy.targets s)

@[simp] theorem Nodes.isResolved_empty : ({} : Nodes).IsResolved := by
  constructor <;> simp

@[simp] theorem Nodes.isResolved_deferIf (ref : Reference) (places : Deferred) :
    (deferIf ref places).IsResolved := by
  cases ref <;> constructor <;> simp [deferIf]

@[simp] theorem Nodes.isResolved_func (f : Function) : (ofDeclaration (.func f)).IsResolved := by
  constructor <;> simp [ofDeclaration]

@[simp] theorem Nodes.isResolved_var (v : Variable) :
    (ofDeclaration (.var v)).IsResolved ↔ v.type.isPending = false := by
  constructor
  · intro h
    exact h.types v List.mem_cons_self
  · intro h
    constructor <;> simp [ofDeclaration, h]

@[simp] theorem Nodes.isResolved_ofExpression (e : Expression) :
    (ofExpression e).IsResolved ↔ ∀ ref, e.reference? = some ref → ref.isPending = false := by
  constructor
  · intro h
    exact h.values e List.mem_cons_self
  · intro h
    constructor <;> simp [ofExpression]
    exact h

@[simp] theorem Nodes.isResolved_ofStatement (form : StmtForm) (place : Position) :
    (ofStatement form place).IsResolved ↔
      ∀ ref, (⟨form, place⟩ : Statement).target? = some ref → ref.isPending = false := by
  constructor
  · intro h
    exact h.targets _ List.mem_cons_self
  · intro h
    constructor <;> simp [ofStatement]
    exact h

/-! ### References without a declaration -/

theorem Sight.isPending_type (scope : ScopeId) (name : Name) :
    (Sight.type scope name).isPending = false ↔ IsTypeName name.text := by
  unfold Sight.type
  cases hname : BasicType.ofName? name.text with
  | some b => simpa using ⟨b, BasicType.name_of_ofName? hname⟩
  | none => simpa using ofName?_eq_none_iff.1 hname

/-- A changed variable is known exactly if it is visible. -/
theorem Sight.isPending_target (v : Sight) (name : Name) :
    (v.target name).isPending = false ↔ name.text ∈ v.names := by
  unfold Sight.target
  cases hname : v.locals.lookup name.text with
  | some id =>
      have hmem : name.text ∈ v.names := by
        by_cases hmem : name.text ∈ v.names
        · exact hmem
        · rw [lookup_eq_none_iff.2 hmem] at hname
          cases hname
      simpa using hmem
  | none =>
      have hmem : name.text ∉ v.names := lookup_eq_none_iff.1 hname
      simpa using hmem

/-- A name in an expression is known exactly if it is that of a visible variable or of a
function. -/
theorem Sight.isPending_value (hnames : ∀ name, name ∈ names ↔ name ∈ functions.map Prod.fst)
    (v : Sight) (name : Name) :
    (v.value functions name).isPending = false ↔ name.text ∈ v.names ∨ name.text ∈ names := by
  unfold Sight.value
  rw [hnames, ← Decidable.not_not (p := _ ∨ _), not_or]
  unfold Sight.names
  rw [← lookup_eq_none_iff, ← lookup_eq_none_iff]
  cases v.locals.lookup name.text with
  | some id => simp
  | none => cases functions.lookup name.text <;> simp

@[simp] theorem Sight.names_enter (v : Sight) (o : Extent) : (v.enter o).names = v.names := rfl

/-! ### Trees without pending references -/

section Trees

variable (hnames : ∀ name, name ∈ names ↔ name ∈ functions.map Prod.fst)

include hnames

namespace Expr

omit hnames in
theorem isResolved_nodesAll_of_forall (es : List Expr)
    (hes : ∀ e ∈ es, ∀ o, (e.nodes functions v o).IsResolved ↔ e.WellScoped names v.names)
    (o : Extent) : (nodesAll functions v o es).IsResolved ↔ WellScopedAll names v.names es := by
  induction es generalizing o with
  | nil => simp [nodesAll, WellScopedAll]
  | cons e es ih =>
      have hrest := ih fun e' he' => hes e' (List.mem_cons_of_mem e he')
      rw [nodesAll, Nodes.isResolved_append, hes e List.mem_cons_self, hrest]
      rfl

/-- No name of an expression is pending exactly if all are well scoped, by induction on the tree. -/
theorem isResolved_nodes (e : Expr) (o : Extent) :
    (e.nodes functions v o).IsResolved ↔ e.WellScoped names v.names := by
  induction e generalizing o with
  | literal value place => cases value <;> simp [nodes, WellScoped, Literal.form,
      Expression.reference?]
  | name n =>
      simp [nodes, WellScoped, Expression.reference?, Sight.isPending_value hnames]
  | not place operand ih => simp [nodes, WellScoped, Expression.reference?, ih]
  | binary operator place left right ihLeft ihRight =>
      simp [nodes, WellScoped, Expression.reference?, ihLeft, ihRight]
  | call callee arguments ihCallee ihArguments =>
      simp [nodes, WellScoped, Expression.reference?, ihCallee,
        isResolved_nodesAll_of_forall arguments ihArguments]

theorem isResolved_nodesAll (es : List Expr) (o : Extent) :
    (nodesAll functions v o es).IsResolved ↔ WellScopedAll names v.names es :=
  isResolved_nodesAll_of_forall es (fun e _ o => isResolved_nodes hnames e o) o

end Expr

theorem Update.isResolved_nodes (u : Update) (o : Extent) :
    (u.nodes functions v o).IsResolved ↔ u.WellScoped names v.names := by
  cases u with
  | assign value | add value | subtract value => exact Expr.isResolved_nodes hnames value o
  | increment | decrement => simp [nodes, WellScoped]

theorem Simple.isResolved_nodes (s : Simple) (o : Extent) :
    (s.nodes functions v o).IsResolved ↔ s.WellScoped names v.names := by
  cases s with
  | call place e => simp [nodes, WellScoped, Statement.target?, Expr.isResolved_nodes hnames]
  | change name update =>
      simp [nodes, WellScoped, Statement.target?, Update.isResolved_nodes hnames,
        Sight.isPending_target, and_comm]

theorem Simple.isResolved_nodes? (s? : Option Simple) (o : Extent) :
    (Simple.nodes? functions v o s?).IsResolved ↔ Simple.WellScoped? names v.names s? := by
  cases s? with
  | none => simp [nodes?, WellScoped?]
  | some s => exact Simple.isResolved_nodes hnames s o

namespace Stmt

omit hnames in
theorem isResolved_nodesAll_of_forall (xs : List Stmt)
    (hxs : ∀ x ∈ xs, ∀ v o, (x.nodes functions v o).IsResolved ↔ x.WellScoped names v.names)
    (v : Sight) (o : Extent) :
    (nodesAll functions v o xs).IsResolved ↔ WellScopedAll names v.names xs := by
  induction xs generalizing v o with
  | nil => simp [nodesAll, WellScopedAll]
  | cons x xs ih =>
      have hrest := ih fun y hy => hxs y (List.mem_cons_of_mem x hy)
      rw [nodesAll, Nodes.isResolved_append, hxs x List.mem_cons_self, hrest, names_after]
      rfl

/-- No name of a statement is pending exactly if all are well scoped, by induction on the tree. -/
theorem isResolved_nodes (s : Stmt) (v : Sight) (o : Extent) :
    (s.nodes functions v o).IsResolved ↔ s.WellScoped names v.names := by
  induction s generalizing v o with
  | declare place name type =>
      simp [nodes, WellScoped, Statement.target?, Sight.isPending_type]
  | simple s => exact Simple.isResolved_nodes hnames s o
  | branch place condition thenBlock ih =>
      simp [nodes, WellScoped, Statement.target?, Expr.isResolved_nodes hnames,
        isResolved_nodesAll_of_forall thenBlock ih]
  | branchElse place condition thenBlock elseBlock ihThen ihElse =>
      simp [nodes, WellScoped, Statement.target?, Expr.isResolved_nodes hnames,
        isResolved_nodesAll_of_forall thenBlock ihThen,
        isResolved_nodesAll_of_forall elseBlock ihElse]
  | whileLoop place condition body ih =>
      simp [nodes, WellScoped, Statement.target?, Expr.isResolved_nodes hnames,
        isResolved_nodesAll_of_forall body ih]
  | forLoop place init? condition action? body ih =>
      simp [nodes, WellScoped, Statement.target?, Expr.isResolved_nodes hnames,
        Simple.isResolved_nodes? hnames, isResolved_nodesAll_of_forall body ih]
  | result place values =>
      simp [nodes, WellScoped, Statement.target?, Expr.isResolved_nodesAll hnames]

theorem isResolved_nodesAll (xs : List Stmt) (v : Sight) (o : Extent) :
    (nodesAll functions v o xs).IsResolved ↔ WellScopedAll names v.names xs :=
  isResolved_nodesAll_of_forall xs (fun x _ v o => isResolved_nodes hnames x v o) v o

end Stmt

omit hnames in
theorem Slot.isResolved_nodesAll (scope : ScopeId) (slots : List Slot) (o : Extent) :
    (nodesAll scope o slots).IsResolved ↔ ∀ slot ∈ slots, IsTypeName slot.type.text := by
  induction slots generalizing o with
  | nil => simp [nodesAll]
  | cons slot slots ih => simp [nodesAll, nodes, Sight.isPending_type, ih]

theorem Func.isResolved_nodes (f : Func) (o : Extent) :
    (f.nodes functions o).IsResolved ↔ f.WellScoped names := by
  have hsight : (f.sight o).names = paramNames [] f.parameters := names_parameters _ _ _
  simp [nodes, WellScoped, Slot.isResolved_nodesAll, Stmt.isResolved_nodesAll hnames, hsight,
    Param.slot, Name.slot]

/-- **When nothing is pending**: every name that is used is declared. -/
theorem isResolved_fileNodes (fs : List Func) (o : Extent) :
    (fileNodes functions o fs).IsResolved ↔ ∀ f ∈ fs, f.WellScoped names := by
  induction fs generalizing o with
  | nil => simp [fileNodes]
  | cons f fs ih => simp [fileNodes, Func.isResolved_nodes hnames, ih]

end Trees

/-! ### Whole files -/

theorem mem_declared {fs : List Func} {name : String} :
    name ∈ (declared o functions fs).map Prod.fst ↔
      name ∈ fs.map (fun f => f.name.text) ∨ name ∈ functions.map Prod.fst := by
  induction fs generalizing o functions with
  | nil => simp [declared]
  | cons f fs ih =>
      rw [declared, ih]
      simp only [List.map_cons, List.mem_cons]
      grind

/-- The offset of the first node that a source text makes. -/
def start : Extent := Program.initial.extent

/-- The functions of a file with their declarations. -/
def fileFunctions (fs : List Func) : List (String × DeclId) := declared start [] fs

/-- The nodes of a file in which every function can name every other. -/
def fileLayout (fs : List Func) : Nodes := fileNodes (fileFunctions fs) start fs

/-- In a file nothing is pending exactly if every name that is used is declared. -/
theorem isResolved_fileLayout (fs : List Func) :
    (fileLayout fs).IsResolved ↔ FileWellScoped fs := by
  refine isResolved_fileNodes (fun name => ?_) fs start
  rw [fileFunctions, mem_declared]
  simp

end Syntax

/-! ### Programs of files -/

namespace Program

/-- The program consists of the built-in types and of the nodes of the file, in which every name
stands for the nearest visible variable or else for the function of that name.  Its scopes know the
functions of the file. -/
structure Realizes (p : Program) (fs : List Func) : Prop where
  declarations : p.declarations =
    Program.initial.declarations ++ (fileLayout fs).declarations.toArray
  expressions : p.expressions = (fileLayout fs).expressions.toArray
  statements : p.statements = (fileLayout fs).statements.toArray
  topLevel : p.topLevel = roots start fs
  scopes : ∃ noted, p.scopes.Lexical (fileFunctions fs) noted

/-- A program is resolved exactly if all that its three lists store is. -/
theorem isResolved_iff_mem (p : Program) : p.IsResolved ↔
    (∀ v, .var v ∈ p.declarations → v.type.isPending = false) ∧
      (∀ e ∈ p.expressions, ∀ ref, e.reference? = some ref → ref.isPending = false) ∧
        ∀ s ∈ p.statements, ∀ ref, s.target? = some ref → ref.isPending = false := by
  constructor
  · rintro ⟨types, values, targets⟩
    refine ⟨fun v hv => ?_, fun e he ref href => ?_, fun s hs ref href => ?_⟩
    · obtain ⟨i, hi⟩ := Array.mem_iff_getElem?.1 hv
      exact types ⟨i⟩ v hi
    · obtain ⟨i, hi⟩ := Array.mem_iff_getElem?.1 he
      exact values ⟨i⟩ ref (Option.bind_eq_some_iff.2 ⟨e, hi, href⟩)
    · obtain ⟨i, hi⟩ := Array.mem_iff_getElem?.1 hs
      exact targets ⟨i⟩ ref (Option.bind_eq_some_iff.2 ⟨s, hi, href⟩)
  · rintro ⟨types, values, targets⟩
    refine ⟨fun decl v hv => ?_, fun id ref href => ?_, fun id ref href => ?_⟩
    · exact types v (Array.mem_of_getElem? hv)
    · obtain ⟨e, he, href⟩ := Option.bind_eq_some_iff.1 href
      exact values e (Array.mem_of_getElem? he) ref href
    · obtain ⟨s, hs, href⟩ := Option.bind_eq_some_iff.1 href
      exact targets s (Array.mem_of_getElem? hs) ref href

/-- A program of a file is without pending references exactly if the nodes of the file are. -/
theorem Realizes.isResolved_iff {p : Program} {fs : List Func} (h : p.Realizes fs) :
    p.IsResolved ↔ FileWellScoped fs := by
  have hinitial : ∀ v, Declaration.var v ∉ Program.initial.declarations := by
    intro v hv
    simp [Program.initial, BasicType.all] at hv
  rw [isResolved_iff_mem, ← isResolved_fileLayout, h.declarations, h.expressions, h.statements]
  constructor
  · rintro ⟨types, values, targets⟩
    refine ⟨fun v hv => types v ?_, fun e he => values e ?_, fun s hs => targets s ?_⟩
    · exact Array.mem_append.2 (.inr (List.mem_toArray.2 hv))
    · exact List.mem_toArray.2 he
    · exact List.mem_toArray.2 hs
  · rintro ⟨types, values, targets⟩
    refine ⟨fun v hv => types v ?_, fun e he => values e ?_, fun s hs => targets s ?_⟩
    · exact List.mem_toArray.1 ((Array.mem_append.1 hv).resolve_left (hinitial v))
    · exact List.mem_toArray.1 he
    · exact List.mem_toArray.1 hs

end Program

/-! ### Making a file -/

namespace Draft

/-- The draft of a source text of which nothing was read. -/
def initial : Draft := ⟨.initial, {}⟩

theorem stands_initial : initial.Stands start [] [] := ⟨rfl, ScopeTree.lexical_initial⟩

/-- The draft is that of a file as it is read: names are looked up among the functions before, and
the scopes that come out see what is visible. -/
def IsReading (d : Draft) (fs : List Func) : Prop :=
  ∃ scopes noted, scopes.Lexical (fileFunctions fs) noted ∧
    (∀ v ∈ fileSights start fs, scopes.Sees v.scope v.locals) ∧
      d = ((initial.add (earlyNodes start [] fs)).withScopes scopes).addTopLevel (roots start fs)

end Draft

/-- A file can be made exactly if its names are distinct. -/
theorem Syntax.buildFile_initial_meets (fs : List Func) :
    Run.Meets (buildFile fs) Draft.initial (FileClear [] [] fs) fun _ d => d.IsReading fs := by
  refine (buildFile_meets fs Draft.stands_initial).imp Iff.rfl ?_
  rintro _ d ⟨noted, d₁, hbuilt, rfl⟩
  refine ⟨d₁.program.scopes, noted, hbuilt.stands.lexical, hbuilt.sights, ?_⟩
  rw [← hbuilt.eq]

namespace Draft

variable {d : Draft} {fs : List Func}

/-- The lists of a file hold all its pending references. -/
theorem IsReading.lists (h : d.IsReading fs) : Program.Lists d.program d.deferred := by
  obtain ⟨scopes, noted, -, -, rfl⟩ := h
  have hresolved : Program.initial.IsResolved := by
    rw [Program.isResolved_iff_mem]
    simp [Program.initial, BasicType.all]
  have hlisted : (earlyNodes start [] fs).Listed initial.program.extent :=
    nodewise_listed.earlyNodes fs start []
  have hstatements : ∀ id, Draft.initial.program.statement? id = none := by
    intro id
    simp [Program.statement?, initial, Program.initial]
  have hlists := Program.lists_add hresolved (by simp [hstatements]) hlisted
  exact ⟨hlists.types, hlists.values, hlists.targets, hlists.fields, hlists.declares⟩

/-- **Settling a file that was read** gives the nodes in which every function is visible. -/
theorem IsReading.realizes (h : d.IsReading fs) (hclear : FileClear [] [] fs) :
    d.program.settled.Realizes fs := by
  obtain ⟨scopes, noted, hlexical, hsees, rfl⟩ := h
  generalize hq : (((initial.add (earlyNodes start [] fs)).withScopes scopes).addTopLevel
    (roots start fs)).program = q
  have hscopes : q.scopes = scopes := by
    rw [← hq]
    rfl
  have hsettles : (earlyNodes start [] fs).Settles q (fileLayout fs) := by
    rw [← hscopes] at hlexical hsees
    exact settles_earlyNodes (Program.findsBuiltIn_of_lexical hlexical) fs hclear
      fun v hv => Program.shows_of_sees hlexical (hsees v hv)
  refine ⟨?_, ?_, ?_, ?_, noted, ?_⟩
  · have hinitial : Program.initial.declarations.map (Declaration.settle q.findType?) =
        Program.initial.declarations := by
      simp [Program.initial, BasicType.all, Declaration.settle]
    have hdeclarations : q.declarations =
        Program.initial.declarations ++ (earlyNodes start [] fs).declarations.toArray := by
      rw [← hq]
      rfl
    change q.declarations.map (Declaration.settle q.findType?) = _
    rw [hdeclarations, Array.map_append, hinitial, List.map_toArray, hsettles.declarations]
  · have hexpressions : q.expressions = (earlyNodes start [] fs).expressions.toArray := by
      rw [← hq]
      exact Array.empty_append
    change q.expressions.map (Expression.settle q.findValue?) = _
    rw [hexpressions, List.map_toArray, hsettles.expressions]
  · have hstatements : q.statements = (earlyNodes start [] fs).statements.toArray := by
      rw [← hq]
      exact Array.empty_append
    change q.statements.map (Statement.settle q.findVariable?) = _
    rw [hstatements, List.map_toArray, hsettles.statements]
  · rw [← hq]
    rfl
  · change q.scopes.Lexical (fileFunctions fs) noted
    rw [hscopes]
    exact hlexical

end Draft

/-! ### Reading and resolving -/

variable {tokens : List Token} {p : Program} {d : Deferred}

/-- The tokens of a file that was read spell trees, and its nodes are made from them. -/
theorem spelled_of_parseFile (h : parseFile tokens = .ok (p, d)) :
    ∃ fs, FileSpelled fs tokens ∧ buildFile fs Draft.initial = .ok () ⟨p, d⟩ := by
  unfold parseFile at h
  cases hfile : Parser.file .standard (.ofTokens tokens) with
  | error e s => simp [hfile] at h
  | ok u s =>
      simp only [hfile, Except.ok.injEq, Prod.mk.injEq] at h
      obtain ⟨rfl, rfl⟩ := h
      obtain ⟨fs, d, hspelled, hbuild, rfl⟩ := Parser.file_ok hfile
      exact ⟨fs, hspelled, hbuild⟩

/-- What is known of a file that was read. -/
theorem isReading_of_parseFile (h : parseFile tokens = .ok (p, d)) :
    ∃ fs, FileSpelled fs tokens ∧ FileClear [] [] fs ∧ (Draft.mk p d).IsReading fs := by
  obtain ⟨fs, hspelled, hbuild⟩ := spelled_of_parseFile h
  obtain ⟨hclear, hreading⟩ := (buildFile_initial_meets fs).of_ok hbuild
  exact ⟨fs, hspelled, hclear, hreading⟩

theorem parse_eq_ok_iff (h : parseFile tokens = .ok (p, d)) {q : Program} :
    parse tokens = .ok q ↔ Program.resolve d p = .ok () q := by
  unfold parse
  simp only [h]
  cases Program.resolve d p <;> simp

/-- A file that can be read is resolved exactly if every name that is used is declared. -/
theorem parse_of_isReading {fs : List Func} (h : parseFile tokens = .ok (p, d))
    (hclear : FileClear [] [] fs) (hreading : (Draft.mk p d).IsReading fs) {q : Program} :
    parse tokens = .ok q ↔ FileWellScoped fs ∧ q = p.settled := by
  have hrealizes : p.settled.Realizes fs := hreading.realizes hclear
  have hlists : Program.Lists p d := hreading.lists
  rw [parse_eq_ok_iff h, Program.resolve_ok_iff hlists, hrealizes.isResolved_iff]

/-- **Reading and resolving is lexical scoping in two passes.**  The tokens of a file that can be
read spell trees.  Their names are resolved exactly if every one of them is declared: a name in an
expression as a visible variable or as a function anywhere in the file, a changed variable as a
visible variable, and a type as a built-in one.  Then every node is that of the trees, with the
names resolved in this way. -/
theorem parse_two_pass (h : parseFile tokens = .ok (p, d)) :
    ∃ fs, FileSpelled fs tokens ∧ ((∃ q, parse tokens = .ok q) ↔ FileWellScoped fs) ∧
      ∀ q, parse tokens = .ok q → q.Realizes fs ∧ q.IsResolved := by
  obtain ⟨fs, hspelled, hclear, hreading⟩ := isReading_of_parseFile h
  have hrealizes : p.settled.Realizes fs := hreading.realizes hclear
  refine ⟨fs, hspelled, ?_, ?_⟩
  · constructor
    · rintro ⟨q, hq⟩
      exact ((parse_of_isReading h hclear hreading).1 hq).1
    · intro hscoped
      exact ⟨_, (parse_of_isReading h hclear hreading).2 ⟨hscoped, rfl⟩⟩
  · intro q hq
    obtain ⟨hscoped, rfl⟩ := (parse_of_isReading h hclear hreading).1 hq
    exact ⟨hrealizes, hrealizes.isResolved_iff.2 hscoped⟩

/-- What is known of the program of a file. -/
theorem realizes_of_parse {q : Program} (h : parse tokens = .ok q) :
    ∃ fs, FileSpelled fs tokens ∧ FileClear [] [] fs ∧ FileWellScoped fs ∧ q.Realizes fs := by
  cases hread : parseFile tokens with
  | error e => simp [parse, hread] at h
  | ok result =>
      obtain ⟨p, d⟩ := result
      obtain ⟨fs, hspelled, hclear, hreading⟩ := isReading_of_parseFile hread
      obtain ⟨hscoped, rfl⟩ := (parse_of_isReading hread hclear hreading).1 h
      exact ⟨fs, hspelled, hclear, hscoped, hreading.realizes hclear⟩

/-- A file with a function that calls another one above its declaration. -/
def forwardCall : List Token :=
  tokensOf "func f(n Int) \x7b var m Int; m = n; g(m); \x7d func g(n Int) \x7b\x7d"

/-- A function can be named before it is declared, and a variable from its declaration on. -/
theorem parse_two_pass_forwardCall : ∃ p d, parseFile forwardCall = .ok (p, d) ∧
    ∃ fs, FileSpelled fs forwardCall ∧ ((∃ q, parse forwardCall = .ok q) ↔ FileWellScoped fs) ∧
      ∀ q, parse forwardCall = .ok q → q.Realizes fs ∧ q.IsResolved := by
  have hread : (parseFile forwardCall).toOption.isSome = true := by decide +kernel
  obtain ⟨⟨p, d⟩, h⟩ := Run.exists_of_isSome hread
  exact ⟨p, d, h, parse_two_pass h⟩

end FrontEnd
