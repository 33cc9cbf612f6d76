/-
**Which files are accepted.**

Whether a name clashes is found out in different ways.  A variable of a function clashes with a
function above it because that one is visible, and with a function below it because the file's scope
remembers the names that were declared inside of its functions.  Both come to the same: no function
has a name that is declared a second time anywhere in the file.  So the files that can be read and
resolved are those that are spelled by trees with distinct names in which every name that is used is
declared, and the order of the functions has no part in it.

Main results:

* `FrontEnd.Syntax.fileClear_iff` — the names of a file can be declared one after the other exactly
  if they are distinct;
* `FrontEnd.parse_ok_iff` — the files that are accepted;
* `FrontEnd.Syntax.FileDistinct.perm`, `FrontEnd.Syntax.FileWellScoped.perm` — the functions in
  another order.
-/

import FrontEnd.Proofs.Resolution.TwoPass
import FrontEnd.Proofs.Syntax.RetracingFile

set_option relaxedAutoImplicit false
set_option autoImplicit false

namespace FrontEnd.Syntax

variable {functions noted : List String} {fs fs' : List Func}

/-! ### Declaring one after the other -/

theorem mem_paramNames {visible : List String} {ps : List Param} {x : String} :
    x ∈ paramNames visible ps ↔ (∃ p ∈ ps, p.name.text = x) ∨ x ∈ visible := by
  induction ps generalizing visible with
  | nil => simp [paramNames]
  | cons p ps ih =>
      rw [paramNames, ih]
      simp only [List.mem_cons, exists_eq_or_imp]
      grind

theorem mem_names {f : Func} {x : String} :
    x ∈ f.names ↔ x ∈ Stmt.namesAll f.body ∨ ∃ p ∈ f.parameters, p.name.text = x := by
  rw [Func.names, List.mem_append, mem_paramNames]
  simp

/-- What it takes to declare the names of one function. -/
theorem Func.clear_iff (f : Func) : f.Clear functions noted ↔
    f.Distinct ∧ ¬ IsTypeName f.name.text ∧ f.name.text ∉ functions ∧ f.name.text ∉ noted ∧
      f.name.text ∉ f.names ∧ ∀ x ∈ f.names, x ∉ functions := by
  simp only [Func.Clear, Func.Distinct, Stmt.ClearAll, mem_names, mem_paramNames, List.mem_cons]
  grind

/-- What it takes to declare the names of some functions, one after the other. -/
theorem fileClear_iff_of (fs : List Func) : FileClear functions noted fs ↔
    FileDistinct fs ∧ ∀ f ∈ fs, f.name.text ∉ functions ∧ f.name.text ∉ noted ∧
      ∀ x ∈ f.names, x ∉ functions := by
  induction fs generalizing functions noted with
  | nil => simp [FileClear, FileDistinct]
  | cons f fs ih =>
      rw [FileClear, Func.clear_iff, ih]
      -- the functions below meet the name of `f` among the functions, and its variables among the
      -- names that were noted
      simp only [FileDistinct, List.map_cons, List.nodup_cons, List.mem_map, List.mem_cons,
        List.mem_append]
      grind

/-- **The names of a file can be declared one after the other** exactly if they are distinct. -/
theorem fileClear_iff (fs : List Func) : FileClear [] [] fs ↔ FileDistinct fs := by
  rw [fileClear_iff_of]
  simp

/-! ### Another order -/

theorem FileDistinct.perm (h : FileDistinct fs) (hperm : fs.Perm fs') : FileDistinct fs' := by
  refine ⟨(hperm.map _).nodup_iff.1 h.1, fun f hf => ?_⟩
  obtain ⟨hdistinct, htype, hnames⟩ := h.2 f (hperm.mem_iff.2 hf)
  exact ⟨hdistinct, htype, fun g hg => hnames g (hperm.mem_iff.2 hg)⟩

/-- Which names can be used depends on the functions as a set. -/
theorem Func.wellScoped_congr (f : Func) {names names' : List String}
    (h : ∀ x, x ∈ names ↔ x ∈ names') : f.WellScoped names ↔ f.WellScoped names' := by
  -- both tell that nothing is pending in the same nodes
  let functions : List (String × DeclId) := names.map fun x => (x, ⟨0⟩)
  have hfst : functions.map Prod.fst = names := by
    simp [functions, List.map_map, Function.comp_def]
  have hnames : ∀ x, x ∈ names ↔ x ∈ functions.map Prod.fst := fun x => by rw [hfst]
  have hnames' : ∀ x, x ∈ names' ↔ x ∈ functions.map Prod.fst := fun x => by rw [hfst, h]
  exact (f.isResolved_nodes hnames {}).symm.trans (f.isResolved_nodes hnames' {})

theorem FileWellScoped.perm (h : FileWellScoped fs) (hperm : fs.Perm fs') : FileWellScoped fs' := by
  intro f hf
  refine (f.wellScoped_congr fun x => ?_).1 (h f (hperm.mem_iff.2 hf))
  exact (hperm.map _).mem_iff

end FrontEnd.Syntax

namespace FrontEnd

open Syntax

/-! ### Spelled files -/

variable {fs : List Func} {tokens : List Token} {d : Draft}

/-- A spelled file is read if its nodes can be made. -/
theorem parseFile_of_spelled (h : FileSpelled fs tokens)
    (hbuild : buildFile fs Draft.initial = .ok () d) :
    parseFile tokens = .ok (d.program, d.deferred) := by
  have hfile := Parser.file_of_spelled h (s := .ofTokens tokens) rfl hbuild
  unfold parseFile
  rw [hfile]
  rfl

/-- What is read and resolved from a spelled file whose nodes can be made. -/
theorem parse_of_spelled (h : FileSpelled fs tokens)
    (hbuild : buildFile fs Draft.initial = .ok () d) :
    FileClear [] [] fs ∧ d.program.settled.Realizes fs ∧
      ∀ q, parse tokens = .ok q ↔ FileWellScoped fs ∧ q = d.program.settled := by
  obtain ⟨hclear, hreading⟩ := (buildFile_initial_meets fs).of_ok hbuild
  exact ⟨hclear, hreading.realizes hclear, fun q =>
    parse_of_isReading (parseFile_of_spelled h hbuild) hclear hreading⟩

/-- A spelled file with distinct names, in which every name that is used is declared, is
accepted. -/
theorem exists_parse_of_spelled (h : FileSpelled fs tokens) (hdistinct : FileDistinct fs)
    (hscoped : FileWellScoped fs) : ∃ q, parse tokens = .ok q ∧ q.Realizes fs := by
  obtain ⟨_, d, hbuild⟩ := (buildFile_initial_meets fs).exists_ok ((fileClear_iff fs).2 hdistinct)
  obtain ⟨-, hrealizes, hparse⟩ := parse_of_spelled h hbuild
  exact ⟨_, (hparse _).2 ⟨hscoped, rfl⟩, hrealizes⟩

/-- **Which files are accepted**: those that are spelled by trees with distinct names, in which every
name that is used is declared. -/
theorem parse_ok_iff : (∃ q, parse tokens = .ok q) ↔
    ∃ fs, FileSpelled fs tokens ∧ FileDistinct fs ∧ FileWellScoped fs := by
  constructor
  · rintro ⟨q, hq⟩
    obtain ⟨fs, hspelled, hclear, hscoped, -⟩ := realizes_of_parse hq
    exact ⟨fs, hspelled, (fileClear_iff fs).1 hclear, hscoped⟩
  · rintro ⟨fs, hspelled, hdistinct, hscoped⟩
    obtain ⟨q, hq, -⟩ := exists_parse_of_spelled hspelled hdistinct hscoped
    exact ⟨q, hq⟩

end FrontEnd
