/-
**The functions of a file, its scope and its start.**

A function is declared in the scope of the file while it is still being read: behind its parameters
and before its body, and before it is noted as a function of the file.  When the file is read, the
scope and the list agree all the same.  What the scope of the file knows are the functions in the
list under their names and nothing else; so their names differ, and so do their symbols.  The
function that a program starts in is the one in the list that is called `main`, wherever it stands.

Main definitions:

* `FrontEnd.Program.IsNamed` — the name of a function;
* `FrontEnd.Program.FileScopeAgrees` — the scope of the file and the functions of the file tell the
  same.

Main results:

* `FrontEnd.Program.HasFunctions.fileScopeAgrees` — programs that have the functions of a file;
* `FrontEnd.parseFile_topLevel` — the scope of a file that was read, and where the file starts.
-/

import FrontEnd.Proofs.Order.Moving
import FrontEnd.Proofs.Printing.ReadingBack
import FrontEnd.Proofs.Resolution.Acceptance
import FrontEnd.Proofs.Typing.Accepted
import Mathlib.Data.List.Nodup

set_option relaxedAutoImplicit false
set_option autoImplicit false

namespace FrontEnd

open Run Syntax

/-! ### Places and roots -/

namespace Syntax

variable {o : Extent} {fs : List Func}

theorem roots_eq_map_places : roots o fs = (places o fs).map fun x => x.2.root x.1 := by
  induction fs generalizing o with
  | nil => rfl
  | cons f fs ih => rw [roots, places, List.map_cons, ih]

theorem map_snd_places (o : Extent) (fs : List Func) : (places o fs).map Prod.snd = fs := by
  induction fs generalizing o with
  | nil => rfl
  | cons f fs ih => rw [places, List.map_cons, ih]

end Syntax

/-- Functions of different names have different symbols. -/
theorem Function.symbol_eq_symbol_iff {f g : Function} : f.symbol = g.symbol ↔ f.name = g.name :=
  String.append_right_inj _

namespace Program

variable {p q : Program} {fs : List Func}

/-! ### The functions of a file -/

/-- The declaration is that of a function of the given name. -/
def IsNamed (p : Program) (id : DeclId) (name : String) : Prop :=
  ∃ f, p.function? id = some f ∧ f.name = name

/-- The scope of the file knows the functions of the file under their names, and nothing else.  All
names differ, and so do all symbols. -/
structure FileScopeAgrees (p : Program) : Prop where
  isFunction : ∀ id ∈ p.topLevel, ∃ f, p.function? id = some f
  names : ((p.topLevel.filterMap p.function?).map Function.name).Nodup
  symbols : ((p.topLevel.filterMap p.function?).map Function.symbol).Nodup
  scope : ∃ scope, p.scopes.scope? .file = some scope ∧ scope.kind = .file ∧
    (∀ name id, (scope.get? .func name).map Entry.declaration = some id ↔
      id ∈ p.topLevel ∧ p.IsNamed id name) ∧
    ∀ kind name, kind ≠ .func → scope.get? kind name = none

/-- The program has the functions of the file, each behind the ones before it, and its scopes know
them. -/
structure HasFunctions (p : Program) (fs : List Func) : Prop where
  topLevel : p.topLevel = roots start fs
  function : ∀ x ∈ places start fs, p.function? (x.2.root x.1) = some (x.2.header x.1)
  scopes : ∃ noted, p.scopes.Lexical (fileFunctions fs) noted

/-- The nodes of a file make its functions, each at its place. -/
theorem Holds.function?_root {o : Extent} {functions : List (String × DeclId)}
    (h : p.Holds o (earlyNodes o functions fs)) :
    ∀ x ∈ places o fs, p.function? (x.2.root x.1) = some (x.2.header x.1) := by
  induction fs generalizing o functions with
  | nil => exact fun _ hx => by cases hx
  | cons f fs ih =>
      rw [earlyNodes] at h
      intro x hx
      rcases List.mem_cons.1 hx with rfl | hx
      · rw [function?, declaration?_root f o h.left]
      · exact ih (h.right _ (by simp [Extent.SameNodes, Func.count_nodes])) x hx

/-- Settling changes no function. -/
theorem function?_settled (p : Program) (id : DeclId) :
    p.settled.function? id = p.function? id := by
  rw [function?, function?, declaration?_settled]
  cases p.declaration? id with
  | none => rfl
  | some d => cases d <;> rfl

theorem HasFunctions.settled (h : p.HasFunctions fs) : p.settled.HasFunctions fs where
  topLevel := h.topLevel
  function x hx := by rw [function?_settled, h.function x hx]
  scopes := h.scopes

namespace HasFunctions

variable (h : p.HasFunctions fs)

include h

/-- A function of the file is found in it by the name that was written for it. -/
theorem mem_topLevel_and_isNamed_iff {id : DeclId} {name : String} :
    id ∈ p.topLevel ∧ p.IsNamed id name ↔
      ∃ x f, (x, f) ∈ places start fs ∧ f.name.text = name ∧ f.root x = id := by
  rw [h.topLevel, roots_eq_map_places, List.mem_map]
  constructor
  · rintro ⟨⟨⟨x, f⟩, hmem, rfl⟩, g, hg, rfl⟩
    rw [h.function _ hmem] at hg
    obtain rfl := Option.some.inj hg
    exact ⟨x, f, hmem, rfl, rfl⟩
  · rintro ⟨x, f, hmem, rfl, rfl⟩
    exact ⟨⟨(x, f), hmem, rfl⟩, f.header x, h.function _ hmem, rfl⟩

/-- When the names differ, looking one up leads to the function of the file that has it. -/
theorem lookup_fileFunctions_iff (hnames : (fs.map fun f => f.name.text).Nodup) {id : DeclId}
    {name : String} :
    (fileFunctions fs).lookup name = some id ↔ id ∈ p.topLevel ∧ p.IsNamed id name := by
  rw [h.mem_topLevel_and_isNamed_iff, fileFunctions, lookup_declared_iff hnames]
  simp

theorem map_name_topLevel :
    (p.topLevel.filterMap p.function?).map Function.name = fs.map fun f => f.name.text := by
  have hheaders : p.topLevel.filterMap p.function? =
      (places start fs).map fun x => x.2.header x.1 := by
    rw [h.topLevel, roots_eq_map_places, List.filterMap_map, ← List.filterMap_eq_map]
    exact List.filterMap_congr h.function
  have hnames := congrArg (List.map fun f : Func => f.name.text) (map_snd_places start fs)
  rw [List.map_map] at hnames
  rw [hheaders, List.map_map]
  exact hnames

/-- The scope of the file agrees with the functions of the file, if their names differ. -/
theorem fileScopeAgrees (hnames : (fs.map fun f => f.name.text).Nodup) : p.FileScopeAgrees := by
  have hdistinct : ((p.topLevel.filterMap p.function?).map Function.name).Nodup := by
    rwa [h.map_name_topLevel]
  refine ⟨fun id hid => ?_, hdistinct, ?_, ?_⟩
  · rw [h.topLevel, roots_eq_map_places, List.mem_map] at hid
    obtain ⟨x, hx, rfl⟩ := hid
    exact ⟨_, h.function x hx⟩
  · refine List.Nodup.map_on ?_ (List.Nodup.of_map _ hdistinct)
    intro f hf g hg hsymbols
    exact List.inj_on_of_nodup_map hdistinct hf hg (Function.symbol_eq_symbol_iff.1 hsymbols)
  · obtain ⟨noted, hlexical⟩ := h.scopes
    obtain ⟨scope, hscope, hfile⟩ := hlexical.file
    refine ⟨scope, hscope, hfile.kind, fun name id => ?_, hfile.other⟩
    rw [hfile.func, h.lookup_fileFunctions_iff hnames]

end HasFunctions

end Program

/-! ### Files that were read -/

theorem Draft.IsReading.hasFunctions {d : Draft} {fs : List Func} (h : d.IsReading fs) :
    d.program.HasFunctions fs where
  topLevel := by
    obtain ⟨scopes, noted, -, -, rfl⟩ := h
    rfl
  function := h.holds.function?_root
  scopes := by
    obtain ⟨scopes, noted, hlexical, -, rfl⟩ := h
    exact ⟨noted, hlexical⟩

variable {tokens : List Token} {p : Program} {d : Deferred}

open Program in
/-- **The scope of a file, its functions and its start agree.**  In a file that was read, the scope
of the file knows the functions of the file under their names and nothing else, no two of them share
a name or a symbol, and resolution leaves it so.  A program that passes the check is accepted exactly
if one of the functions of the file is called `main`, and then it starts in that one. -/
theorem parseFile_topLevel (h : parseFile tokens = .ok (p, d)) :
    p.FileScopeAgrees ∧ ∀ q, parse tokens = .ok q →
      q.FileScopeAgrees ∧ q.topLevel = p.topLevel ∧ (∀ id, q.function? id = p.function? id) ∧
        ∀ r, check q = .ok () r →
          ((∃ entry s, analyze q = .ok entry s) ↔ ∃ id ∈ q.topLevel, q.IsNamed id mainName) ∧
            ∀ entry s, analyze q = .ok entry s →
              ∀ id, id ∈ q.topLevel ∧ q.IsNamed id mainName ↔ id = entry := by
  obtain ⟨fs, -, hclear, hreading⟩ := isReading_of_parseFile h
  have hfunctions : p.HasFunctions fs := hreading.hasFunctions
  have hnames := ((fileClear_iff fs).1 hclear).1
  refine ⟨hfunctions.fileScopeAgrees hnames, fun q hq => ?_⟩
  have hrealizes : p.settled.Realizes fs := hreading.realizes hclear
  have hwelltyped := check_ok_iff_wellTyped hq
  obtain ⟨-, rfl⟩ := (parse_of_isReading h hclear hreading).1 hq
  refine ⟨hfunctions.settled.fileScopeAgrees hnames, rfl, function?_settled p, fun r hr => ?_⟩
  -- what the start is searched for in is the same as what the list says
  have hmain : ∀ id, (fileFunctions fs).lookup mainName = some id ↔
      id ∈ p.settled.topLevel ∧ p.settled.IsNamed id mainName :=
    fun id => hfunctions.settled.lookup_fileFunctions_iff hnames
  have hmeets := hrealizes.analyze_meets
  refine ⟨?_, fun entry s hentry id => ?_⟩
  · constructor
    · rintro ⟨entry, s, hentry⟩
      exact ⟨entry, (hmain entry).1 (hmeets.of_ok hentry).2.2⟩
    · rintro ⟨id, hid, hname⟩
      exact hmeets.exists_ok ⟨hwelltyped.1 ⟨r, hr⟩, id, (hmain id).2 ⟨hid, hname⟩⟩
  · rw [← hmain, (hmeets.of_ok hentry).2.2, Option.some.injEq, eq_comm]

/-- A file that starts in its second function, and whose first one has a parameter and a variable. -/
def mainBehind : List Token := tokensOf ("func f(n Int) Int \x7b var m Int; m = n; return m; \x7d " ++
  "func main() \x7b f(1); \x7d")

open Program in
/-- The file starts in its second function. -/
theorem parseFile_topLevel_mainBehind : ∃ p d q r entry s, parseFile mainBehind = .ok (p, d) ∧
    parse mainBehind = .ok q ∧ check q = .ok () r ∧ analyze q = .ok entry s ∧
      p.FileScopeAgrees ∧ q.FileScopeAgrees ∧ q.topLevel[1]? = some entry ∧
        ((∃ entry s, analyze q = .ok entry s) ↔ ∃ id ∈ q.topLevel, q.IsNamed id mainName) ∧
        ∀ id, id ∈ q.topLevel ∧ q.IsNamed id mainName ↔ id = entry := by
  have hread : (parseFile mainBehind).toOption.isSome = true := by decide +kernel
  have hparse : ((parse mainBehind).toOption.any fun q => (answer (check q)).isOk &&
      (answer (analyze q)).toOption.any (q.topLevel[1]? == some ·)) = true := by decide +kernel
  obtain ⟨⟨p, d⟩, hp⟩ := exists_of_isSome hread
  obtain ⟨q, hq, hstages⟩ := exists_of_any hparse
  obtain ⟨hcheck, hanalyze⟩ := Bool.and_eq_true_iff.1 hstages
  obtain ⟨r, hr⟩ := exists_ok_of_answer hcheck
  obtain ⟨entry, hentry, hsecond⟩ := exists_of_any hanalyze
  obtain ⟨s, hs⟩ := answer_ok_iff.1 hentry
  obtain ⟨hagrees, hlater⟩ := parseFile_topLevel hp
  obtain ⟨hagrees', -, -, hstart⟩ := hlater q hq
  obtain ⟨hexists, hunique⟩ := hstart r hr
  exact ⟨p, d, q, r, entry, s, hp, hq, hr, hs, hagrees, hagrees', eq_of_beq hsecond, hexists,
    hunique entry s hs⟩

end FrontEnd
