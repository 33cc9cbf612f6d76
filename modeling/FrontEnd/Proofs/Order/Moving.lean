/-
**Functions in another order.**

When the functions of a file stand in another order, the nodes of each of them are made behind
another offset.  Two neighbours that change places exchange two blocks of numbers, and every order
comes from such exchanges; so for every order there is a renaming that shifts each function as a
whole from the offset where it stood to the one where it stands now.

Main definitions:

* `FrontEnd.Syntax.places` — the functions of a file with their offsets;
* `FrontEnd.Renaming.exchange` — the renaming for two neighbours;
* `FrontEnd.Renaming.Moves` — renamings that move every function of a file to its place in another
  one.

Main results:

* `FrontEnd.Renaming.exists_moves` — such a renaming exists for every order;
* `FrontEnd.Renaming.Moves.finds` — the functions that can be named stay the same.
-/

import FrontEnd.Proofs.Layout.Places
import FrontEnd.Proofs.Order.Shifting
import Mathlib.Data.List.Perm.Basic
import Mathlib.Tactic.SplitIfs

set_option relaxedAutoImplicit false
set_option autoImplicit false

namespace FrontEnd

open Syntax

namespace Syntax

/-! ### Places -/

/-- The functions of a file, each with the offset behind which it is made. -/
def places (o : Extent) : List Func → List (Extent × Func)
  | [] => []
  | f :: others => (o, f) :: places (o + f.extent) others

variable {fs : List Func} {o x : Extent} {f : Func}

theorem Extent.le_add (a b : Extent) : a ≤ a + b :=
  ⟨Nat.le_add_right _ _, Nat.le_add_right _ _, Nat.le_add_right _ _, Nat.le_add_right _ _⟩

theorem Extent.le_trans {a b c : Extent} (hab : a ≤ b) (hbc : b ≤ c) : a ≤ c :=
  ⟨Nat.le_trans hab.1 hbc.1, Nat.le_trans hab.2.1 hbc.2.1, Nat.le_trans hab.2.2.1 hbc.2.2.1,
    Nat.le_trans hab.2.2.2 hbc.2.2.2⟩

/-- No function is made before the first one. -/
theorem le_of_mem_places (h : (x, f) ∈ places o fs) : o ≤ x := by
  induction fs generalizing o with
  | nil => cases h
  | cons g fs ih =>
      rcases List.mem_cons.1 h with heq | h
      · exact (Prod.mk.inj heq).1 ▸ Extent.le_add x {}
      · exact Extent.le_trans (Extent.le_add o g.extent) (ih h)

/-- A place holds a function of the file. -/
theorem mem_of_mem_places (h : (x, f) ∈ places o fs) : f ∈ fs := by
  induction fs generalizing o with
  | nil => cases h
  | cons g fs ih =>
      rcases List.mem_cons.1 h with heq | h
      · exact (Prod.mk.inj heq).2 ▸ List.mem_cons_self
      · exact List.mem_cons_of_mem g (ih h)

/-- The name of a function stands for the function that has it. -/
theorem lookup_declared_iff {functions : List (String × DeclId)}
    (hnames : (fs.map fun f => f.name.text).Nodup) {name : String} {decl : DeclId} :
    (declared o functions fs).lookup name = some decl ↔
      (∃ x f, (x, f) ∈ places o fs ∧ f.name.text = name ∧ f.root x = decl) ∨
        name ∉ fs.map (fun f => f.name.text) ∧ functions.lookup name = some decl := by
  induction fs generalizing o functions with
  | nil => simp [declared, places]
  | cons f fs ih =>
      rw [List.map_cons, List.nodup_cons] at hnames
      rw [declared, ih hnames.2, List.lookup_cons]
      by_cases hname : name = f.name.text
      · have hlater : ∀ x g, (x, g) ∈ places (o + f.extent) fs → g.name.text ≠ name := by
          intro x g hg heq
          exact hnames.1 (hname ▸ heq ▸ List.mem_map_of_mem (mem_of_mem_places hg))
        grind [places]
      · grind [places]

end Syntax

/-! ### Exchanging two blocks of numbers -/

namespace Renaming

/-- Behind the first `n` numbers, the next `a` numbers and the `b` numbers behind them change
places. -/
def exchangeNumbers (n a b : Nat) : Equiv.Perm Nat where
  toFun i :=
    if i < n then i else if i < n + a then i + b else if i < n + a + b then i - a else i
  invFun i :=
    if i < n then i else if i < n + b then i + a else if i < n + b + a then i - b else i
  left_inv i := by
    dsimp only
    split_ifs <;> omega
  right_inv i := by
    dsimp only
    split_ifs <;> omega

theorem exchangeNumbers_eq (n a b i : Nat) : exchangeNumbers n a b i =
    if i < n then i else if i < n + a then i + b else if i < n + a + b then i - a else i := rfl

theorem exchangeNumbers_below {n a b i : Nat} (h : i < n) : exchangeNumbers n a b i = i :=
  if_pos h

theorem exchangeNumbers_first {n a b k : Nat} (h : k < a) :
    exchangeNumbers n a b (n + k) = n + b + k := by
  rw [exchangeNumbers_eq]
  split_ifs <;> omega

theorem exchangeNumbers_second {n a b k : Nat} (h : k < b) :
    exchangeNumbers n a b (n + a + k) = n + k := by
  rw [exchangeNumbers_eq]
  split_ifs <;> omega

theorem exchangeNumbers_above {n a b i : Nat} (h : n + a + b ≤ i) :
    exchangeNumbers n a b i = i := by
  rw [exchangeNumbers_eq]
  split_ifs <;> omega

/-- Behind an offset, two neighbours change places. -/
def exchange (o a b : Extent) : Renaming where
  decls := exchangeNumbers o.decls a.decls b.decls
  exprs := exchangeNumbers o.exprs a.exprs b.exprs
  stmts := exchangeNumbers o.stmts a.stmts b.stmts
  scopes := exchangeNumbers o.scopes a.scopes b.scopes

variable {ρ σ : Renaming} {o o' o'' x y a b : Extent}

/-- What stands before the neighbours keeps its numbers. -/
theorem shifts_exchange_below : (exchange o a b).Shifts {} {} o where
  decls k hk := by
    rw [Nat.zero_add]
    exact exchangeNumbers_below hk
  exprs k hk := by
    rw [Nat.zero_add]
    exact exchangeNumbers_below hk
  stmts k hk := by
    rw [Nat.zero_add]
    exact exchangeNumbers_below hk
  scopes k hk := by
    rw [Nat.zero_add]
    exact exchangeNumbers_below hk

theorem shifts_exchange_first : (exchange o a b).Shifts o (o + b) a where
  decls _ hk := exchangeNumbers_first hk
  exprs _ hk := exchangeNumbers_first hk
  stmts _ hk := exchangeNumbers_first hk
  scopes _ hk := exchangeNumbers_first hk

theorem shifts_exchange_second : (exchange o a b).Shifts (o + a) o b where
  decls _ hk := exchangeNumbers_second hk
  exprs _ hk := exchangeNumbers_second hk
  stmts _ hk := exchangeNumbers_second hk
  scopes _ hk := exchangeNumbers_second hk

/-- What stands behind the neighbours keeps its numbers. -/
theorem shifts_exchange_above (h : o + a + b ≤ x) : (exchange o a b).Shifts x x y where
  decls _ _ := exchangeNumbers_above (Nat.le_trans h.1 (Nat.le_add_right _ _))
  exprs _ _ := exchangeNumbers_above (Nat.le_trans h.2.1 (Nat.le_add_right _ _))
  stmts _ _ := exchangeNumbers_above (Nat.le_trans h.2.2.1 (Nat.le_add_right _ _))
  scopes _ _ := exchangeNumbers_above (Nat.le_trans h.2.2.2 (Nat.le_add_right _ _))

/-! ### One renaming after another -/

def refl : Renaming := ⟨.refl Nat, .refl Nat, .refl Nat, .refl Nat⟩

def trans (ρ σ : Renaming) : Renaming where
  decls := ρ.decls.trans σ.decls
  exprs := ρ.exprs.trans σ.exprs
  stmts := ρ.stmts.trans σ.stmts
  scopes := ρ.scopes.trans σ.scopes

theorem shifts_refl : refl.Shifts o o x :=
  ⟨fun _ _ => rfl, fun _ _ => rfl, fun _ _ => rfl, fun _ _ => rfl⟩

theorem Shifts.trans (h : ρ.Shifts o o' x) (h' : σ.Shifts o' o'' x) :
    (ρ.trans σ).Shifts o o'' x where
  decls k hk := (congrArg σ.decls (h.decls k hk)).trans (h'.decls k hk)
  exprs k hk := (congrArg σ.exprs (h.exprs k hk)).trans (h'.exprs k hk)
  stmts k hk := (congrArg σ.stmts (h.stmts k hk)).trans (h'.stmts k hk)
  scopes k hk := (congrArg σ.scopes (h.scopes k hk)).trans (h'.scopes k hk)

/-! ### Moving all functions -/

/-- The renaming moves the functions of one file to their places in another one, behind an offset
below which it changes nothing. -/
structure Moves (ρ : Renaming) (o : Extent) (fs fs' : List Func) : Prop where
  below : ρ.Shifts {} {} o
  forth : ∀ x f, (x, f) ∈ places o fs → ∃ x', (x', f) ∈ places o fs' ∧ ρ.Shifts x x' f.extent
  back : ∀ x' f, (x', f) ∈ places o fs' → ∃ x, (x, f) ∈ places o fs ∧ ρ.Shifts x x' f.extent
  roots : (roots o fs').Perm ((roots o fs).map ρ.decl)

variable {fs fs' fs'' : List Func} {f g : Func}

theorem moves_refl : refl.Moves o fs fs where
  below := shifts_refl
  forth x _ h := ⟨x, h, shifts_refl⟩
  back x _ h := ⟨x, h, shifts_refl⟩
  roots := by
    rw [show refl.decl = id from rfl, List.map_id]

/-- The first function stays where it is. -/
theorem Moves.cons (h : ρ.Moves (o + f.extent) fs fs') : ρ.Moves o (f :: fs) (f :: fs') := by
  have hbelow := h.below
  rw [shifts_add, Extent.zero_add] at hbelow
  refine ⟨hbelow.1, ?_, ?_, ?_⟩
  · intro x g hg
    rcases List.mem_cons.1 hg with heq | hg
    · cases heq
      exact ⟨o, List.mem_cons_self, hbelow.2⟩
    · obtain ⟨x', hx', hshifts⟩ := h.forth x g hg
      exact ⟨x', List.mem_cons_of_mem _ hx', hshifts⟩
  · intro x' g hg
    rcases List.mem_cons.1 hg with heq | hg
    · cases heq
      exact ⟨o, List.mem_cons_self, hbelow.2⟩
    · obtain ⟨x, hx, hshifts⟩ := h.back x' g hg
      exact ⟨x, List.mem_cons_of_mem _ hx, hshifts⟩
  · rw [Syntax.roots, Syntax.roots, List.map_cons, f.rename_root hbelow.2]
    exact h.roots.cons _

/-- The first two functions change places. -/
theorem moves_swap : (exchange o f.extent g.extent).Moves o (f :: g :: fs) (g :: f :: fs) := by
  have hend : o + g.extent + f.extent = o + f.extent + g.extent := by
    ext <;> simp <;> omega
  refine ⟨shifts_exchange_below, ?_, ?_, ?_⟩
  · simp only [places, hend, List.mem_cons]
    rintro x h (heq | heq | hmem)
    · cases heq
      exact ⟨o + g.extent, .inr (.inl rfl), shifts_exchange_first⟩
    · cases heq
      exact ⟨o, .inl rfl, shifts_exchange_second⟩
    · exact ⟨x, .inr (.inr hmem), shifts_exchange_above (le_of_mem_places hmem)⟩
  · simp only [places, hend, List.mem_cons]
    rintro x h (heq | heq | hmem)
    · cases heq
      exact ⟨o + f.extent, .inr (.inl rfl), shifts_exchange_second⟩
    · cases heq
      exact ⟨o, .inl rfl, shifts_exchange_first⟩
    · exact ⟨x, .inr (.inr hmem), shifts_exchange_above (le_of_mem_places hmem)⟩
  · have hlater : (Syntax.roots (o + f.extent + g.extent) fs).map
        (exchange o f.extent g.extent).decl = Syntax.roots (o + f.extent + g.extent) fs :=
      rename_roots fs (shifts_exchange_above (Extent.le_add _ {}))
    simp only [Syntax.roots, List.map_cons, hend, f.rename_root shifts_exchange_first,
      g.rename_root shifts_exchange_second, hlater]
    exact .swap _ _ _

/-- Two moves, one after the other, are a move. -/
theorem Moves.trans (h : ρ.Moves o fs fs') (h' : σ.Moves o fs' fs'') :
    (ρ.trans σ).Moves o fs fs'' := by
  refine ⟨h.below.trans h'.below, ?_, ?_, ?_⟩
  · intro x f hf
    obtain ⟨x', hx', hshifts⟩ := h.forth x f hf
    obtain ⟨x'', hx'', hshifts'⟩ := h'.forth x' f hx'
    exact ⟨x'', hx'', hshifts.trans hshifts'⟩
  · intro x'' f hf
    obtain ⟨x', hx', hshifts'⟩ := h'.back x'' f hf
    obtain ⟨x, hx, hshifts⟩ := h.back x' f hx'
    exact ⟨x, hx, hshifts.trans hshifts'⟩
  · have hmap := h.roots.map σ.decl
    rw [List.map_map] at hmap
    exact h'.roots.trans hmap

/-- **For every order of the functions there is a renaming that moves them.** -/
theorem exists_moves (h : fs.Perm fs') (o : Extent) : ∃ ρ : Renaming, ρ.Moves o fs fs' := by
  induction h generalizing o with
  | nil => exact ⟨refl, moves_refl⟩
  | cons f _ ih =>
      obtain ⟨ρ, hρ⟩ := ih (o + f.extent)
      exact ⟨ρ, hρ.cons⟩
  | swap f g fs => exact ⟨exchange o g.extent f.extent, moves_swap⟩
  | trans _ _ ih ih' =>
      obtain ⟨ρ, hρ⟩ := ih o
      obtain ⟨σ, hσ⟩ := ih' o
      exact ⟨ρ.trans σ, hρ.trans hσ⟩

/-- What is found in the one file is found, changed, in the other one. -/
theorem Moves.exists_iff {α : Type} {change : α → α} {item item' : Extent → Func → Option α}
    (h : ρ.Moves o fs fs')
    (hitem : ∀ x x' f, ρ.Shifts x x' f.extent → item' x' f = (item x f).map change) {a' : α} :
    (∃ x' f, (x', f) ∈ places o fs' ∧ item' x' f = some a') ↔
      ∃ a, (∃ x f, (x, f) ∈ places o fs ∧ item x f = some a) ∧ change a = a' := by
  constructor
  · rintro ⟨x', f, hf, ha'⟩
    obtain ⟨x, hx, hshifts⟩ := h.back x' f hf
    rw [hitem x x' f hshifts, Option.map_eq_some_iff] at ha'
    obtain ⟨a, ha, rfl⟩ := ha'
    exact ⟨a, ⟨x, f, hx, ha⟩, rfl⟩
  · rintro ⟨a, ⟨x, f, hf, ha⟩, rfl⟩
    obtain ⟨x', hx', hshifts⟩ := h.forth x f hf
    exact ⟨x', f, hx', by rw [hitem x x' f hshifts, ha]; rfl⟩

/-- The functions of the file have the same names. -/
theorem Moves.finds (h : ρ.Moves o fs fs') (hnames : (fs.map fun f => f.name.text).Nodup)
    (hnames' : (fs'.map fun f => f.name.text).Nodup) :
    ρ.Finds (declared o [] fs) (declared o [] fs') := by
  intro name
  refine Option.ext fun decl' => ?_
  rw [lookup_declared_iff hnames', Option.map_eq_some_iff]
  simp only [lookup_declared_iff hnames, List.lookup_nil, reduceCtorEq, and_false, or_false]
  constructor
  · rintro ⟨x', f, hf, hname, rfl⟩
    obtain ⟨x, hx, hshifts⟩ := h.back x' f hf
    exact ⟨f.root x, ⟨x, f, hx, hname, rfl⟩, f.rename_root hshifts⟩
  · rintro ⟨_, ⟨x, f, hf, hname, rfl⟩, rfl⟩
    obtain ⟨x', hx', hshifts⟩ := h.forth x f hf
    exact ⟨x', f, hx', hname, (f.rename_root hshifts).symm⟩

end Renaming

end FrontEnd
