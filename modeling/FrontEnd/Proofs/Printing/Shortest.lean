/-
**What is printed is not longer than what was read.**

The words of a tree are no more than the tokens that spell it.  In particular no parentheses are
printed that could be left out: an operand is printed in parentheses only where every spelling has
them, because its operator would otherwise be read in another place.

Main results:

* `FrontEnd.Syntax.Expr.Spelled.length_le` — an expression in surroundings of some power;
* `FrontEnd.Syntax.FileSpelled.length_le` — a file.
-/

import FrontEnd.Proofs.Printing.Printed

set_option relaxedAutoImplicit false
set_option autoImplicit false

namespace FrontEnd.Syntax

/-- Items with commas between them, and before the first of them if others stand there. -/
def listWords (isFirst : Bool) (wss : List (List Word)) : List Word :=
  match isFirst with
  | true => commas wss
  | false => wss.flatMap (Word.symbol .comma :: ·)

theorem operator_lt_call (operator : BinaryOperator) :
    BindingPower.ofPrecedence operator.token.precedence < .call :=
  Nat.lt_trans (power_bounds operator).2 (by decide : BindingPower.unary < .call)

/-! ### Expressions -/

namespace Expr

/-- The number of words of the expression as an operand in surroundings of the power. -/
def lengthIn (power : BindingPower) (e : Expr) : Nat :=
  (operandWords (e.power ≤ power) e.words).length

/-- The tokens taken so far are enough for the expression in parentheses, or for its words alone if
it need not stand in parentheses here and nothing that follows belongs to its last operand. -/
def FitsIn (power : BindingPower) (next : Option TokenKind) (taken : Nat) (e : Expr) : Prop :=
  e.words.length + 2 ≤ taken ∨
    power < e.power ∧ ¬ Continues e.power next ∧ e.words.length ≤ taken

variable {e left right callee : Expr} {power : BindingPower} {next : Option TokenKind}
  {ts us : List Token} {taken : Nat}

theorem length_operandWords (inParentheses : Bool) (ws : List Word) :
    (operandWords inParentheses ws).length = ws.length + if inParentheses then 2 else 0 := by
  cases inParentheses <;> simp [operandWords, parentheses]

theorem length_operandWords_le (inParentheses : Bool) (ws : List Word) :
    (operandWords inParentheses ws).length ≤ ws.length + 2 := by
  rw [length_operandWords]
  cases inParentheses <;> simp

theorem lengthIn_of_lt (h : power < e.power) : e.lengthIn power = e.words.length := by
  have hbare : decide (e.power ≤ power) = false := decide_eq_false (Nat.not_le_of_lt h)
  rw [lengthIn, hbare]
  rfl

theorem FitsIn.lengthIn_le (h : e.FitsIn power next taken) : e.lengthIn power ≤ taken := by
  rcases h with hclosed | ⟨hpower, -, hbare⟩
  · exact Nat.le_trans (length_operandWords_le _ _) hclosed
  · rwa [lengthIn_of_lt hpower]

/-- Nothing binds tighter than arguments. -/
theorem not_continues_call : ¬ Continues .call next := by
  rintro ⟨kind, rule, tighter, -, -, hlt⟩
  cases tighter <;> exact absurd hlt (by decide)

/-- What follows the expression is not taken by it. -/
theorem RestSpelled.not_continues {left e : Expr} {power : BindingPower}
    {next : Option TokenKind} {ts : List Token} :
    left.RestSpelled power next ts e → ¬ Continues power next
  | .done hends, hnext => hends hnext
  | .binary _ _ _ hrest, hnext => hrest.not_continues hnext
  | .call _ _ _ _ _ hrest, hnext => hrest.not_continues hnext

theorem Spelled.not_continues (h : e.Spelled power next ts) : ¬ Continues power next := by
  obtain ⟨-, hrest⟩ := h
  exact hrest.not_continues

/-- An operator and its right operand. -/
theorem FitsIn.binary {operator : BinaryOperator} {place : Position}
    (hleft : left.FitsIn power (some operator.token) taken)
    (hpower : power < .ofPrecedence operator.token.precedence)
    (hright : right.lengthIn (.ofPrecedence operator.token.precedence) ≤ ts.length)
    (hnext : ¬ Continues (.ofPrecedence operator.token.precedence) next) :
    (Expr.binary operator place left right).FitsIn power next (taken + ts.length + 1) := by
  refine .inr ⟨hpower, hnext, ?_⟩
  have hwords : (operandWords (left.power < .ofPrecedence operator.token.precedence)
      left.words).length ≤ taken := by
    rcases hleft with hclosed | ⟨-, hstop, hbare⟩
    · exact Nat.le_trans (length_operandWords_le _ _) hclosed
    · -- a looser operator would have left this one to its right operand
      have hlt : ¬ left.power < .ofPrecedence operator.token.precedence := by
        intro hlt
        exact hstop ⟨operator.token, .binary, _, rfl, by simp [Grammar.standardInfix], hlt⟩
      rw [length_operandWords, decide_eq_false hlt]
      exact hbare
  have hlength := hright
  rw [lengthIn] at hlength
  simp only [words, List.length_append, List.length_cons]
  omega

/-- Arguments in parentheses. -/
theorem FitsIn.call {arguments : List Expr} {before : Option TokenKind}
    (hcallee : callee.FitsIn power before taken) (hpower : power < .call)
    (harguments : (commas (wordsAll arguments)).length ≤ ts.length) :
    (Expr.call callee arguments).FitsIn power next (taken + ts.length + 2) := by
  refine .inr ⟨hpower, not_continues_call, ?_⟩
  have hwords : callee.words.length ≤ taken := by
    rcases hcallee with hclosed | ⟨-, -, hbare⟩
    · omega
    · exact hbare
  simp only [words, parentheses, List.length_append, List.length_cons, List.length_nil]
  omega

end Expr

mutual

/-- **An expression is not printed longer than it was spelled.** -/
theorem Expr.Spelled.length_le {power : BindingPower} {next : Option TokenKind} {e : Expr}
    {ts : List Token} (h : e.Spelled power next ts) (hpower : power < .call) :
    e.lengthIn power ≤ ts.length :=
  match h with
  | .intro hstart hrest => by
      rw [List.length_append]
      exact hrest.length_le (hstart.fitsIn hpower)

/-- The start of an expression takes enough tokens for its words, in parentheses where it needs
them. -/
theorem Expr.StartSpelled.fitsIn {power : BindingPower} {next : Option TokenKind} {e : Expr}
    {ts : List Token} (h : e.StartSpelled next ts) (hpower : power < .call) :
    e.FitsIn power next ts.length :=
  match h with
  | .literal _ => .inr ⟨hpower, Expr.not_continues_call, Nat.le_refl 1⟩
  | .name _ => .inr ⟨hpower, Expr.not_continues_call, Nat.le_refl 1⟩
  | .not _ hoperand =>
      .inr ⟨hpower, Expr.not_continues_call, Nat.succ_le_succ (hoperand.length_le (by decide))⟩
  | .group _ hinner _ => by
      have hlength := hinner.length_le (by decide)
      rw [Expr.lengthIn_of_lt (Expr.default_lt_power _)] at hlength
      refine .inl ?_
      simp only [List.length_cons, List.length_append, List.length_nil]
      omega

/-- What makes a part grow takes enough tokens for the words that are added. -/
theorem Expr.RestSpelled.length_le {left e : Expr} {power : BindingPower}
    {next : Option TokenKind} {ts : List Token} {taken : Nat} (h : left.RestSpelled power next ts e)
    (hleft : left.FitsIn power (nextKind ts next) taken) : e.lengthIn power ≤ taken + ts.length :=
  match h with
  | .done _ => hleft.lengthIn_le
  | .binary hoperator hpower hright hrest => by
      have hlength := hright.length_le (hoperator ▸ operator_lt_call _)
      have hstops := hright.not_continues
      rw [hoperator] at hpower hlength hstops
      rw [nextKind_cons, hoperator] at hleft
      have hwhole := hrest.length_le (hleft.binary hpower hlength hstops)
      simp only [List.length_cons, List.length_append]
      omega
  | .call _ hpower _ hlist _ hrest => by
      have hlength := hrest.length_le (hleft.call hpower hlist.length_le)
      simp only [List.length_cons, List.length_append]
      omega

/-- Expressions with commas between them take at least as many tokens as words. -/
theorem Expr.ListSpelled.length_le {next : Option TokenKind} {isFirst : Bool} {es : List Expr}
    {ts : List Token} (h : Expr.ListSpelled next isFirst es ts) :
    (listWords isFirst (Expr.wordsAll es)).length ≤ ts.length :=
  match h with
  | .done => by cases isFirst <;> exact Nat.le_refl 0
  | .first he hothers => by
      have hlength := he.length_le (by decide)
      rw [Expr.lengthIn_of_lt (Expr.default_lt_power _)] at hlength
      have hrest := hothers.length_le
      simp only [Expr.wordsAll, listWords, commas, List.length_append] at hrest ⊢
      omega
  | .more _ he hothers => by
      have hlength := he.length_le (by decide)
      rw [Expr.lengthIn_of_lt (Expr.default_lt_power _)] at hlength
      have hrest := hothers.length_le
      simp only [Expr.wordsAll, listWords, List.flatMap_cons, List.length_append,
        List.length_cons] at hrest ⊢
      omega

end

/-- A value, a condition or a call. -/
theorem Expr.Spelled.words_length_le {next : Option TokenKind} {e : Expr} {ts : List Token}
    (h : e.Spelled .default next ts) : e.words.length ≤ ts.length := by
  rw [← Expr.lengthIn_of_lt e.default_lt_power]
  exact h.length_le (by decide)

/-! ### Statements -/

theorem Update.Spelled.length_le {next : Option TokenKind} {u : Update} {ts : List Token}
    (h : u.Spelled next ts) : u.words.length ≤ ts.length := by
  cases h with
  | assign _ hvalue | add _ hvalue | subtract _ hvalue =>
      exact Nat.succ_le_succ hvalue.words_length_le
  | increment _ | decrement _ => exact Nat.le_refl 1

theorem Simple.Spelled.length_le {next : Option TokenKind} {s : Simple} {ts : List Token}
    (h : s.Spelled next ts) : s.words.length ≤ ts.length := by
  cases h with
  | call _ _ he => exact he.words_length_le
  | change _ hupdate => exact Nat.succ_le_succ hupdate.length_le

theorem Simple.MaybeSpelled.length_le {next : Option TokenKind} {s? : Option Simple}
    {ts : List Token} (h : MaybeSpelled next s? ts) : (words? s?).length ≤ ts.length := by
  cases h with
  | none => exact Nat.le_refl 0
  | some hs => exact hs.length_le

mutual

/-- A statement takes at least as many tokens as words. -/
theorem Stmt.Spelled.length_le {next : Option TokenKind} {s : Stmt} {ts : List Token}
    (h : s.Spelled next ts) : s.words.length ≤ ts.length :=
  match h with
  | .declare _ _ _ _ => Nat.le_refl 4
  | .simple _ hs _ => by
      have hlength := hs.length_le
      simp only [Stmt.words, List.length_append, List.length_cons, List.length_nil]
      omega
  | .branch _ hcondition hthen _ => by
      have hlength := hcondition.words_length_le
      have hblock := hthen.length_le
      simp only [Stmt.words, List.length_append, List.length_cons]
      omega
  | .branchElse _ hcondition hthen _ helse => by
      have hlength := hcondition.words_length_le
      have hblock := hthen.length_le
      have hblock' := helse.length_le
      simp only [Stmt.words, List.length_append, List.length_cons]
      omega
  | .whileLoop _ hcondition hbody => by
      have hlength := hcondition.words_length_le
      have hblock := hbody.length_le
      simp only [Stmt.words, List.length_append, List.length_cons]
      omega
  | .forLoop _ hinit _ hcondition _ haction hbody => by
      have hlength := hcondition.words_length_le
      have hinit := hinit.length_le
      have haction := haction.length_le
      have hblock := hbody.length_le
      simp only [Stmt.words, List.length_append, List.length_cons]
      omega
  | .result _ hvalues _ => by
      have hlength := hvalues.length_le
      simp only [listWords] at hlength
      simp only [Stmt.words, List.length_append, List.length_cons, List.length_nil]
      omega

theorem Stmt.BlockSpelled.length_le {xs : List Stmt} {ts : List Token}
    (h : Stmt.BlockSpelled xs ts) : (braces (Stmt.wordsAll xs)).length ≤ ts.length :=
  match h with
  | .intro _ hlist _ => by
      have hlength := hlist.length_le
      simp only [braces, List.length_append, List.length_cons, List.length_nil]
      omega

theorem Stmt.ListSpelled.length_le {xs : List Stmt} {ts : List Token}
    (h : Stmt.ListSpelled xs ts) : (Stmt.wordsAll xs).length ≤ ts.length :=
  match h with
  | .nil => Nat.le_refl 0
  | .cons hs hothers _ => by
      have hlength := hs.length_le
      have hrest := hothers.length_le
      simp only [Stmt.wordsAll, List.length_append]
      omega

end

/-! ### Functions -/

/-- Items with commas between them take at least as many tokens as words, if each item does. -/
theorem ItemsSpelled.length_le {α : Type} {item : α → List Token → Prop} {words : α → List Word}
    {isFirst : Bool} {xs : List α} {ts : List Token} (h : ItemsSpelled item isFirst xs ts)
    (hitem : ∀ x ts, item x ts → (words x).length ≤ ts.length) :
    (listWords isFirst (xs.map words)).length ≤ ts.length := by
  induction h with
  | @done isFirst => cases isFirst <;> exact Nat.le_refl 0
  | first hx _ ih =>
      have hlength := hitem _ _ hx
      simp only [List.map_cons, listWords, commas, List.length_append] at ih ⊢
      omega
  | more _ hx _ ih =>
      have hlength := hitem _ _ hx
      simp only [List.map_cons, listWords, List.flatMap_cons, List.length_append,
        List.length_cons] at ih ⊢
      omega

theorem Param.Spelled.length_le {p : Param} {ts : List Token} (h : p.Spelled ts) :
    p.words.length ≤ ts.length := by
  obtain ⟨t, u, -, -, rfl⟩ := h
  exact Nat.le_refl 2

/-- The types that a function returns take at least as many tokens as words: parentheses around one
type are not printed. -/
theorem ResultsSpelled.length_le {types : List Name} {ts : List Token}
    (h : ResultsSpelled types ts) : (resultWords types).length ≤ ts.length := by
  cases h with
  | none => exact Nat.le_refl 0
  | one _ => exact Nat.le_refl 1
  | group _ hitems _ =>
      have hname : ∀ (name : Name) ts, name.Spelled ts →
          [Word.name name.text].length ≤ ts.length := by
        rintro name _ ⟨t, -, rfl⟩
        exact Nat.le_refl 1
      have hlength := hitems.length_le hname
      match types with
      | [] => exact Nat.zero_le _
      | [type] => exact Nat.succ_le_succ (Nat.zero_le _)
      | type :: other :: others =>
          simp only [resultWords, parentheses, listWords, List.length_append, List.length_cons,
            List.length_nil] at hlength ⊢
          omega

theorem Func.Spelled.length_le {f : Func} {ts : List Token} (h : f.Spelled ts) :
    f.words.length ≤ ts.length := by
  obtain ⟨-, -, -, hparameters, -, hresults, hbody⟩ := h
  have hparameters : (commas (List.map Param.words _)).length ≤ _ :=
    hparameters.length_le fun _ _ hp => Param.Spelled.length_le hp
  have hresults := hresults.length_le
  have hbody := hbody.length_le
  simp only [words, parentheses, List.length_append, List.length_cons, List.length_nil]
  omega

/-- **A file is not printed longer than it was spelled.** -/
theorem FileSpelled.length_le {fs : List Func} {ts : List Token} (h : FileSpelled fs ts) :
    (fileWords fs).length ≤ ts.length := by
  induction h with
  | nil => exact Nat.le_refl 0
  | cons hf _ ih =>
      have hlength := hf.length_le
      simp only [fileWords, List.flatMap_cons, List.length_append] at ih ⊢
      omega

end FrontEnd.Syntax
