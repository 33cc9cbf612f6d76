/-
**What is printed is read as it was.**

The words of a tree spell the tree.  For an expression this hangs on what follows: an operator at
its end must not take what stands behind it, and the surroundings must not be tighter than its own
operator.  Both hold for every operand that is printed without parentheses.  Not every tree can be
written down: only names and calls are called, a statement that is an expression is a call, and
nothing stands behind a `return`.  Trees that are spelled by some tokens are of this form.

Main definitions:

* `FrontEnd.Syntax.Func.Formed` — trees that can be written down;
* `FrontEnd.Syntax.printed` — words as tokens at the beginning of the text.

Main results:

* `FrontEnd.Syntax.FileSpelled.formed` — what is spelled can be written down;
* `FrontEnd.Syntax.Expr.spelledByWords`, `FrontEnd.Syntax.Stmt.spelled_printed`,
  `FrontEnd.Syntax.fileSpelled_printed` — what is printed spells the tree.
-/

import FrontEnd.Proofs.Printing.Printer
import FrontEnd.Proofs.Printing.Rebuilding
import FrontEnd.Proofs.Syntax.Spelling

set_option relaxedAutoImplicit false
set_option autoImplicit false

namespace FrontEnd.Syntax

/-! ### Trees that can be written down -/

namespace Expr

mutual

/-- Only names and calls are called. -/
def Formed : Expr → Prop
  | literal _ _ | name _ => True
  | not _ operand => operand.Formed
  | binary _ _ left right => left.Formed ∧ right.Formed
  | call callee arguments => callee.isCallable = true ∧ callee.Formed ∧ FormedAll arguments

def FormedAll : List Expr → Prop
  | [] => True
  | e :: others => e.Formed ∧ FormedAll others

end

end Expr

def Update.Formed : Update → Prop
  | assign value | add value | subtract value => value.Formed
  | increment | decrement => True

/-- A statement that is an expression is a call. -/
def Simple.Formed : Simple → Prop
  | call _ e => e.isCall = true ∧ e.Formed
  | change _ update => update.Formed

namespace Stmt

mutual

/-- The statement can be written down. -/
def Formed : Stmt → Prop
  | declare _ _ _ => True
  | simple s => s.Formed
  | branch _ condition thenBlock none => condition.Formed ∧ FormedAll thenBlock
  | branch _ condition thenBlock (some elseBlock) =>
      condition.Formed ∧ FormedAll thenBlock ∧ FormedAll elseBlock
  | whileLoop _ condition body => condition.Formed ∧ FormedAll body
  | forLoop _ init? condition action? body =>
      (∀ s ∈ init?, s.Formed) ∧ condition.Formed ∧ (∀ s ∈ action?, s.Formed) ∧ FormedAll body
  | result _ values => Expr.FormedAll values

/-- The statements can be written down, and nothing stands behind a `return`. -/
def FormedAll : List Stmt → Prop
  | [] => True
  | s :: others => s.Formed ∧ (s.isReturn = true → others = []) ∧ FormedAll others

end

end Stmt

def Func.Formed (f : Func) : Prop := Stmt.FormedAll f.body

/-! ### Spelled trees can be written down -/

mutual

theorem Expr.Spelled.formed {power : BindingPower} {next : Option TokenKind} {e : Expr}
    {ts : List Token} : e.Spelled power next ts → e.Formed
  | .intro hstart hrest => hrest.formed hstart.formed

theorem Expr.StartSpelled.formed {next : Option TokenKind} {e : Expr} {ts : List Token} :
    e.StartSpelled next ts → e.Formed
  | .literal _ => trivial
  | .name _ => trivial
  | .not _ h => h.formed
  | .group _ h _ => h.formed

theorem Expr.RestSpelled.formed {left e : Expr} {power : BindingPower} {next : Option TokenKind}
    {ts : List Token} : left.RestSpelled power next ts e → left.Formed → e.Formed
  | .done _ => id
  | .binary _ _ hright hrest => fun hleft => hrest.formed ⟨hleft, hright.formed⟩
  | .call _ _ hcallable hlist _ hrest => fun hcallee =>
      hrest.formed ⟨hcallable, hcallee, hlist.formed⟩

theorem Expr.ListSpelled.formed {next : Option TokenKind} {isFirst : Bool} {es : List Expr}
    {ts : List Token} : Expr.ListSpelled next isFirst es ts → Expr.FormedAll es
  | .done => trivial
  | .first h hothers => ⟨h.formed, hothers.formed⟩
  | .more _ h hothers => ⟨h.formed, hothers.formed⟩

end

theorem Update.Spelled.formed {next : Option TokenKind} {u : Update} {ts : List Token}
    (h : u.Spelled next ts) : u.Formed := by
  cases h with
  | assign _ h | add _ h | subtract _ h => exact h.formed
  | increment _ | decrement _ => trivial

theorem Simple.Spelled.formed {next : Option TokenKind} {s : Simple} {ts : List Token}
    (h : s.Spelled next ts) : s.Formed := by
  cases h with
  | call _ hcall h => exact ⟨hcall, h.formed⟩
  | change _ h => exact h.formed

theorem Simple.MaybeSpelled.formed {next : Option TokenKind} {s? : Option Simple}
    {ts : List Token} (h : MaybeSpelled next s? ts) : ∀ s ∈ s?, s.Formed := by
  cases h with
  | none => simp
  | some h => simpa using h.formed

mutual

/-- A statement that is spelled can be written down: the grammar refuses all others. -/
theorem Stmt.Spelled.formed {next : Option TokenKind} {s : Stmt} {ts : List Token} :
    s.Spelled next ts → s.Formed
  | .declare _ _ _ _ => trivial
  | .simple _ h _ => h.formed
  | .branch _ h hthen _ => ⟨h.formed, hthen.formed⟩
  | .branchElse _ h hthen _ helse => ⟨h.formed, hthen.formed, helse.formed⟩
  | .whileLoop _ h hbody => ⟨h.formed, hbody.formed⟩
  | .forLoop _ hinit _ h _ haction hbody =>
      ⟨hinit.formed, h.formed, haction.formed, hbody.formed⟩
  | .result _ h _ => h.formed

theorem Stmt.BlockSpelled.formed {xs : List Stmt} {ts : List Token} :
    Stmt.BlockSpelled xs ts → Stmt.FormedAll xs
  | .intro _ h _ => h.formed

theorem Stmt.ListSpelled.formed {xs : List Stmt} {ts : List Token} :
    Stmt.ListSpelled xs ts → Stmt.FormedAll xs
  | .nil => trivial
  | .cons h hothers hlast => ⟨h.formed, hlast, hothers.formed⟩

end

/-- **What is spelled can be written down.** -/
theorem FileSpelled.formed {fs : List Func} {ts : List Token} (h : FileSpelled fs ts) :
    ∀ f ∈ fs, f.Formed := by
  induction h with
  | nil => simp
  | cons hf _ ih =>
      obtain ⟨_, _, _, _, _, _, hbody⟩ := hf
      simpa using ⟨hbody.formed, ih⟩

/-! ### Words as tokens -/

/-- The tokens at the beginning of the text with the given words. -/
def printed (ws : List Word) : List Token := ws.map Word.token

@[simp] theorem printed_nil : printed [] = [] := rfl

@[simp] theorem printed_cons (w : Word) (ws : List Word) :
    printed (w :: ws) = w.token :: printed ws := rfl

@[simp] theorem printed_append (ws vs : List Word) :
    printed (ws ++ vs) = printed ws ++ printed vs := List.map_append

@[simp] theorem kind_symbol (kind : TokenKind) : (Word.symbol kind).token.kind = kind := rfl

@[simp] theorem printed_parentheses (ws : List Word) : printed (parentheses ws) =
    (Word.symbol .leftParenthesis).token ::
      (printed ws ++ [(Word.symbol .rightParenthesis).token]) := by
  simp [parentheses]

@[simp] theorem printed_braces (ws : List Word) : printed (braces ws) =
    (Word.symbol .leftBrace).token :: (printed ws ++ [(Word.symbol .rightBrace).token]) := by
  simp [braces]

theorem ofToken?_name (name : Name) :
    Name.ofToken? (Word.name name.text).token = some name.unplaced := rfl

theorem ofToken?_word (value : Literal) : Literal.ofToken? value.word.token = some value := by
  cases value with
  | bool value => cases value <;> rfl
  | _ => rfl

/-- Items with commas between them spell the list of the items. -/
theorem itemsSpelled_printed {α : Type} {item : α → List Token → Prop} {words : α → List Word}
    {unplaced : α → α} (hitem : ∀ x, item (unplaced x) (printed (words x))) (xs : List α) :
    ItemsSpelled item true (xs.map unplaced) (printed (commas (xs.map words))) := by
  have hmore : ∀ xs : List α, ItemsSpelled item false (xs.map unplaced)
      (printed ((xs.map words).flatMap (Word.symbol .comma :: ·))) := by
    intro xs
    induction xs with
    | nil => exact .done
    | cons x xs ih =>
        simpa using ItemsSpelled.more (t := (Word.symbol .comma).token) rfl (hitem x) ih
  cases xs with
  | nil => exact .done
  | cons x xs => simpa [commas] using ItemsSpelled.first (hitem x) (hmore xs)

/-! ### Expressions -/

theorem Continues.mono {power tighter : BindingPower} {next : Option TokenKind}
    (h : power ≤ tighter) (hnext : Continues tighter next) : Continues power next := by
  obtain ⟨kind, rule, other, rfl, hrule, hlt⟩ := hnext
  exact ⟨kind, rule, other, rfl, hrule, Nat.lt_of_le_of_lt h hlt⟩

/-- A token that goes on with no expression. -/
theorem not_continues_of_none {power : BindingPower} {kind : TokenKind}
    (h : Grammar.standardInfix kind = none) : ¬ Continues power (some kind) := by
  rintro ⟨_, _, _, hkind, hrule, -⟩
  cases hkind
  rw [h] at hrule
  cases hrule

/-- Operators bind tighter than nothing and looser than `!`. -/
theorem power_bounds (operator : BinaryOperator) :
    .default < BindingPower.ofPrecedence operator.token.precedence ∧
      BindingPower.ofPrecedence operator.token.precedence < .unary := by
  cases operator <;> decide

namespace Expr

/-- What follows is not taken by the last operand of the expression. -/
def Stops (next : Option TokenKind) : Expr → Prop
  | binary operator _ _ _ => ¬ Continues (.ofPrecedence operator.token.precedence) next
  | not _ _ => ¬ Continues .unary next
  | _ => True

/-- The words of the expression start an expression that grows from it, in surroundings that are
looser than its operator, unless what follows belongs to its last operand. -/
structure SpelledByWords (e : Expr) : Prop where
  grow : ∀ {power next us whole}, power < e.power → e.Stops (nextKind us next) →
    e.unplaced.RestSpelled power next us whole → whole.Spelled power next (printed e.words ++ us)

variable {e : Expr} {power : BindingPower} {next : Option TokenKind}

theorem default_lt_power (e : Expr) : .default < e.power := by
  cases e with
  | binary operator place left right => exact (power_bounds operator).1
  | _ => exact (by decide : BindingPower.default < .call)

theorem stops_of_not_continues (hpower : power < e.power) (hunary : power ≤ .unary)
    (h : ¬ Continues power next) : e.Stops next := by
  cases e with
  | binary operator place left right => exact fun hnext => h (hnext.mono (Nat.le_of_lt hpower))
  | not place operand => exact fun hnext => h (hnext.mono hunary)
  | _ => trivial

theorem SpelledByWords.spelled (h : e.SpelledByWords) (hpower : power < e.power)
    (hunary : power ≤ .unary) (hnext : ¬ Continues power next) :
    e.unplaced.Spelled power next (printed e.words) := by
  have hwhole : e.unplaced.Spelled power next (printed e.words ++ []) :=
    h.grow hpower (stops_of_not_continues hpower hunary hnext) (.done hnext)
  rwa [List.append_nil] at hwhole

/-- An operand that is put in parentheses where it needs them. -/
theorem SpelledByWords.operand (h : e.SpelledByWords) {inParentheses : Bool} {us : List Token}
    {whole : Expr} (hbare : inParentheses = false → power < e.power ∧ e.Stops (nextKind us next))
    (hrest : e.unplaced.RestSpelled power next us whole) :
    whole.Spelled power next (printed (operandWords inParentheses e.words) ++ us) := by
  cases inParentheses with
  | false => exact h.grow (hbare rfl).1 (hbare rfl).2 hrest
  | true =>
      have hinner : e.unplaced.Spelled .default (some .rightParenthesis) (printed e.words) :=
        h.spelled e.default_lt_power (by decide) (not_continues_of_none rfl)
      rw [operandWords, if_pos rfl, printed_parentheses]
      exact .intro (.group rfl hinner rfl) hrest

/-- An expression without parentheses around it. -/
theorem SpelledByWords.default (h : e.SpelledByWords) {kind : TokenKind}
    (hkind : Grammar.standardInfix kind = none) :
    e.unplaced.Spelled .default (some kind) (printed e.words) :=
  h.spelled e.default_lt_power (by decide) (not_continues_of_none hkind)

/-- A right operand, or the operand of `!`. -/
theorem SpelledByWords.lastOperand (h : e.SpelledByWords) (hunary : power ≤ .unary)
    (hnext : ¬ Continues power next) :
    e.unplaced.Spelled power next (printed (operandWords (e.power ≤ power) e.words)) := by
  have hbare : decide (e.power ≤ power) = false → power < e.power ∧ e.Stops next := by
    intro hpower
    have hlt : power < e.power := Nat.lt_of_not_le (of_decide_eq_false hpower)
    exact ⟨hlt, stops_of_not_continues hlt hunary hnext⟩
  have hwhole : e.unplaced.Spelled power next (_ ++ []) := h.operand hbare (.done hnext)
  rwa [List.append_nil] at hwhole

theorem continues_token {operator : BinaryOperator} {tighter : BindingPower}
    (h : Continues tighter (some operator.token)) :
    tighter < .ofPrecedence operator.token.precedence := by
  obtain ⟨kind, rule, other, hkind, hrule, hlt⟩ := h
  cases hkind
  simp only [Grammar.standardInfix, BinaryOperator.ofToken?_token, Option.some.injEq,
    Prod.mk.injEq] at hrule
  rwa [hrule.2]

/-- What an operator that does not bind tighter takes is not taken by its left operand. -/
theorem stops_token (operator : BinaryOperator)
    (h : ¬ e.power < .ofPrecedence operator.token.precedence) :
    e.Stops (some operator.token) := by
  cases e with
  | binary other place left right => exact fun hnext => h (continues_token hnext)
  | not place operand =>
      exact fun hnext => Nat.lt_asymm (continues_token hnext) (power_bounds operator).2
  | _ => trivial

section Lists

variable {kind : TokenKind} (hkind : Grammar.standardInfix kind = none)

include hkind

/-- An expression before others that are set off by commas. -/
theorem SpelledByWords.beforeOthers (h : e.SpelledByWords) (es : List Expr) :
    e.unplaced.Spelled .default
      (nextKind (printed ((wordsAll es).flatMap (Word.symbol .comma :: ·))) (some kind))
      (printed e.words) := by
  cases es with
  | nil => exact h.default hkind
  | cons other others => exact h.default rfl

/-- Expressions behind a comma are spelled by their words. -/
theorem listSpelled_more (es : List Expr) (hes : ∀ e ∈ es, e.SpelledByWords) :
    ListSpelled (some kind) false (unplacedAll es)
      (printed ((wordsAll es).flatMap (Word.symbol .comma :: ·))) := by
  induction es with
  | nil => exact .done
  | cons e es ih =>
      have he := (hes e List.mem_cons_self).beforeOthers hkind es
      have hothers := ih fun e' he' => hes e' (List.mem_cons_of_mem e he')
      simpa [wordsAll, unplacedAll] using
        ListSpelled.more (t := (Word.symbol .comma).token) rfl he hothers

/-- Arguments or values, before a token that goes on with no expression. -/
theorem listSpelled_commas (es : List Expr) (hes : ∀ e ∈ es, e.SpelledByWords) :
    ListSpelled (some kind) true (unplacedAll es) (printed (commas (wordsAll es))) := by
  cases es with
  | nil => exact .done
  | cons e es =>
      have he := (hes e List.mem_cons_self).beforeOthers hkind es
      have hothers := listSpelled_more hkind es fun e' he' => hes e' (List.mem_cons_of_mem e he')
      simpa [commas, wordsAll, unplacedAll] using ListSpelled.first he hothers

end Lists

theorem formedAll_iff {es : List Expr} : FormedAll es ↔ ∀ e ∈ es, e.Formed := by
  induction es with
  | nil => simp [FormedAll]
  | cons e es ih => simp [FormedAll, ih]

@[simp] theorem isCallable_unplaced (e : Expr) : e.unplaced.isCallable = e.isCallable := by
  cases e <;> rfl

@[simp] theorem isCall_unplaced (e : Expr) : e.unplaced.isCall = e.isCall := by
  cases e <;> rfl

/-- **An expression is spelled by its words**, also as the beginning of a longer one. -/
theorem spelledByWords (e : Expr) (he : e.Formed) : e.SpelledByWords := by
  induction e with
  | literal value place =>
      exact ⟨fun _ _ hrest => .intro (.literal (ofToken?_word value)) hrest⟩
  | name n => exact ⟨fun _ _ hrest => .intro (.name (ofToken?_name n)) hrest⟩
  | not place operand ih =>
      refine ⟨fun _ hstop hrest => ?_⟩
      have hoperand := (ih he).lastOperand (by decide) hstop
      exact .intro (.not (t := (Word.symbol .not).token) rfl hoperand) hrest
  | binary operator place left right ihLeft ihRight =>
      refine ⟨fun {power next us whole} hpower hstop hrest => ?_⟩
      have hunary : BindingPower.ofPrecedence operator.token.precedence ≤ .unary :=
        Nat.le_of_lt (power_bounds operator).2
      have hright := (ihRight he.2).lastOperand hunary hstop
      have hgrown : left.unplaced.RestSpelled power next _ whole :=
        .binary (t := (Word.symbol operator.token).token) rfl hpower hright hrest
      -- the left operand stands in the surroundings of the whole, looser than its operator
      have hbare : decide (left.power < .ofPrecedence operator.token.precedence) = false →
          power < left.power ∧ left.Stops (some operator.token) := by
        intro hleft
        have hle := of_decide_eq_false hleft
        exact ⟨Nat.lt_of_lt_of_le hpower (Nat.le_of_not_lt hle), stops_token operator hle⟩
      have hwhole := (ihLeft he.1).operand hbare hgrown
      simpa [words] using hwhole
  | call callee arguments ihCallee ihArguments =>
      refine ⟨fun {power next us whole} hpower _ hrest => ?_⟩
      obtain ⟨hcallable, hcallee, harguments⟩ := he
      have hlist : ListSpelled (some .rightParenthesis) true _ _ :=
        listSpelled_commas rfl arguments fun e he =>
          ihArguments e he (formedAll_iff.1 harguments e he)
      have hgrown : callee.unplaced.RestSpelled power next _ whole :=
        .call (t := (Word.symbol .leftParenthesis).token)
          (u := (Word.symbol .rightParenthesis).token) rfl hpower
          ((isCallable_unplaced callee).trans hcallable) hlist rfl hrest
      have hparts : power < callee.power ∧ ∀ next, callee.Stops next := by
        cases callee with
        | name n => exact ⟨hpower, fun _ => trivial⟩
        | call callee arguments => exact ⟨hpower, fun _ => trivial⟩
        | _ => cases hcallable
      have hwhole := (ihCallee hcallee).grow hparts.1 (hparts.2 _) hgrown
      simpa [words] using hwhole

/-- A value, a condition or a call, before a token that goes on with no expression. -/
theorem spelled_printed {e : Expr} (he : e.Formed) {kind : TokenKind}
    (hkind : Grammar.standardInfix kind = none) :
    e.unplaced.Spelled .default (some kind) (printed e.words) :=
  (e.spelledByWords he).default hkind

theorem listSpelled_printed {es : List Expr} (hes : FormedAll es) {kind : TokenKind}
    (hkind : Grammar.standardInfix kind = none) :
    ListSpelled (some kind) true (unplacedAll es) (printed (commas (wordsAll es))) :=
  listSpelled_commas hkind es fun e he => e.spelledByWords (formedAll_iff.1 hes e he)

/-- What is called starts with a name, and arguments stand behind the name. -/
theorem words_of_isCallable {e : Expr} (he : e.Formed) (hcallable : e.isCallable = true)
    (ws : List Word) : ∃ text vs, e.words ++ Word.symbol .leftParenthesis :: ws =
      .name text :: Word.symbol .leftParenthesis :: vs := by
  induction e generalizing ws with
  | name n => exact ⟨n.text, ws, rfl⟩
  | call callee arguments ih _ =>
      obtain ⟨text, vs, h⟩ := ih he.2.1 he.1
        (commas (wordsAll arguments) ++ Word.symbol .rightParenthesis ::
          Word.symbol .leftParenthesis :: ws)
      exact ⟨text, vs, by simpa [words, parentheses] using h⟩
  | literal value place => cases hcallable
  | not place operand ih => cases hcallable
  | binary operator place left right ihLeft ihRight => cases hcallable

/-- A call starts with a name, and arguments stand behind the name. -/
theorem words_of_isCall {e : Expr} (he : e.Formed) (hcall : e.isCall = true) :
    ∃ text vs, e.words = .name text :: Word.symbol .leftParenthesis :: vs := by
  cases e with
  | call callee arguments => exact words_of_isCallable he.2.1 he.1 _
  | _ => cases hcall

end Expr

/-! ### Statements -/

/-- The words of an update spell it, before a token that does not go on with an expression. -/
theorem Update.spelled_printed {u : Update} (hu : u.Formed) {kind : TokenKind}
    (hkind : Grammar.standardInfix kind = none) :
    u.unplaced.Spelled (some kind) (printed u.words) := by
  cases u with
  | assign value => exact .assign rfl (Expr.spelled_printed hu hkind)
  | add value => exact .add rfl (Expr.spelled_printed hu hkind)
  | subtract value => exact .subtract rfl (Expr.spelled_printed hu hkind)
  | increment => exact .increment rfl
  | decrement => exact .decrement rfl

namespace Simple

/-- The words of a statement without blocks spell it, before a token that does not go on with an
expression. -/
theorem spelled_printed {s : Simple} (hs : s.Formed) {kind : TokenKind}
    (hkind : Grammar.standardInfix kind = none) :
    s.unplaced.Spelled (some kind) (printed s.words) := by
  cases s with
  | call place e =>
      obtain ⟨text, vs, hwords⟩ := Expr.words_of_isCall hs.2 hs.1
      have he := Expr.spelled_printed hs.2 hkind
      rw [hwords] at he
      rw [words, hwords]
      exact .call (t := (Word.name text).token) rfl ((Expr.isCall_unplaced e).trans hs.1) he
  | change target update => exact .change (ofToken?_name target) (Update.spelled_printed hs hkind)

theorem maybeSpelled_printed {s? : Option Simple} (hs : ∀ s ∈ s?, s.Formed) {kind : TokenKind}
    (hkind : Grammar.standardInfix kind = none) :
    MaybeSpelled (some kind) (s?.map unplaced) (printed (words? s?)) := by
  cases s? with
  | none => exact .none
  | some s => exact .some (spelled_printed (hs s rfl) hkind)

/-- Every statement without blocks starts with a name. -/
theorem exists_words {s : Simple} (hs : s.Formed) :
    ∃ text ws, s.words = .name text :: ws := by
  cases s with
  | call place e =>
      obtain ⟨text, vs, hwords⟩ := Expr.words_of_isCall hs.2 hs.1
      exact ⟨text, _, hwords⟩
  | change target update => exact ⟨target.text, _, rfl⟩

end Simple

namespace Stmt

/-- No statement starts with the word for the second part of a choice. -/
theorem exists_words {s : Stmt} (hs : s.Formed) :
    ∃ w ws, s.words = w :: ws ∧ w.kind ≠ .elseWord := by
  cases s with
  | simple s =>
      obtain ⟨text, ws, hwords⟩ := Simple.exists_words hs
      exact ⟨.name text, ws ++ [Word.symbol .semicolon], by simp [words, hwords],
        (by decide : TokenKind.identifier ≠ .elseWord)⟩
  | branch place condition thenBlock elseBlock? =>
      cases elseBlock? <;> exact ⟨Word.symbol .ifWord, _, rfl, by decide⟩
  | declare place name type => exact ⟨Word.symbol .varWord, _, rfl, by decide⟩
  | whileLoop place condition body => exact ⟨Word.symbol .whileWord, _, rfl, by decide⟩
  | forLoop place init? condition action? body =>
      exact ⟨Word.symbol .forWord, _, rfl, by decide⟩
  | result place values => exact ⟨Word.symbol .returnWord, _, rfl, by decide⟩

theorem nextKind_wordsAll {xs : List Stmt} (hxs : FormedAll xs) :
    nextKind (printed (wordsAll xs)) (some .rightBrace) ≠ some .elseWord := by
  cases xs with
  | nil => decide
  | cons x xs =>
      obtain ⟨w, ws, hwords, hkind⟩ := exists_words hxs.1
      simpa [wordsAll, hwords, Word.token] using hkind

@[simp] theorem isReturn_unplaced (s : Stmt) : s.unplaced.isReturn = s.isReturn := by
  cases s with
  | branch place condition thenBlock elseBlock? => cases elseBlock? <;> rfl
  | _ => rfl

/-- The words of a list of statements spell it, since no word `else` begins a statement. -/
theorem listSpelled_of_forall (xs : List Stmt) (hformed : FormedAll xs)
    (hxs : ∀ x ∈ xs, x.Formed → ∀ next, next ≠ some .elseWord →
      x.unplaced.Spelled next (printed x.words)) :
    ListSpelled (unplacedAll xs) (printed (wordsAll xs)) := by
  induction xs with
  | nil => exact .nil
  | cons x xs ih =>
      obtain ⟨hx, hlast, hothers⟩ := hformed
      have hspelled := hxs x List.mem_cons_self hx _ (nextKind_wordsAll hothers)
      have hrest := ih hothers fun y hy => hxs y (List.mem_cons_of_mem x hy)
      rw [wordsAll, printed_append, unplacedAll]
      refine .cons hspelled hrest fun hreturn => ?_
      rw [hlast ((isReturn_unplaced x).symm.trans hreturn)]
      rfl

theorem BlockSpelled.printed {xs : List Stmt}
    (h : ListSpelled (unplacedAll xs) (printed (wordsAll xs))) :
    BlockSpelled (unplacedAll xs) (Syntax.printed (braces (wordsAll xs))) := by
  rw [printed_braces]
  exact .intro rfl h rfl

/-- **A statement is spelled by its words**, unless a second part of a choice follows. -/
theorem spelled_printed (s : Stmt) (hs : s.Formed) (next : Option TokenKind)
    (hnext : next ≠ some .elseWord) : s.unplaced.Spelled next (printed s.words) := by
  induction s generalizing next with
  | declare place name type =>
      exact .declare (t := (Word.symbol .varWord).token) rfl (ofToken?_name name)
        (ofToken?_name type) rfl
  | simple s =>
      obtain ⟨text, ws, hwords⟩ := Simple.exists_words hs
      have hfirst : nextKind (printed s.words) none = some .identifier := by
        rw [hwords]
        rfl
      rw [words, printed_append]
      exact .simple hfirst (Simple.spelled_printed hs rfl) rfl
  | branch place condition thenBlock ih =>
      have hthen := BlockSpelled.printed (listSpelled_of_forall thenBlock hs.2 ih)
      rw [words, printed_cons, printed_append]
      exact .branch (t := (Word.symbol .ifWord).token) rfl (Expr.spelled_printed hs.1 rfl) hthen
        hnext
  | branchElse place condition thenBlock elseBlock ihThen ihElse =>
      have hthen := BlockSpelled.printed (listSpelled_of_forall thenBlock hs.2.1 ihThen)
      have helse := BlockSpelled.printed (listSpelled_of_forall elseBlock hs.2.2 ihElse)
      rw [words, printed_cons, printed_append, printed_append, printed_cons]
      exact .branchElse (t := (Word.symbol .ifWord).token) rfl (Expr.spelled_printed hs.1 rfl)
        hthen rfl helse
  | whileLoop place condition body ih =>
      have hbody := BlockSpelled.printed (listSpelled_of_forall body hs.2 ih)
      rw [words, printed_cons, printed_append]
      exact .whileLoop (t := (Word.symbol .whileWord).token) rfl (Expr.spelled_printed hs.1 rfl)
        hbody
  | forLoop place init? condition action? body ih =>
      obtain ⟨hinit, hcondition, haction, hbody⟩ := hs
      have hblock := BlockSpelled.printed (listSpelled_of_forall body hbody ih)
      rw [words, printed_cons, printed_append, printed_cons, printed_append, printed_cons,
        printed_append]
      exact .forLoop (t := (Word.symbol .forWord).token) rfl
        (Simple.maybeSpelled_printed hinit rfl) rfl (Expr.spelled_printed hcondition rfl) rfl
        (Simple.maybeSpelled_printed haction rfl) hblock
  | result place values =>
      rw [words, printed_cons, printed_append]
      exact .result (t := (Word.symbol .returnWord).token) rfl
        (Expr.listSpelled_printed hs rfl) rfl

end Stmt

/-! ### Functions -/

theorem Param.spelled_printed (p : Param) : p.unplaced.Spelled (printed p.words) :=
  ⟨_, _, ofToken?_name p.name, ofToken?_name p.type, rfl⟩

/-- The words of no type, of one and of several ones spell them. -/
theorem resultsSpelled_printed (types : List Name) :
    ResultsSpelled (types.map Name.unplaced) (printed (resultWords types)) := by
  match types with
  | [] => exact .none
  | [type] => exact .one (ofToken?_name type)
  | type :: other :: others =>
      have hname : ∀ n : Name, n.unplaced.Spelled (printed [.name n.text]) :=
        fun n => ⟨_, ofToken?_name n, rfl⟩
      change ResultsSpelled _ (printed (parentheses _))
      rw [printed_parentheses]
      exact .group rfl (itemsSpelled_printed hname (type :: other :: others)) rfl

/-- **A function is spelled by its words.** -/
theorem Func.spelled_printed {f : Func} (hf : f.Formed) :
    f.unplaced.Spelled (printed f.words) := by
  have hbody := Stmt.BlockSpelled.printed (Stmt.listSpelled_of_forall f.body hf
    fun x _ hx => x.spelled_printed hx)
  simp only [words, printed_cons, printed_append, printed_parentheses, List.cons_append,
    List.append_assoc, List.nil_append]
  exact .intro rfl (ofToken?_name f.name) rfl
    (itemsSpelled_printed Param.spelled_printed f.parameters) rfl
    (resultsSpelled_printed f.results) hbody

/-- **A file is spelled by its words.** -/
theorem fileSpelled_printed (fs : List Func) (hfs : ∀ f ∈ fs, f.Formed) :
    FileSpelled (fs.map Func.unplaced) (printed (fileWords fs)) := by
  induction fs with
  | nil => exact .nil
  | cons f fs ih =>
      have hothers := ih fun g hg => hfs g (List.mem_cons_of_mem f hg)
      rw [fileWords, List.flatMap_cons, printed_append]
      exact .cons (Func.spelled_printed (hfs f List.mem_cons_self)) hothers

end FrontEnd.Syntax
