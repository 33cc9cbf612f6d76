/-
**Reading without a bound.**

The functions of the parser carry a bound on their recursion, computed from the number of tokens
left.  Every round takes a token, so a bound that covers the tokens left makes no difference, and
each function satisfies the equation that one would write down without a bound.

Main definition:

* `FrontEnd.Parser.AgreeBelow` — doing the same when fewer than some number of tokens are left.

Main results:

* `FrontEnd.Parser.separatedFrom_eq` — lists of items;
* `FrontEnd.Parser.extend_eq`, `FrontEnd.Parser.expression_eq` — expressions;
* `FrontEnd.Parser.moreValues_eq`, `FrontEnd.Parser.statementsFrom_eq` — statements;
* `FrontEnd.Parser.file_eq` — files.
-/

import FrontEnd.Parser.Progress

set_option relaxedAutoImplicit false
set_option autoImplicit false

namespace FrontEnd.Parser

variable {α β : Type} {j k : Nat}

/-! ### Doing the same -/

/-- The computations do the same wherever fewer than `k` tokens are left. -/
def AgreeBelow (k : Nat) (m m' : ParseM α) : Prop := ∀ s, s.rest.length < k → m s = m' s

namespace AgreeBelow

theorem refl (m : ParseM α) : AgreeBelow k m m := fun _ _ => rfl

theorem eq_of_length {m m' : ParseM α} {s : Parser} (h : AgreeBelow (s.rest.length + 1) m m') :
    m s = m' s := h s (Nat.lt_succ_self _)

theorem mono {m m' : ParseM α} (h : AgreeBelow k m m') (hjk : j ≤ k) : AgreeBelow j m m' :=
  fun s hs => h s (Nat.lt_of_lt_of_le hs hjk)

/-- Nothing has fewer than no tokens left. -/
theorem zero (m m' : ParseM α) : AgreeBelow 0 m m' := fun _ hs => absurd hs (Nat.not_lt_zero _)

/-- What follows a step that takes `j` tokens has `j` tokens less to read. -/
theorem bind {m m' : ParseM α} {f f' : α → ParseM β} (hm : AgreeBelow k m m') (hj : Reads j m)
    (hf : ∀ a, AgreeBelow (k - j) (f a) (f' a)) : AgreeBelow k (m >>= f) (m' >>= f') := by
  intro s hs
  change EStateM.bind m f s = EStateM.bind m' f' s
  unfold EStateM.bind
  rw [← hm s hs]
  cases hr : m s with
  | error e s' => rfl
  | ok a s' =>
      obtain ⟨_, hlength⟩ := hj.of_ok hr
      exact hf a s' (by omega)

/-- The same step, which need not take anything, then what agrees. -/
theorem after {m : ParseM α} {f f' : α → ParseM β} (hm : Reads 0 m)
    (hf : ∀ a, AgreeBelow k (f a) (f' a)) : AgreeBelow k (m >>= f) (m >>= f') :=
  (refl m).bind hm hf

/-- The same step, which takes a token, then what agrees. -/
theorem afterOne {m : ParseM α} {f f' : α → ParseM β} (hm : Reads 1 m)
    (hf : ∀ a, AgreeBelow k (f a) (f' a)) : AgreeBelow (k + 1) (m >>= f) (m >>= f') :=
  (refl m).bind hm hf

/-- Steps that agree, then the same. -/
theorem before {m m' : ParseM α} (f : α → ParseM β) (hm : AgreeBelow k m m') :
    AgreeBelow k (m >>= f) (m' >>= f) := by
  intro s hs
  change EStateM.bind m f s = EStateM.bind m' f s
  unfold EStateM.bind
  rw [hm s hs]

theorem map {m m' : ParseM α} (f : α → β) (hm : AgreeBelow k m m') :
    AgreeBelow k (f <$> m) (f <$> m') := by
  rw [← bind_pure_comp, ← bind_pure_comp]
  exact hm.before _

theorem ite {c : Prop} [Decidable c] {m₁ m₁' m₂ m₂' : ParseM α} (h₁ : AgreeBelow k m₁ m₁')
    (h₂ : AgreeBelow k m₂ m₂') : AgreeBelow k (if c then m₁ else m₂) (if c then m₁' else m₂') := by
  split
  · exact h₁
  · exact h₂

/-- Looking at the state before going on. -/
theorem get_bind {f f' : Parser → ParseM α} (hf : ∀ s, AgreeBelow k (f s) (f' s)) :
    AgreeBelow k (MonadState.get >>= f) (MonadState.get >>= f') := after .get hf

end AgreeBelow

/-- Where no token is left, none is next. -/
theorem kind?_eq_none {s : Parser} (h : s.rest.length < 1) : s.kind? = none := by
  have hnil : s.rest = [] := List.length_eq_zero_iff.1 (Nat.lt_one_iff.1 h)
  simp [kind?, current?, hnil]

/-! ### Lists of items without the bound -/

/-- Two bounds for a list of items do the same wherever they both reach as far as there are
tokens. -/
theorem separatedUpTo_agree {close : TokenKind} {item item' : ParseM α} (hitem : Reads 1 item)
    (hagree : AgreeBelow k item item') (n n' : Nat) (isFirst : Bool) (hn : k ≤ n) (hn' : k ≤ n') :
    AgreeBelow k (separatedUpTo close item n isFirst) (separatedUpTo close item' n' isFirst) := by
  induction n generalizing k n' isFirst with
  | zero =>
      obtain rfl : k = 0 := by omega
      exact .zero _ _
  | succ n ih =>
      cases n' with
      | zero =>
          obtain rfl : k = 0 := by omega
          exact .zero _ _
      | succ n' =>
          refine .get_bind fun s => .ite (.refl _) ?_
          refine .after (reads_comma isFirst) fun _ => hagree.bind hitem fun x => ?_
          exact (ih (hagree.mono (Nat.sub_le k 1)) n' false (by omega) (by omega)).before _

theorem separatedFrom_agree {close : TokenKind} {item item' : ParseM α} (hitem : Reads 1 item)
    (hagree : AgreeBelow k item item') (isFirst : Bool) :
    AgreeBelow k (separatedFrom close item isFirst) (separatedFrom close item' isFirst) :=
  fun s hs => separatedUpTo_agree hitem (hagree.mono hs) _ _ isFirst (Nat.le_refl _)
    (Nat.le_refl _) s (Nat.lt_succ_self _)

/-- A bound above the number of tokens left makes no difference. -/
theorem separatedUpTo_eq_separatedFrom {close : TokenKind} {item : ParseM α}
    (hitem : Reads 1 item) {n : Nat} {s : Parser} (hn : s.rest.length < n) (isFirst : Bool) :
    separatedUpTo close item n isFirst s = separatedFrom close item isFirst s :=
  separatedUpTo_agree hitem (.refl item) _ _ isFirst hn (Nat.le_refl _) s (Nat.lt_succ_self _)

/-- A list of items is empty before the closing token; else an item comes first. -/
theorem separatedFrom_eq {close : TokenKind} {item : ParseM α} (hitem : Reads 1 item)
    (isFirst : Bool) :
    separatedFrom close item isFirst = (do
      if (← MonadState.get).kind? = some close then Pure.pure []
      else
        comma isFirst
        let x ← item
        let others ← separatedFrom close item false
        Pure.pure (x :: others)) := by
  funext s
  change separatedUpTo close item (s.rest.length + 1) isFirst s = _
  refine AgreeBelow.eq_of_length (.get_bind fun s' => .ite (.refl _) ?_)
  refine .after (reads_comma isFirst) fun _ => .afterOne hitem fun x => .before _ ?_
  exact fun _ hlength => separatedUpTo_eq_separatedFrom hitem hlength false

/-! ### Expressions without the bound -/

section Parts

variable {part part' : ScopeId → BindingPower → ParseM ExprId} (hpart : ∀ scope power,
  Reads 1 (part scope power)) (hagree : ∀ scope power,
  AgreeBelow k (part scope power) (part' scope power))

include hpart hagree

omit hpart in
/-- The parts of a start come after its first token. -/
theorem start_agree (rule : PrefixRule) (scope : ScopeId) :
    AgreeBelow (k + 1) (start part rule scope) (start part' rule scope) := by
  cases rule with
  | literal => exact .refl _
  | identifier => exact .refl _
  | negation =>
      exact .afterOne (reads_expect .not) fun _ => (hagree scope .unary).before _
  | grouping =>
      exact .afterOne (reads_expect .leftParenthesis).discard fun _ =>
        (hagree scope .default).before _

/-- The parts of a continuation come after its first token. -/
theorem continuation_agree (rule : InfixRule) (scope : ScopeId) (left : ExprId)
    (power : BindingPower) :
    AgreeBelow (k + 1) (continuation part rule scope left power)
      (continuation part' rule scope left power) := by
  cases rule with
  | binary =>
      refine .afterOne reads_advance fun t => ?_
      split
      · exact .refl _
      · exact (hagree scope power).before _
  | call =>
      refine .afterOne (reads_expect .leftParenthesis) fun opening => .get_bind fun s => ?_
      split
      · exact .refl _
      · refine .after (Reads.require _ _) fun _ => .before _ ?_
        exact separatedFrom_agree (hpart scope .default) (hagree scope .default) true

/-- The rounds of a continuation do not depend on the bound, once it covers the tokens that are
left. -/
theorem extendUpTo_agree (g : Grammar) (scope : ScopeId) (power : BindingPower) (n n' : Nat)
    (left : ExprId) (hn : j ≤ n + 1) (hn' : j ≤ n' + 1) (hj : j ≤ k + 1) :
    AgreeBelow j (extendUpTo part g scope power n left)
      (extendUpTo part' g scope power n' left) := by
  induction n generalizing j n' left with
  | zero =>
      cases n' with
      | zero => exact .refl _
      | succ n' =>
          intro s hs
          have hnone : s.kind? = none := kind?_eq_none (by omega)
          simp [extendUpTo, get_bind_apply, hnone]
  | succ n ih =>
      cases n' with
      | zero =>
          intro s hs
          have hnone : s.kind? = none := kind?_eq_none (by omega)
          simp [extendUpTo, get_bind_apply, hnone]
      | succ n' =>
          refine .get_bind fun s => ?_
          split
          · exact .refl _
          · rename_i rule tighter _
            refine .ite ?_ (.refl _)
            refine ((continuation_agree hpart hagree rule scope left tighter).mono hj).bind
              (reads_continuation hpart rule scope left tighter) fun left => ?_
            exact ih n' left (by omega) (by omega) (by omega)

theorem extend_agree (g : Grammar) (scope : ScopeId) (power : BindingPower) (left : ExprId) :
    AgreeBelow (k + 1) (extend part g scope power left) (extend part' g scope power left) :=
  fun s hs => extendUpTo_agree hpart hagree g scope power _ _ left (Nat.le_refl _)
    (Nat.le_refl _) hs s (Nat.lt_succ_self _)

omit hagree

/-- A bound that covers the tokens left makes no difference. -/
theorem extendUpTo_eq_extend (g : Grammar) (scope : ScopeId) (power : BindingPower) {n : Nat}
    (left : ExprId) {s : Parser} (hn : s.rest.length ≤ n) :
    extendUpTo part g scope power n left s = extend part g scope power left s :=
  extendUpTo_agree hpart (fun _ _ => .refl _) g scope power _ _ left (Nat.succ_le_succ hn)
    (Nat.le_refl _) (Nat.le_refl _) s (Nat.lt_succ_self _)

/-- An expression goes on if the next token binds tighter, and is done otherwise. -/
theorem extend_eq (g : Grammar) (scope : ScopeId) (power : BindingPower) (left : ExprId) :
    extend part g scope power left = (do
      match (← MonadState.get).kind?.bind g.infixRule with
      | none => Pure.pure left
      | some (rule, tighter) =>
          if power < tighter then
            let left ← continuation part rule scope left tighter
            extend part g scope power left
          else Pure.pure left) := by
  funext s
  rw [← extendUpTo_eq_extend hpart g scope power left (Nat.le_succ s.rest.length)]
  refine AgreeBelow.eq_of_length ?_
  refine .get_bind fun s' => ?_
  cases s'.kind?.bind g.infixRule with
  | none => exact .refl _
  | some next =>
    obtain ⟨rule, tighter⟩ := next
    refine .ite (.afterOne (reads_continuation hpart rule scope left tighter) ?_) (.refl _)
    exact fun left s' hs' =>
      extendUpTo_eq_extend hpart g scope power left (Nat.le_of_lt hs')

end Parts

/-- Nor does the depth to which the parts of an expression are read. -/
theorem expressionUpTo_agree (g : Grammar) (n n' : Nat) (scope : ScopeId) (power : BindingPower)
    (hn : k ≤ n + 1) (hn' : k ≤ n' + 1) :
    AgreeBelow k (expressionUpTo g n scope power) (expressionUpTo g n' scope power) := by
  induction n generalizing k n' scope power with
  | zero =>
      cases n' with
      | zero => exact .refl _
      | succ n' =>
          intro s hs
          have hnone : s.kind? = none := kind?_eq_none (by omega)
          simp [expressionUpTo, get_bind_apply, hnone]
  | succ n ih =>
      cases n' with
      | zero =>
          intro s hs
          have hnone : s.kind? = none := kind?_eq_none (by omega)
          simp [expressionUpTo, get_bind_apply, hnone]
      | succ n' =>
          refine .get_bind fun s => ?_
          have hparts : ∀ scope power, AgreeBelow (k - 1) (expressionUpTo g n scope power)
              (expressionUpTo g n' scope power) := fun scope power =>
            ih n' scope power (by omega) (by omega)
          split
          · exact .refl _
          · rename_i rule _
            refine ((start_agree hparts rule scope).mono (by omega)).bind
              (reads_start (reads_expressionUpTo g n) rule scope) fun left => ?_
            exact (extend_agree (reads_expressionUpTo g n) hparts g scope power left).mono
              (by omega)

/-- A bound that covers the tokens left makes no difference. -/
theorem expressionUpTo_eq_expression (g : Grammar) (scope : ScopeId) (power : BindingPower)
    {n : Nat} {s : Parser} (hn : s.rest.length ≤ n) :
    expressionUpTo g n scope power s = expression g scope power s :=
  expressionUpTo_agree g _ _ scope power (Nat.succ_le_succ hn) (Nat.le_refl _) s
    (Nat.lt_succ_self _)

/-- An expression is a start that is continued as far as the surroundings allow. -/
theorem expression_eq (g : Grammar) (scope : ScopeId) (power : BindingPower) :
    expression g scope power = (do
      match (← MonadState.get).kind?.bind g.prefixRule with
      | none => refuse "<expression>"
      | some rule =>
          let left ← start (expression g) rule scope
          extend (expression g) g scope power left) := by
  funext s
  rw [← expressionUpTo_eq_expression g scope power (Nat.le_succ s.rest.length)]
  have hparts : ∀ scope power, AgreeBelow (s.rest.length + 1)
      (expressionUpTo g s.rest.length scope power) (expression g scope power) :=
    fun scope power s' hs' => expressionUpTo_eq_expression g scope power (Nat.le_of_lt_succ hs')
  refine AgreeBelow.eq_of_length ?_
  refine .get_bind fun s' => ?_
  cases s'.kind?.bind g.prefixRule with
  | none => exact .refl _
  | some rule =>
    refine ((start_agree hparts rule scope).mono (Nat.le_succ _)).bind
      (reads_start (reads_expressionUpTo g _) rule scope) fun left => ?_
    exact (extend_agree (reads_expressionUpTo g _) hparts g scope power left).mono (by omega)

/-! ### Values without the bound -/

/-- Nor does the number of further values. -/
theorem moreValuesUpTo_agree (g : Grammar) (scope : ScopeId) (n n' : Nat) (hn : k ≤ n + 1)
    (hn' : k ≤ n' + 1) :
    AgreeBelow k (moreValuesUpTo g scope n) (moreValuesUpTo g scope n') := by
  induction n generalizing k n' with
  | zero =>
      cases n' with
      | zero => exact .refl _
      | succ n' =>
          intro s hs
          have hnone : s.kind? = none := kind?_eq_none (by omega)
          simp [moreValuesUpTo, get_bind_apply, hnone]
  | succ n ih =>
      cases n' with
      | zero =>
          intro s hs
          have hnone : s.kind? = none := kind?_eq_none (by omega)
          simp [moreValuesUpTo, get_bind_apply, hnone]
      | succ n' =>
          refine .get_bind fun s => .ite ?_ (.refl _)
          refine (AgreeBelow.refl _).bind reads_advance.discard fun _ => ?_
          refine .after ((reads_expression g scope .default).mono (Nat.zero_le 1)) fun _ => ?_
          exact (ih n' (by omega) (by omega)).before _

/-- A bound that covers the tokens left makes no difference. -/
theorem moreValuesUpTo_eq_moreValues (g : Grammar) (scope : ScopeId) {n : Nat} {s : Parser}
    (hn : s.rest.length ≤ n) : moreValuesUpTo g scope n s = moreValues g scope s :=
  moreValuesUpTo_agree g scope _ _ (Nat.succ_le_succ hn) (Nat.le_refl _) s (Nat.lt_succ_self _)

/-- Further values go on behind a comma. -/
theorem moreValues_eq (g : Grammar) (scope : ScopeId) :
    moreValues g scope = (do
      if (← MonadState.get).kind? = some .comma then
        discard advance
        let value ← expression g scope .default
        let others ← moreValues g scope
        Pure.pure (value :: others)
      else Pure.pure []) := by
  funext s
  rw [← moreValuesUpTo_eq_moreValues g scope (Nat.le_succ s.rest.length)]
  refine AgreeBelow.eq_of_length ?_
  refine .get_bind fun s' => .ite (.afterOne reads_advance.discard fun _ => ?_) (.refl _)
  refine .after ((reads_expression g scope .default).mono (Nat.zero_le 1)) fun _ => .before _ ?_
  exact fun s' hs' => moreValuesUpTo_eq_moreValues g scope (Nat.le_of_lt hs')

/-! ### Statements without the bound -/

section Lists

variable (g : Grammar) {list list' : ScopeId → ParseM (List StmtId)} (hlist : ∀ scope,
  Reads 0 (list scope)) (hagree : ∀ scope, AgreeBelow k (list scope) (list' scope))

include hagree

theorem blockOf_agree (scope : ScopeId) :
    AgreeBelow (k + 1) (blockOf list scope) (blockOf list' scope) :=
  .after (reads_onProgram _) fun _ => .before _ <|
    .afterOne (reads_expect .leftBrace).discard fun _ => (hagree _).before _

theorem elseBlock_agree (scope : ScopeId) :
    AgreeBelow (k + 1) (elseBlock list scope) (elseBlock list' scope) :=
  .get_bind fun _ => .ite
    (.after (reads_advance.discard.mono (Nat.zero_le 1)) fun _ =>
      (blockOf_agree hagree scope).map _)
    (.refl _)

include hlist

/-- The lists in the blocks of a statement come after its first token. -/
theorem statementOf_agree (scope : ScopeId) :
    AgreeBelow (k + 1) (statementOf g list scope) (statementOf g list' scope) := by
  refine .get_bind fun s => ?_
  split
  · exact .refl _
  · exact .refl _
  · exact .refl _
  · refine .after ((reads_expect .ifWord).mono (Nat.zero_le 1)) fun _ => ?_
    refine .after ((reads_expression g scope .default).mono (Nat.zero_le 1)) fun _ => ?_
    refine (blockOf_agree hagree scope).bind
      ((reads_blockOf hlist scope).mono (Nat.zero_le 1)) fun _ => ?_
    exact (elseBlock_agree hagree scope).before _
  · refine .after ((reads_expect .whileWord).mono (Nat.zero_le 1)) fun _ => ?_
    refine .after ((reads_expression g scope .default).mono (Nat.zero_le 1)) fun _ => ?_
    exact (blockOf_agree hagree scope).before _
  · refine .after ((reads_expect .forWord).mono (Nat.zero_le 1)) fun _ => ?_
    refine .after (reads_simpleUnless g _ scope) fun _ => ?_
    refine .after ((reads_expect .semicolon).discard.mono (Nat.zero_le 1)) fun _ => ?_
    refine .after ((reads_expression g scope .default).mono (Nat.zero_le 1)) fun _ => ?_
    refine .after ((reads_expect .semicolon).discard.mono (Nat.zero_le 1)) fun _ => ?_
    refine .after (reads_simpleUnless g _ scope) fun _ => ?_
    exact (blockOf_agree hagree scope).before _
  · exact .refl _

end Lists

/-- Nor do the number of statements in a list and their depth. -/
theorem statementsUpTo_agree (g : Grammar) (n n' : Nat) (closed : Bool) (scope : ScopeId)
    (hn : k ≤ n + 1) (hn' : k ≤ n' + 1) :
    AgreeBelow k (statementsUpTo g n closed scope) (statementsUpTo g n' closed scope) := by
  induction n generalizing k n' closed scope with
  | zero =>
      cases n' with
      | zero => exact .refl _
      | succ n' =>
          intro s hs
          have hnone : s.kind? = none := kind?_eq_none (by omega)
          simp [statementsUpTo, get_bind_apply, hnone]
  | succ n ih =>
      cases n' with
      | zero =>
          intro s hs
          have hnone : s.kind? = none := kind?_eq_none (by omega)
          simp [statementsUpTo, get_bind_apply, hnone]
      | succ n' =>
          refine .get_bind fun s => ?_
          split
          · exact .refl _
          · refine .ite (.refl _) (.after (Reads.require _ _) fun _ => ?_)
            have hlists : ∀ scope, AgreeBelow (k - 1) (statementsUpTo g n false scope)
                (statementsUpTo g n' false scope) := fun scope =>
              ih n' false scope (by omega) (by omega)
            refine ((statementOf_agree g (reads_statementsUpTo g n false) hlists scope).mono
              (by omega)).bind (reads_statementOf g (reads_statementsUpTo g n false) scope)
              fun _ => .get_bind fun _ => .before _ ?_
            exact ih n' _ _ (by omega) (by omega)

/-- A bound that covers the tokens left makes no difference. -/
theorem statementsUpTo_eq_statementsFrom (g : Grammar) (closed : Bool) (scope : ScopeId)
    {n : Nat} {s : Parser} (hn : s.rest.length ≤ n) :
    statementsUpTo g n closed scope s = statementsFrom g closed scope s :=
  statementsUpTo_agree g _ _ closed scope (Nat.succ_le_succ hn) (Nat.le_refl _) s
    (Nat.lt_succ_self _)

/-- A list of statements ends before a closing brace; else a statement comes first. -/
theorem statementsFrom_eq (g : Grammar) (closed : Bool) (scope : ScopeId) :
    statementsFrom g closed scope = (do
      let s ← MonadState.get
      match s.kind? with
      | none => refuse "'\x7d'"
      | some kind =>
          if kind = .rightBrace then Pure.pure []
          else
            require (closed = false) (Cause.returnNotLast.at s.position)
            let (id, behind) ← statement g scope
            let others ← statementsFrom g ((← MonadState.get).isReturn id) behind
            Pure.pure (id :: others)) := by
  funext s
  rw [← statementsUpTo_eq_statementsFrom g closed scope (Nat.le_succ s.rest.length)]
  have hlists : ∀ scope, AgreeBelow (s.rest.length + 1)
      (statementsUpTo g s.rest.length false scope) (statements g scope) :=
    fun scope s' hs' =>
      statementsUpTo_eq_statementsFrom g false scope (Nat.le_of_lt_succ hs')
  refine AgreeBelow.eq_of_length ?_
  refine .get_bind fun s' => ?_
  cases s'.kind? with
  | none => exact .refl _
  | some kind =>
    refine .ite (.refl _) (.after (Reads.require _ _) fun _ => ?_)
    refine ((statementOf_agree g (reads_statementsUpTo g _ false) hlists scope).mono
      (Nat.le_succ _)).bind (reads_statementOf g (reads_statementsUpTo g _ false) scope)
      fun _ => .get_bind fun _ => .before _ ?_
    exact fun s' hs' => statementsUpTo_eq_statementsFrom g _ _ (by omega)

/-! ### Functions without the bound -/

/-- Nor does the number of functions. -/
theorem functionsUpTo_agree (g : Grammar) (n n' : Nat) (hn : k ≤ n + 1) (hn' : k ≤ n' + 1) :
    AgreeBelow k (functionsUpTo g n) (functionsUpTo g n') := by
  induction n generalizing k n' with
  | zero =>
      cases n' with
      | zero => exact .refl _
      | succ n' =>
          intro s hs
          have hnone : s.kind? = none := kind?_eq_none (by omega)
          simp [functionsUpTo, get_bind_apply, hnone]
  | succ n ih =>
      cases n' with
      | zero =>
          intro s hs
          have hnone : s.kind? = none := kind?_eq_none (by omega)
          simp [functionsUpTo, get_bind_apply, hnone]
      | succ n' =>
          refine .get_bind fun s => ?_
          split
          · exact .refl _
          · refine .ite ((AgreeBelow.refl _).bind (reads_function g .file) fun _ => ?_) (.refl _)
            exact .after (.onState fun _ => by rfl) fun _ => ih n' (by omega) (by omega)

/-- A bound that covers the tokens left makes no difference. -/
theorem functionsUpTo_eq_file (g : Grammar) {n : Nat} {s : Parser} (hn : s.rest.length ≤ n) :
    functionsUpTo g n s = file g s :=
  functionsUpTo_agree g _ _ (Nat.succ_le_succ hn) (Nat.le_refl _) s (Nat.lt_succ_self _)

/-- A file ends with the tokens; else a function comes first. -/
theorem file_eq (g : Grammar) :
    file g = (do
      match (← MonadState.get).kind? with
      | none => Pure.pure ()
      | some kind =>
          if kind = .funcWord then
            let decl ← function g .file
            modify fun s => { s with program := s.program.addTopLevel decl }
            file g
          else refuse "'func'") := by
  funext s
  rw [← functionsUpTo_eq_file g (Nat.le_succ s.rest.length)]
  refine AgreeBelow.eq_of_length ?_
  refine .get_bind fun s' => ?_
  cases s'.kind? with
  | none => exact .refl _
  | some kind =>
    refine .ite (.afterOne (reads_function g .file) fun _ => ?_) (.refl _)
    refine .after (.onState fun _ => by rfl) fun _ => ?_
    exact fun s' hs' => functionsUpTo_eq_file g (Nat.le_of_lt hs')

end FrontEnd.Parser
