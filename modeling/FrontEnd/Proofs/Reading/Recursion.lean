/-
**The recursion of reading comes to an end.**

Reading an expression calls itself for the parts of the expression, by way of rules that are looked
up for the next token, and each list of items is read in a loop up to a token that may never come.
The functions of the parser bound these recursions by the number of tokens left.  Here they are
written once more without any bound: `Routine.body` is one round of every recursion and every loop,
in which all the calls go to a given function.

Unfolding the body `n` times leaves the calls that are `n` deep to that function.  A recursion ends
within `n` rounds where the outcome does not depend on it.  Two rounds take at least a token, so
every recursion ends, whatever the tokens and whatever the tables of the grammar are.

Main definitions:

* `FrontEnd.Parser.EndsWithin` — a recursion that makes no call deeper than some bound;
* `FrontEnd.Parser.Routine` — the recursions and loops of reading;
* `FrontEnd.Parser.Routine.body` — one round of each;
* `FrontEnd.Parser.Routine.run` — what the parser does.

Main results:

* `FrontEnd.Parser.EndsWithin.unique` — a recursion that ends has one solution;
* `FrontEnd.Parser.Routine.body_run` — the parser solves the recursions;
* `FrontEnd.Parser.Routine.run_endsWithin` — **every recursion of reading comes to an end**;
* `FrontEnd.Parser.Routine.body_eq_iff` — so nothing else solves them.
-/

import FrontEnd.Parser.Unbounded
import Mathlib.Logic.Function.Iterate

set_option relaxedAutoImplicit false
set_option autoImplicit false

namespace FrontEnd.Parser

/-! ### Recursions that end -/

section Rounds

variable {ι : Type} {Answer : ι → Type}

/-- Unfolded `n` times, the recursion does not reach the calls that are left over: the outcome is
the same, whatever they would do. -/
def EndsWithin (body : (∀ i, ParseM (Answer i)) → ∀ i, ParseM (Answer i)) (n : Nat) (i : ι)
    (s : Parser) : Prop :=
  ∀ calls calls', body^[n] calls i s = body^[n] calls' i s

/-- A recursion that ends has one solution. -/
theorem EndsWithin.unique {body : (∀ i, ParseM (Answer i)) → ∀ i, ParseM (Answer i)} {n : Nat}
    {i : ι} {s : Parser} (h : EndsWithin body n i s) {f f' : ∀ i, ParseM (Answer i)}
    (hf : body f = f) (hf' : body f' = f') : f i s = f' i s := by
  have hends := h f f'
  rwa [Function.iterate_fixed hf, Function.iterate_fixed hf'] at hends

end Rounds

/-! ### The routines of reading -/

/-- The recursions and loops of reading.  `isFirst` tells that no item was read before, `closed`
that the statement before was a `return`. -/
inductive Routine where
  /-- An expression. -/
  | expression (scope : ScopeId) (power : BindingPower)
  /-- The rest of an expression. -/
  | extension (scope : ScopeId) (power : BindingPower) (left : ExprId)
  /-- The arguments of a call. -/
  | arguments (scope : ScopeId) (isFirst : Bool)
  /-- The parameters of a function. -/
  | parameters (scope : ScopeId) (isFirst : Bool)
  /-- The results of a function, in parentheses. -/
  | results (scope : ScopeId) (isFirst : Bool)
  /-- The values of a `return` behind the first one. -/
  | values (scope : ScopeId)
  /-- The statements of a list. -/
  | statements (closed : Bool) (scope : ScopeId)
  /-- The functions of a file. -/
  | functions

/-- What a routine answers. -/
abbrev Routine.Answer : Routine → Type
  | .expression _ _ => ExprId
  | .extension _ _ _ => ExprId
  | .arguments _ _ => List ExprId
  | .parameters _ _ => List Field
  | .results _ _ => List Field
  | .values _ => List ExprId
  | .statements _ _ => List StmtId
  | .functions => Unit

/-- One round of a list of items up to a closing token: the next item, then the others. -/
def itemsBy {α : Type} (close : TokenKind) (item : ParseM α) (others : ParseM (List α))
    (isFirst : Bool) : ParseM (List α) := do
  if (← get).kind? = some close then pure []
  else
    comma isFirst
    let x ← item
    let xs ← others
    pure (x :: xs)

/-- Reads the arguments of a call, given how to read the list of them. -/
def callBy (arguments : ParseM (List ExprId)) (called : ExprId) : ParseM ExprId := do
  let opening ← expect .leftParenthesis
  match (← get).program.expression? called with
  | none => throw (Cause.notCallable.at opening.position)
  | some callee =>
      require (callee.isCallable = true) (Cause.notCallable.at opening.position)
      let arguments ← arguments
      discard (expect .rightParenthesis)
      addExpression { form := .call called arguments, position := callee.position }

/-- Reads the continuation of an expression, given how to read parts and lists of arguments. -/
def continuationBy (part : ScopeId → BindingPower → ParseM ExprId)
    (arguments : ParseM (List ExprId)) (rule : InfixRule) (scope : ScopeId) (left : ExprId)
    (power : BindingPower) : ParseM ExprId :=
  match rule with
  | .binary => binary part scope left power
  | .call => callBy arguments left

namespace Routine

/-- One round of a routine, in which all the calls go to `calls`.  The expressions in a statement
and the statements in a function are read as the parser reads them: they call nothing above
themselves. -/
def body (g : Grammar) (calls : ∀ r : Routine, ParseM r.Answer) : ∀ r : Routine, ParseM r.Answer
  | .expression scope power => do
      match (← get).kind?.bind g.prefixRule with
      | none => refuse "<expression>"
      | some rule =>
          let left ← start (fun scope power => calls (.expression scope power)) rule scope
          calls (.extension scope power left)
  | .extension scope power left => do
      match (← get).kind?.bind g.infixRule with
      | none => pure left
      | some (rule, tighter) =>
          if power < tighter then
            let left ← continuationBy (fun scope power => calls (.expression scope power))
              (calls (.arguments scope true)) rule scope left tighter
            calls (.extension scope power left)
          else pure left
  | .arguments scope isFirst =>
      itemsBy .rightParenthesis (calls (.expression scope .default))
        (calls (.arguments scope false)) isFirst
  | .parameters scope isFirst =>
      itemsBy .rightParenthesis (parameter scope) (calls (.parameters scope false)) isFirst
  | .results scope isFirst =>
      itemsBy .rightParenthesis (resultField scope) (calls (.results scope false)) isFirst
  | .values scope => do
      if (← get).kind? = some .comma then
        discard advance
        let value ← Parser.expression g scope .default
        let others ← calls (.values scope)
        pure (value :: others)
      else pure []
  | .statements closed scope => do
      let s ← get
      match s.kind? with
      | none => refuse "'\x7d'"
      | some kind =>
          if kind = .rightBrace then pure []
          else
            require (closed = false) (Cause.returnNotLast.at s.position)
            let (id, behind) ← statementOf g (fun scope => calls (.statements false scope)) scope
            let others ← calls (.statements ((← get).isReturn id) behind)
            pure (id :: others)
  | .functions => do
      match (← get).kind? with
      | none => pure ()
      | some kind =>
          if kind = .funcWord then
            let decl ← function g .file
            modify fun s => { s with program := s.program.addTopLevel decl }
            calls .functions
          else refuse "'func'"

/-- What the parser does for a routine. -/
def run (g : Grammar) : ∀ r : Routine, ParseM r.Answer
  | .expression scope power => Parser.expression g scope power
  | .extension scope power left => extend (Parser.expression g) g scope power left
  | .arguments scope isFirst =>
      separatedFrom .rightParenthesis (Parser.expression g scope .default) isFirst
  | .parameters scope isFirst => separatedFrom .rightParenthesis (parameter scope) isFirst
  | .results scope isFirst => separatedFrom .rightParenthesis (resultField scope) isFirst
  | .values scope => moreValues g scope
  | .statements closed scope => statementsFrom g closed scope
  | .functions => file g

/-! ### The parser solves the recursions -/

theorem continuationBy_separated (part : ScopeId → BindingPower → ParseM ExprId)
    (rule : InfixRule) (scope : ScopeId) (left : ExprId) (power : BindingPower) :
    continuationBy part (separatedFrom .rightParenthesis (part scope .default) true) rule scope
      left power = continuation part rule scope left power := by
  cases rule <;> rfl

/-- **The parser solves the recursions of reading.** -/
theorem body_run (g : Grammar) : body g (run g) = run g := by
  funext r
  cases r with
  | expression scope power => exact (expression_eq g scope power).symm
  | extension scope power left =>
      refine Eq.trans ?_ (extend_eq (reads_expression g) g scope power left).symm
      refine bind_congr fun s => ?_
      cases s.kind?.bind g.infixRule with
      | none => rfl
      | some next =>
          obtain ⟨rule, tighter⟩ := next
          cases rule with
          | binary => rfl
          | call => rfl
  | arguments scope isFirst => exact (separatedFrom_eq (reads_expression g scope _) isFirst).symm
  | parameters scope isFirst => exact (separatedFrom_eq (reads_parameter scope) isFirst).symm
  | results scope isFirst => exact (separatedFrom_eq (reads_resultField scope) isFirst).symm
  | values scope => exact (moreValues_eq g scope).symm
  | statements closed scope => exact (statementsFrom_eq g closed scope).symm
  | functions => exact (file_eq g).symm

end Routine

/-! ### Rounds take tokens -/

section Agreement

variable {k n : Nat}

theorem itemsBy_agree {α : Type} {close : TokenKind} {item item' : ParseM α}
    {others others' : ParseM (List α)} (hitem : Reads 1 item) (hagree : AgreeBelow k item item')
    (hothers : AgreeBelow (k - 1) others others') (isFirst : Bool) :
    AgreeBelow k (itemsBy close item others isFirst) (itemsBy close item' others' isFirst) := by
  refine .get_bind fun s => .ite (.refl _) ?_
  refine .after (reads_comma isFirst) fun _ => hagree.bind hitem fun x => ?_
  exact hothers.before _

theorem callBy_agree {arguments arguments' : ParseM (List ExprId)}
    (hagree : AgreeBelow k arguments arguments') (called : ExprId) :
    AgreeBelow (k + 1) (callBy arguments called) (callBy arguments' called) := by
  refine .afterOne (reads_expect .leftParenthesis) fun opening => .get_bind fun s => ?_
  split
  · exact .refl _
  · exact .after (Reads.require _ _) fun _ => hagree.before _

/-- The parts and the arguments of a continuation come after its first token. -/
theorem continuationBy_agree {part part' : ScopeId → BindingPower → ParseM ExprId}
    {arguments arguments' : ParseM (List ExprId)}
    (hpart : ∀ scope power, AgreeBelow k (part scope power) (part' scope power))
    (hagree : AgreeBelow k arguments arguments') (rule : InfixRule) (scope : ScopeId)
    (left : ExprId) (power : BindingPower) :
    AgreeBelow (k + 1) (continuationBy part arguments rule scope left power)
      (continuationBy part' arguments' rule scope left power) := by
  cases rule with
  | binary =>
      refine .afterOne reads_advance fun t => ?_
      split
      · exact .refl _
      · exact (hpart scope power).before _
  | call => exact callBy_agree hagree left

theorem reads_continuationBy (g : Grammar) (rule : InfixRule) (scope : ScopeId) (left : ExprId)
    (power : BindingPower) :
    Reads 1 (continuationBy (expression g)
      (separatedFrom .rightParenthesis (expression g scope .default) true) rule scope left
      power) := by
  rw [Routine.continuationBy_separated]
  exact reads_continuation (reads_expression g) rule scope left power

namespace Routine

/-- A list of arguments may go on with an expression before it has taken a token.  Every other
routine takes a token in a round that goes on, and so is a round ahead. -/
def lead : Routine → Nat
  | .arguments _ _ => 0
  | _ => 1

/-- After `n` rounds, `f` does what the parser does on half as many tokens. -/
def Follows (g : Grammar) (n : Nat) (f : ∀ r : Routine, ParseM r.Answer) : Prop :=
  ∀ r, AgreeBelow ((n + r.lead) / 2) (run g r) (f r)

theorem follows_zero (g : Grammar) (f : ∀ r : Routine, ParseM r.Answer) : Follows g 0 f := by
  intro r s hs
  have hlead : r.lead ≤ 1 := by cases r <;> simp [lead]
  omega

/-- One more round reads what follows the token that the round has taken. -/
theorem Follows.body {g : Grammar} {f : ∀ r : Routine, ParseM r.Answer} (h : Follows g n f) :
    Follows g (n + 1) (body g f) := by
  -- what comes behind the token of this round is read with one token less
  have hbehind : ∀ r, AgreeBelow ((n + 1 + 1) / 2 - 1) (run g r) (f r) := by
    intro r
    exact (h r).mono (by omega)
  have hround : (n + 1 + 1) / 2 ≤ (n + 1 + 1) / 2 - 1 + 1 := by omega
  intro r
  rw [← congrFun (body_run g) r]
  cases r with
  | expression scope power =>
      refine .get_bind fun s => ?_
      split
      · exact .refl _
      · have hstart := start_agree (fun scope power => hbehind (.expression scope power))
        exact ((hstart _ scope).mono hround).bind (reads_start (reads_expression g) _ scope)
          fun left => hbehind (.extension scope power left)
  | extension scope power left =>
      refine .get_bind fun s => ?_
      split
      · exact .refl _
      · have hcontinuation := continuationBy_agree
          (fun scope power => hbehind (.expression scope power)) (hbehind (.arguments scope true))
        refine .ite ?_ (.refl _)
        exact ((hcontinuation _ scope left _).mono hround).bind
          (reads_continuationBy g _ scope left _) fun left =>
            hbehind (.extension scope power left)
  | arguments scope isFirst =>
      -- the first argument starts at the token at which the list starts
      refine itemsBy_agree (reads_expression g scope .default) (h (.expression scope .default)) ?_
        isFirst
      exact (hbehind (.arguments scope false)).mono (by simp only [lead]; omega)
  | parameters scope isFirst =>
      exact itemsBy_agree (reads_parameter scope) (.refl _) (hbehind (.parameters scope false))
        isFirst
  | results scope isFirst =>
      exact itemsBy_agree (reads_resultField scope) (.refl _) (hbehind (.results scope false))
        isFirst
  | values scope =>
      refine .get_bind fun s => .ite ?_ (.refl _)
      refine (AgreeBelow.refl _).bind reads_advance.discard fun _ => ?_
      refine .after ((reads_expression g scope .default).mono (Nat.zero_le 1)) fun _ => ?_
      exact (hbehind (.values scope)).before _
  | statements closed scope =>
      refine .get_bind fun s => ?_
      split
      · exact .refl _
      · have hstatement := statementOf_agree g (reads_statements g)
          (fun scope => hbehind (.statements false scope)) scope
        refine .ite (.refl _) (.after (Reads.require _ _) fun _ => ?_)
        refine (hstatement.mono hround).bind
          (reads_statementOf g (reads_statements g) scope) fun next => .get_bind fun s' => ?_
        exact (hbehind (.statements _ _)).before _
  | functions =>
      refine .get_bind fun s => ?_
      split
      · exact .refl _
      · refine .ite ((AgreeBelow.refl _).bind (reads_function g .file) fun _ => ?_) (.refl _)
        exact .after (.onState fun _ => by rfl) fun _ => hbehind .functions

theorem follows_iterate (g : Grammar) (n : Nat) (f : ∀ r : Routine, ParseM r.Answer) :
    Follows g n ((body g)^[n] f) := by
  induction n with
  | zero => exact follows_zero g f
  | succ n ih =>
      rw [Function.iterate_succ_apply']
      exact ih.body

/-- **Every recursion of reading comes to an end**, within two rounds for each token left and two
more. -/
theorem run_endsWithin (g : Grammar) (r : Routine) (s : Parser) :
    EndsWithin (body g) (2 * (s.rest.length + 1)) r s := by
  intro calls calls'
  have hfollows : ∀ f : ∀ r : Routine, ParseM r.Answer,
      run g r s = (body g)^[2 * (s.rest.length + 1)] f r s := by
    intro f
    refine follows_iterate g (2 * (s.rest.length + 1)) f r s ?_
    omega
  rw [← hfollows calls, ← hfollows calls']

/-- Nothing but the parser solves the recursions of reading. -/
theorem body_eq_iff (g : Grammar) (f : ∀ r : Routine, ParseM r.Answer) :
    body g f = f ↔ f = run g := by
  constructor
  · intro hf
    funext r s
    exact (run_endsWithin g r s).unique hf (body_run g)
  · rintro rfl
    exact body_run g

end Routine

end Agreement

end FrontEnd.Parser
