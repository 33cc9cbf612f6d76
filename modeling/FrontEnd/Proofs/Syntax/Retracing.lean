/-
**Spelling and building is reading.**

The other direction: in front of tokens that spell a tree, with a token behind them of the kind that
the spelling allows, the parser takes just these tokens, and it succeeds if the nodes of the tree
can be made.  Where a part ends was left open in the grammar by the token that follows, so this
token decides that the parser does not go on, and that it does not stop early.

Main definitions:

* `FrontEnd.Parser.Follows` — a computation takes tokens and does what a building does.

Main results:

* `FrontEnd.Parser.Follows.bind` — sequences of reading and building;
* `FrontEnd.Parser.follows_separatedFrom` — spelled items with commas between them are read;
* `FrontEnd.Parser.follows_expression` — a spelled expression is read.
-/

import FrontEnd.Proofs.Syntax.Reading

set_option relaxedAutoImplicit false
set_option autoImplicit false

namespace FrontEnd.Parser

open Syntax Run

variable {α β γ : Type} {next : Option TokenKind} {t : Token} {ts us : List Token}

/-! ### Reading along a building -/

/-- In front of the tokens, and of a token of the given kind behind them, the computation takes the
tokens and does what the building does. -/
structure Follows (next : Option TokenKind) (ts : List Token) (action : ParseM β)
    (build : BuildM β) : Prop where
  run : ∀ {s : Parser} {rest : List Token} {b : β} {d : Draft}, s.rest = ts ++ rest →
    nextKind rest none = next → build s.draft = .ok b d → action s = .ok b (s.resume rest d)

namespace Follows

/-- **A sequence follows a sequence** if its steps do. -/
theorem bind {action : ParseM α} {build : BuildM α} {then₁ : α → ParseM β} {then₂ : α → BuildM β}
    (h : Follows (nextKind us next) ts action build)
    (hthen : ∀ a, Follows next us (then₁ a) (then₂ a)) :
    Follows next (ts ++ us) (action >>= then₁) (build >>= then₂) := by
  constructor
  intro s rest b d hrest hnext hbuild
  obtain ⟨a, d₁, ha, hb⟩ := bind_ok_iff.1 hbuild
  have hkind : nextKind (us ++ rest) none = nextKind us next := by rw [nextKind_append, hnext]
  rw [List.append_assoc] at hrest
  exact bind_ok (h.run hrest hkind ha) ((hthen a).run rfl hnext hb)

theorem pure (b : β) : Follows next [] (Pure.pure b) (Pure.pure b) := by
  constructor
  intro s rest b' d hrest _ hbuild
  obtain ⟨rfl, rfl⟩ := pure_ok_iff.1 hbuild
  rw [← show s.rest = rest from hrest]
  rfl

/-- A step that takes no token goes first. -/
theorem step {action : ParseM α} {build : BuildM α} {then₁ : α → ParseM β} {then₂ : α → BuildM β}
    (h : Follows (nextKind us next) [] action build)
    (hthen : ∀ a, Follows next us (then₁ a) (then₂ a)) :
    Follows next us (action >>= then₁) (build >>= then₂) := by
  rw [← List.nil_append us]
  exact bind h hthen

/-- Steps that take no token go last. -/
theorem last {action : ParseM α} {build : BuildM α} {then₁ : α → ParseM β} {then₂ : α → BuildM β}
    (h : Follows next ts action build) (hthen : ∀ a, Follows next [] (then₁ a) (then₂ a)) :
    Follows next ts (action >>= then₁) (build >>= then₂) := by
  rw [← List.append_nil ts]
  exact bind h hthen

theorem map {action : ParseM α} {build : BuildM α} (f : α → β)
    (h : Follows next ts action build) : Follows next ts (f <$> action) (f <$> build) := by
  constructor
  intro s rest b d hrest hnext hbuild
  obtain ⟨a, ha, rfl⟩ := map_ok_iff.1 hbuild
  exact map_ok_iff.2 ⟨a, h.run hrest hnext ha, rfl⟩

/-- A computation may look at the tokens in front of it. -/
theorem look {action : Parser → ParseM β} {build : BuildM β}
    (h : ∀ (s : Parser) (rest : List Token), s.rest = ts ++ rest →
      Follows next ts (action s) build) :
    Follows next ts (MonadState.get >>= action) build := by
  constructor
  intro s rest b d hrest hnext hbuild
  exact bind_ok (get_ok_iff.2 ⟨rfl, rfl⟩) ((h s rest hrest).run hrest hnext hbuild)

/-- A computation may look at the kind of the next token. -/
theorem lookKind {action : Parser → ParseM β} {build : BuildM β}
    (h : ∀ s : Parser, s.kind? = nextKind ts next → Follows next ts (action s) build) :
    Follows next ts (MonadState.get >>= action) build := by
  constructor
  intro s rest b d hrest hnext hbuild
  have hkind : s.kind? = nextKind ts next := by rw [kind?_eq, hrest, nextKind_append, hnext]
  exact bind_ok (get_ok_iff.2 ⟨rfl, rfl⟩) ((h s hkind).run hrest hnext hbuild)

/-- A computation may look at the program that is being built. -/
theorem get {action : Parser → ParseM β} {build : Draft → BuildM β}
    (h : ∀ s : Parser, Follows next ts (action s) (build s.draft)) :
    Follows next ts (MonadState.get >>= action) (MonadState.get >>= build) := by
  constructor
  intro s rest b d hrest hnext hbuild
  obtain ⟨_, _, hget, hbuild⟩ := bind_ok_iff.1 hbuild
  obtain ⟨rfl, rfl⟩ := get_ok_iff.1 hget
  exact bind_ok (get_ok_iff.2 ⟨rfl, rfl⟩) ((h s).run hrest hnext hbuild)

/-- A token is taken, of which the building knows nothing. -/
theorem take {action : ParseM α} {then₁ : α → ParseM β} {build : BuildM β} {a : α}
    (haction : ∀ {s : Parser} {rest : List Token}, s.rest = t :: rest →
      action s = .ok a (s.resume rest s.draft))
    (hthen : Follows next ts (then₁ a) build) :
    Follows next (t :: ts) (action >>= then₁) build := by
  constructor
  intro s rest b d hrest hnext hbuild
  exact bind_ok (haction hrest) (hthen.run rfl hnext hbuild)

theorem expect {kind : TokenKind} {then₁ : Token → ParseM β} {build : BuildM β}
    (ht : t.kind = kind) (hthen : Follows next ts (then₁ t) build) :
    Follows next (t :: ts) (Parser.expect kind >>= then₁) build :=
  take (fun hrest => expect_ok_iff.2 ⟨ht, _, hrest, rfl⟩) hthen

theorem expectOneOf {kinds : List TokenKind} {then₁ : Token → ParseM β} {build : BuildM β}
    (ht : t.kind ∈ kinds) (hthen : Follows next ts (then₁ t) build) :
    Follows next (t :: ts) (Parser.expectOneOf kinds >>= then₁) build :=
  take (fun hrest => expectOneOf_ok_iff.2 ⟨ht, _, hrest, rfl⟩) hthen

theorem discardAdvance {then₁ : Unit → ParseM β} {build : BuildM β}
    (hthen : Follows next ts (then₁ ()) build) :
    Follows next (t :: ts) (discard Parser.advance >>= then₁) build :=
  take (fun hrest => discard_ok_iff.2 ⟨t, advance_ok_iff.2 ⟨_, hrest, rfl⟩⟩) hthen

theorem discardExpect {kind : TokenKind} {then₁ : Unit → ParseM β} {build : BuildM β}
    (ht : t.kind = kind) (hthen : Follows next ts (then₁ ()) build) :
    Follows next (t :: ts) (discard (Parser.expect kind) >>= then₁) build :=
  take (fun hrest => discard_ok_iff.2 ⟨t, expect_ok_iff.2 ⟨ht, _, hrest, rfl⟩⟩) hthen

theorem expectName {name : Name} {then₁ : Token × String → ParseM β} {build : BuildM β}
    (ht : Name.ofToken? t = some name) (hthen : Follows next ts (then₁ (t, name.text)) build) :
    Follows next (t :: ts) (Parser.expectName >>= then₁) build := by
  obtain ⟨text, place⟩ := name
  obtain rfl : place = t.position := (kind_of_ofToken? ht).2
  exact take (fun hrest => expectName_ok_iff.2 ⟨_, hrest, ht, rfl⟩) hthen

/-- Behind a part there is a token that closes it. -/
theorem close {kind : TokenKind} {u : Token} {action : ParseM α} {build : BuildM α}
    {then₁ : α → ParseM β} {then₂ : α → BuildM β} (hu : u.kind = kind)
    (h : Follows (some kind) ts action build)
    (hthen : ∀ a, Follows next us (then₁ a) (then₂ a)) :
    Follows next (ts ++ u :: us)
      (action >>= fun a => discard (Parser.expect kind) >>= fun _ => then₁ a)
      (build >>= then₂) :=
  bind (by rwa [nextKind_cons, hu]) fun a => discardExpect hu (hthen a)

/-! ### Nodes -/

/-- A step that reads nothing. -/
theorem of_ok_iff {action : ParseM β} {build : BuildM β}
    (h : ∀ {s s' : Parser} {b : β}, action s = .ok b s' ↔
      ∃ d, build s.draft = .ok b d ∧ s' = s.resume s.rest d) :
    Follows next [] action build := by
  constructor
  intro s rest b d hrest _ hbuild
  rw [← show s.rest = rest from hrest]
  exact h.2 ⟨d, hbuild, rfl⟩

theorem onProgram (action : ProgramM β) :
    Follows next [] (Parser.onProgram action) (Draft.onProgram action) :=
  of_ok_iff onProgram_ok_iff

theorem addDeclaration (declaration : Declaration) :
    Follows next [] (Parser.addDeclaration declaration) (Draft.addDeclaration declaration) :=
  of_ok_iff addDeclaration_ok_iff

theorem addExpression (e : Expression) :
    Follows next [] (Parser.addExpression e) (Draft.addExpression e) :=
  of_ok_iff addExpression_ok_iff

theorem addStatement (form : StmtForm) (place : Position) :
    Follows next [] (Parser.addStatement form place) (Draft.addStatement form place) :=
  of_ok_iff addStatement_ok_iff

theorem deferIf (ref : Reference) (change : Deferred → Deferred) :
    Follows next [] (Parser.deferIf ref change) (Draft.deferIf ref change) :=
  of_ok_iff deferIf_ok_iff

end Follows

/-! ### Items -/

section Items

variable {close : TokenKind} {item : ParseM β} (hitem : Reads 1 item)

include hitem

/-- A list of items ends before the closing token. -/
theorem follows_separatedFrom_nil (isFirst : Bool) :
    Follows (some close) [] (separatedFrom close item isFirst) (pure []) := by
  rw [separatedFrom_eq hitem]
  refine .lookKind fun s hkind => ?_
  rw [if_pos (by simpa using hkind)]
  exact .pure []

/-- The first item of a list. -/
theorem follows_separatedFrom_first {build : BuildM β} {others : BuildM (List β)}
    (hclose : nextKind ts none ≠ some close) (hts : ts ≠ [])
    (hx : Follows (nextKind us next) ts item build)
    (hothers : Follows next us (separatedFrom close item false) others) :
    Follows next (ts ++ us) (separatedFrom close item true)
      (build >>= fun y => others >>= fun ys => pure (y :: ys)) := by
  rw [separatedFrom_eq hitem]
  refine .lookKind fun s hkind => ?_
  obtain ⟨t, ts, rfl⟩ := List.exists_cons_of_ne_nil hts
  rw [if_neg (by simpa [hkind] using hclose)]
  exact .bind hx fun y => .last hothers fun ys => .pure (y :: ys)

/-- A further item of a list, behind a comma. -/
theorem follows_separatedFrom_more {build : BuildM β} {others : BuildM (List β)}
    (hclose : close ≠ .comma) (ht : t.kind = .comma)
    (hx : Follows (nextKind us next) ts item build)
    (hothers : Follows next us (separatedFrom close item false) others) :
    Follows next (t :: (ts ++ us)) (separatedFrom close item false)
      (build >>= fun y => others >>= fun ys => pure (y :: ys)) := by
  rw [separatedFrom_eq hitem]
  refine .lookKind fun s hkind => ?_
  rw [if_neg (by simpa [hkind, ht] using hclose.symm)]
  refine .discardExpect ht ?_
  exact .bind hx fun y => .last hothers fun ys => .pure (y :: ys)

end Items

/-! ### Expressions -/

theorem exists_buildAll_of_forall {scope : ScopeId} (es : List Expr)
    (hes : ∀ e ∈ es, ∀ d, ∃ id d', e.build scope d = .ok id d') (d : Draft) :
    ∃ ids d', Expr.buildAll scope es d = .ok ids d' := by
  induction es generalizing d with
  | nil => exact ⟨[], d, rfl⟩
  | cons e es ih =>
      obtain ⟨_, d₁, h⟩ := hes e List.mem_cons_self d
      obtain ⟨_, _, hothers⟩ := ih (fun e' he' => hes e' (List.mem_cons_of_mem e he')) d₁
      exact ⟨_, _, bind_ok h (bind_ok hothers rfl)⟩

/-- The nodes of an expression can always be made. -/
theorem exists_build (scope : ScopeId) (e : Expr) (d : Draft) :
    ∃ id d', e.build scope d = .ok id d' := by
  induction e generalizing d with
  | literal value place => exact ⟨_, _, rfl⟩
  | name n => exact ⟨_, _, rfl⟩
  | not place operand ih =>
      obtain ⟨_, _, h⟩ := ih d
      exact ⟨_, _, bind_ok h rfl⟩
  | binary operator place left right ihLeft ihRight =>
      obtain ⟨_, d₁, hleft⟩ := ihLeft d
      obtain ⟨_, _, hright⟩ := ihRight d₁
      exact ⟨_, _, bind_ok hleft (bind_ok hright rfl)⟩
  | call callee arguments ihCallee ihArguments =>
      obtain ⟨_, d₁, hcallee⟩ := ihCallee d
      obtain ⟨_, _, harguments⟩ := exists_buildAll_of_forall arguments ihArguments d₁
      exact ⟨_, _, bind_ok hcallee (bind_ok harguments rfl)⟩

theorem exists_buildAll (scope : ScopeId) (es : List Expr) (d : Draft) :
    ∃ ids d', Expr.buildAll scope es d = .ok ids d' :=
  exists_buildAll_of_forall es (fun e _ d => exists_build scope e d) d

theorem standardPrefix_of_literal {value : Literal} (h : Literal.ofToken? t = some value) :
    Grammar.standardPrefix t.kind = some .literal := by
  obtain ⟨kind, payload, place⟩ := t
  cases kind <;> cases payload <;> first | rfl | cases h

theorem standardInfix_token (operator : BinaryOperator) :
    Grammar.standardInfix operator.token =
      some (.binary, .ofPrecedence operator.token.precedence) := by
  simp [Grammar.standardInfix]

/-- The tokens start like an expression, and the start follows the building. -/
def StartFollows (e : Expr) (next : Option TokenKind) (ts : List Token) : Prop :=
  ∃ rule, (nextKind ts none).bind Grammar.standardPrefix = some rule ∧
    ∀ scope, Follows next ts (start (expression .standard) rule scope) (e.build scope)

/-- Behind a part that is built, the tokens make it grow to the whole. -/
structure RestFollows (left : Expr) (power : BindingPower) (next : Option TokenKind)
    (ts : List Token) (e : Expr) : Prop where
  run : ∀ {scope : ScopeId} {s : Parser} {rest : List Token} {leftId id : ExprId} {d₀ d : Draft},
    s.rest = ts ++ rest → nextKind rest none = next → left.build scope d₀ = .ok leftId s.draft →
      e.build scope d₀ = .ok id d →
        extend (expression .standard) .standard scope power leftId s = .ok id (s.resume rest d)

section Parts

variable {power : BindingPower} {e left right callee : Expr} {arguments : List Expr} {u : Token}

theorem startFollows_literal {value : Literal} (h : Literal.ofToken? t = some value) :
    StartFollows (.literal value t.position) next [t] := by
  refine ⟨.literal, standardPrefix_of_literal h, fun scope => ⟨fun hrest _ hbuild => ?_⟩⟩
  exact (literal_ok_iff scope).2 ⟨value, t, _, _, hrest, h, hbuild, rfl⟩

theorem startFollows_name {name : Name} (h : Name.ofToken? t = some name) :
    StartFollows (.name name) next [t] := by
  refine ⟨.identifier, ?_, fun scope => ⟨fun hrest _ hbuild => ?_⟩⟩
  · simp [(kind_of_ofToken? h).1, Grammar.standardPrefix]
  · exact identifier_ok_iff.2 ⟨name, t, _, _, hrest, h, hbuild, rfl⟩

theorem startFollows_not (ht : t.kind = .not)
    (h : ∀ scope, Follows next ts (expression .standard scope .unary) (e.build scope)) :
    StartFollows (.not t.position e) next (t :: ts) := by
  refine ⟨.negation, by simp [ht, Grammar.standardPrefix], fun scope => ?_⟩
  exact .expect ht (.last (h scope) fun _ => .addExpression _)

theorem startFollows_group (ht : t.kind = .leftParenthesis) (hu : u.kind = .rightParenthesis)
    (h : ∀ scope, Follows (some .rightParenthesis) ts (expression .standard scope .default)
      (e.build scope)) : StartFollows e next (t :: (ts ++ [u])) := by
  refine ⟨.grouping, by simp [ht, Grammar.standardPrefix], fun scope => ?_⟩
  rw [← bind_pure (e.build scope)]
  exact .discardExpect ht (.close hu (h scope) fun _ => .pure _)

/-- An expression is a start and its growth. -/
theorem follows_expression_of_parts {start : Expr}
    (hstart : StartFollows start (nextKind us next) ts) (hrest : RestFollows start power next us e)
    (scope : ScopeId) :
    Follows next (ts ++ us) (expression .standard scope power) (e.build scope) := by
  obtain ⟨rule, hrule, hstart⟩ := hstart
  constructor
  intro s rest id d hs hnext hbuild
  -- the start is built first, and its nodes are those that the growth begins with
  obtain ⟨startId, d₁, hd₁⟩ := exists_build scope start s.draft
  have hkind : (s.kind?).bind Grammar.standard.prefixRule = some rule := by
    cases ts with
    | nil => simp at hrule
    | cons t ts => simpa [kind?_eq, hs, Grammar.standard] using hrule
  rw [List.append_assoc] at hs
  rw [expression_eq]
  refine bind_ok (get_ok_iff.2 ⟨rfl, rfl⟩) ?_
  simp only [hkind]
  refine bind_ok ((hstart scope).run hs (by rw [nextKind_append, hnext]) hd₁) ?_
  exact hrest.run rfl hnext hd₁ hbuild

/-- Nothing grows before a token that does not go on with an expression. -/
theorem restFollows_done (h : ¬ Continues power next) : RestFollows e power next [] e := by
  constructor
  intro scope s rest leftId id d₀ d hs hnext hleft hbuild
  rw [hleft] at hbuild
  cases hbuild
  rw [extend_eq (reads_expression .standard)]
  refine bind_ok (get_ok_iff.2 ⟨rfl, rfl⟩) ?_
  rw [kind?_eq, hs, List.nil_append, hnext, ← show s.rest = rest from hs]
  cases hrule : next.bind Grammar.standard.infixRule with
  | none => rfl
  | some found =>
      obtain ⟨rule, tighter⟩ := found
      obtain ⟨kind, rfl, hkind⟩ := Option.bind_eq_some_iff.1 hrule
      -- an operator may follow, but none that binds tighter
      have hpower : ¬ power < tighter := fun hlt => h ⟨kind, rule, tighter, rfl, hkind, hlt⟩
      simp only [if_neg hpower]
      rfl

/-- A part grows by a continuation, and then further. -/
theorem restFollows_step {grown : Expr} {rule : InfixRule} {tighter : BindingPower}
    (hrule : Grammar.standardInfix t.kind = some (rule, tighter)) (hpower : power < tighter)
    (hcontinuation : ∀ {scope : ScopeId} {s : Parser} {rest : List Token} {leftId : ExprId}
      {d₀ : Draft}, s.rest = t :: (ts ++ rest) → nextKind rest none = nextKind us next →
        left.build scope d₀ = .ok leftId s.draft → ∃ id d, grown.build scope d₀ = .ok id d ∧
          continuation (expression .standard) rule scope leftId tighter s =
            .ok id (s.resume rest d))
    (hgrown : RestFollows grown power next us e) :
    RestFollows left power next (t :: (ts ++ us)) e := by
  constructor
  intro scope s rest leftId id d₀ d hs hnext hleft hbuild
  have hs' : s.rest = t :: (ts ++ (us ++ rest)) := by simp [hs]
  obtain ⟨grownId, d₁, hd₁, hrun⟩ :=
    hcontinuation hs' (by rw [nextKind_append, hnext]) hleft
  have hkind : (s.kind?).bind Grammar.standard.infixRule = some (rule, tighter) := by
    simpa [kind?_eq, hs, Grammar.standard] using hrule
  rw [extend_eq (reads_expression .standard)]
  refine bind_ok (get_ok_iff.2 ⟨rfl, rfl⟩) ?_
  simp only [hkind, if_pos hpower]
  exact bind_ok hrun (hgrown.run rfl hnext hd₁ hbuild)

/-- An operator and its right operand make a part grow, if the operator binds tighter than the
surroundings. -/
theorem restFollows_binary {operator : BinaryOperator} (ht : t.kind = operator.token)
    (hpower : power < .ofPrecedence t.kind.precedence)
    (hright : ∀ scope, Follows (nextKind us next) ts
      (expression .standard scope (.ofPrecedence t.kind.precedence)) (right.build scope))
    (hgrown : RestFollows (.binary operator t.position left right) power next us e) :
    RestFollows left power next (t :: (ts ++ us)) e := by
  have hrule : Grammar.standardInfix t.kind =
      some (.binary, .ofPrecedence t.kind.precedence) := by rw [ht, standardInfix_token]
  refine restFollows_step hrule hpower ?_ hgrown
  intro scope s rest leftId d₀ hs hnext hleft
  obtain ⟨rightId, d₁, hd₁⟩ := exists_build scope right s.draft
  refine ⟨_, _, bind_ok hleft (bind_ok hd₁ rfl), ?_⟩
  refine bind_ok (advance_ok_iff.2 ⟨_, hs, rfl⟩) ?_
  rw [BinaryOperator.ofToken?_eq_some_iff.2 ht]
  exact bind_ok ((hright scope).run rfl hnext hd₁) (addExpression_ok_iff.2 ⟨_, rfl, rfl⟩)

/-- Arguments make a part grow that can be called. -/
theorem restFollows_call (ht : t.kind = .leftParenthesis) (hpower : power < .call)
    (hcallable : callee.isCallable = true) (hu : u.kind = .rightParenthesis)
    (harguments : ∀ scope, Follows (some .rightParenthesis) ts
      (separatedFrom .rightParenthesis (expression .standard scope .default) true)
      (Expr.buildAll scope arguments))
    (hgrown : RestFollows (.call callee arguments) power next us e) :
    RestFollows callee power next (t :: (ts ++ u :: us)) e := by
  have hrule : Grammar.standardInfix t.kind = some (.call, .call) := by
    simp [ht, Grammar.standardInfix, BinaryOperator.ofToken?]
  have htokens : ts ++ u :: us = (ts ++ [u]) ++ us := by simp
  rw [htokens]
  refine restFollows_step hrule hpower ?_ hgrown
  intro scope s rest calleeId d₀ hs hnext hcallee
  obtain ⟨ids, d₁, hd₁⟩ := exists_buildAll scope arguments s.draft
  refine ⟨_, _, bind_ok hcallee (bind_ok hd₁ rfl), ?_⟩
  refine bind_ok (expect_ok_iff.2 ⟨ht, _, hs, rfl⟩) (bind_ok (get_ok_iff.2 ⟨rfl, rfl⟩) ?_)
  -- whether something may be called is read off its last node
  obtain ⟨node, hnode, hposition, hnodeCallable, -⟩ := build_node hcallee
  rw [draft_program] at hnode
  simp only [resume_program, draft_program, hnode]
  have hclosed : Follows (nextKind rest none) (ts ++ [u])
      (separated .rightParenthesis (expression .standard scope .default) >>= fun ids =>
        discard (expect .rightParenthesis) >>= fun _ =>
          addExpression { form := .call calleeId ids, position := node.position })
      (Expr.buildAll scope arguments >>= fun ids =>
        Draft.addExpression { form := .call calleeId ids, position := node.position }) :=
    .close hu (harguments scope) fun _ => .addExpression _
  have hcalled : node.isCallable = true := hnodeCallable.trans hcallable
  refine bind_ok (a := ()) (require_ok_iff.2 ⟨hcalled, rfl⟩) ?_
  rw [← hposition]
  exact hclosed.run rfl rfl (bind_ok hd₁ rfl)

/-- An expression starts with a token from which expressions are read. -/
theorem exists_prefix_of_spelled (h : e.Spelled power next ts) :
    ∃ t us rule, ts = t :: us ∧ Grammar.standardPrefix t.kind = some rule := by
  obtain ⟨hstart, -⟩ := h
  cases hstart with
  | literal h => exact ⟨_, _, _, rfl, standardPrefix_of_literal h⟩
  | name h => exact ⟨_, _, .identifier, rfl, by rw [(kind_of_ofToken? h).1]; rfl⟩
  | not ht _ => exact ⟨_, _, .negation, rfl, by rw [ht]; rfl⟩
  | group ht _ _ => exact ⟨_, _, .grouping, rfl, by rw [ht]; rfl⟩

/-- No expression starts with a token of a kind that has no rule. -/
theorem nextKind_of_spelled (h : e.Spelled power next ts) (kind : TokenKind)
    (hkind : Grammar.standardPrefix kind = none) : ts ≠ [] ∧ nextKind ts none ≠ some kind := by
  obtain ⟨t, us, rule, rfl, hrule⟩ := exists_prefix_of_spelled h
  refine ⟨List.cons_ne_nil _ _, fun hnext => ?_⟩
  obtain rfl : t.kind = kind := Option.some.inj hnext
  rw [hkind] at hrule
  cases hrule

end Parts

mutual

theorem follows_expression {power : BindingPower} {next : Option TokenKind} {e : Expr}
    {ts : List Token} :
    e.Spelled power next ts → ∀ scope,
      Follows next ts (expression .standard scope power) (e.build scope)
  | .intro hstart hrest => follows_expression_of_parts (startFollows hstart) (restFollows hrest)

theorem startFollows {e : Expr} {next : Option TokenKind} {ts : List Token} :
    e.StartSpelled next ts → StartFollows e next ts
  | .literal h => startFollows_literal h
  | .name h => startFollows_name h
  | .not ht h => startFollows_not ht (follows_expression h)
  | .group ht h hu => startFollows_group ht hu (follows_expression h)

theorem restFollows {left e : Expr} {power : BindingPower} {next : Option TokenKind}
    {ts : List Token} :
    left.RestSpelled power next ts e → RestFollows left power next ts e
  | .done h => restFollows_done h
  | .binary ht hpower hright hrest =>
      restFollows_binary ht hpower (follows_expression hright) (restFollows hrest)
  | .call ht hpower hcallable hlist hu hrest =>
      restFollows_call ht hpower hcallable hu (follows_arguments hlist rfl) (restFollows hrest)

/-- The tokens of arguments are read along the building of the list, by recursion on the
spelling. -/
theorem follows_arguments {next : Option TokenKind} {isFirst : Bool} {es : List Expr}
    {ts : List Token} :
    Expr.ListSpelled next isFirst es ts → next = some .rightParenthesis → ∀ scope,
      Follows next ts
        (separatedFrom .rightParenthesis (expression .standard scope .default) isFirst)
        (Expr.buildAll scope es)
  | .done => fun hnext scope =>
      hnext ▸ follows_separatedFrom_nil (reads_expression .standard scope .default) _
  | .first h hothers => fun hnext scope =>
      have hfirst := nextKind_of_spelled h .rightParenthesis rfl
      follows_separatedFrom_first (reads_expression .standard scope .default) hfirst.2 hfirst.1
        (follows_expression h scope) (follows_arguments hothers hnext scope)
  | .more ht h hothers => fun hnext scope =>
      follows_separatedFrom_more (reads_expression .standard scope .default) (by decide) ht
        (follows_expression h scope) (follows_arguments hothers hnext scope)

end

end FrontEnd.Parser
