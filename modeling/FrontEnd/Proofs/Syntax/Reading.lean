/-
**Reading is spelling and building.**

A parser that succeeds has taken tokens that spell a tree, and has made the nodes of that tree.
What is read depends on the tokens alone, what is built on the tree alone; so every question about
the program that a text gives rise to can be asked of its tree.

Main definitions:

* `FrontEnd.Parser.draft`, `FrontEnd.Parser.resume` — the program part of a parser, and a parser
  with other tokens left and another draft;
* `FrontEnd.Parser.Takes` — between two states something is read.

Main results:

* `FrontEnd.Parser.separatedUpTo_ok` — items with commas between them that are read;
* `FrontEnd.Parser.expression_ok` — an expression that is read.
-/

import FrontEnd.Parser.Unbounded
import FrontEnd.Proofs.Run
import FrontEnd.Proofs.Syntax.Building
import FrontEnd.Proofs.Syntax.Spelling

set_option relaxedAutoImplicit false
set_option autoImplicit false

namespace FrontEnd.Parser

open Syntax Run

variable {α β : Type} {s s' : Parser} {scope : ScopeId}

/-! ### Parsers and drafts -/

/-- The program that is being built, with the places of its pending references. -/
def draft (s : Parser) : Draft := ⟨s.program, s.deferred⟩

/-- The parser with other tokens left and another draft. -/
def resume (s : Parser) (rest : List Token) (d : Draft) : Parser :=
  { s with rest, program := d.program, deferred := d.deferred }

@[simp] theorem resume_rest (s : Parser) (rest : List Token) (d : Draft) :
    (s.resume rest d).rest = rest := rfl

@[simp] theorem resume_draft (s : Parser) (rest : List Token) (d : Draft) :
    (s.resume rest d).draft = d := rfl

@[simp] theorem resume_program (s : Parser) (rest : List Token) (d : Draft) :
    (s.resume rest d).program = d.program := rfl

@[simp] theorem resume_resume (s : Parser) (rest rest' : List Token) (d d' : Draft) :
    (s.resume rest d).resume rest' d' = s.resume rest' d' := rfl

@[simp] theorem resume_self (s : Parser) : s.resume s.rest s.draft = s := rfl

@[simp] theorem draft_program (s : Parser) : s.draft.program = s.program := rfl

theorem kind?_eq (s : Parser) : s.kind? = nextKind s.rest none := by
  unfold kind? current?
  cases s.rest <;> rfl

/-! ### Steps -/

theorem position_of_rest {t : Token} {ts : List Token} (h : s.rest = t :: ts) :
    s.position = t.position := by
  unfold position current?
  rw [h]
  rfl

theorem advance_ok_iff {t : Token} :
    advance s = .ok t s' ↔ ∃ rest, s.rest = t :: rest ∧ s' = s.resume rest s.draft := by
  unfold advance
  cases hrest : s.rest with
  | nil => simp
  | cons u rest =>
      constructor
      · intro h
        cases h
        exact ⟨rest, rfl, rfl⟩
      · rintro ⟨_, heq, rfl⟩
        cases heq
        rfl

/-- A token of one of some kinds is taken exactly if it is the next one. -/
theorem expectOneOf_ok_iff {kinds : List TokenKind} {t : Token} :
    expectOneOf kinds s = .ok t s' ↔
      t.kind ∈ kinds ∧ ∃ rest, s.rest = t :: rest ∧ s' = s.resume rest s.draft := by
  unfold expectOneOf
  cases hrest : s.rest with
  | nil => simp
  | cons u rest =>
      by_cases hu : u.isOneOf kinds = true
      · simp only [hu, if_true]
        have hmem : u.kind ∈ kinds := by simpa [Token.isOneOf] using hu
        constructor
        · intro h
          cases h
          exact ⟨hmem, rest, rfl, rfl⟩
        · rintro ⟨_, _, heq, rfl⟩
          cases heq
          rfl
      · simp only [hu]
        have hmem : u.kind ∉ kinds := by simpa [Token.isOneOf] using hu
        constructor
        · intro h
          cases h
        · rintro ⟨ht, _, heq, _⟩
          cases heq
          exact absurd ht hmem

theorem expect_ok_iff {kind : TokenKind} {t : Token} :
    expect kind s = .ok t s' ↔
      t.kind = kind ∧ ∃ rest, s.rest = t :: rest ∧ s' = s.resume rest s.draft := by
  simp [expect, expectOneOf_ok_iff]

theorem ofToken?_eq_some_iff {t : Token} {name : String} :
    t.identifier = .ok name ↔ Name.ofToken? t = some ⟨name, t.position⟩ := by
  unfold Token.identifier Name.ofToken?
  split <;> simp [*]

theorem kind_of_ofToken? {t : Token} {name : Name} (h : Name.ofToken? t = some name) :
    t.kind = .identifier ∧ name.position = t.position := by
  unfold Name.ofToken? at h
  split at h
  · rename_i hkind _
    cases h
    exact ⟨hkind, rfl⟩
  · cases h

/-- A name is taken exactly if the next token is an identifier. -/
theorem expectName_ok_iff {t : Token} {name : String} :
    expectName s = .ok (t, name) s' ↔
      ∃ rest, s.rest = t :: rest ∧ Name.ofToken? t = some ⟨name, t.position⟩ ∧
        s' = s.resume rest s.draft := by
  unfold expectName
  simp only [bind_ok_iff, expect_ok_iff, ofExcept_ok_iff, pure_ok_iff, Prod.mk.injEq]
  constructor
  · rintro ⟨u, s₁, ⟨_, rest, hrest, rfl⟩, _, _, ⟨hname, rfl⟩, ⟨rfl, rfl⟩, rfl⟩
    exact ⟨rest, hrest, ofToken?_eq_some_iff.1 hname, rfl⟩
  · rintro ⟨rest, hrest, hname, rfl⟩
    exact ⟨t, _, ⟨(kind_of_ofToken? hname).1, rest, hrest, rfl⟩, name, _,
      ⟨ofToken?_eq_some_iff.2 hname, rfl⟩, ⟨rfl, rfl⟩, rfl⟩

theorem literalForm_ok_iff {t : Token} {form : ExprForm} {type : BasicType} :
    literalForm t = .ok (form, type) ↔
      ∃ value, Literal.ofToken? t = some value ∧ value.form = form ∧ value.type = type := by
  obtain ⟨kind, payload, place⟩ := t
  cases kind <;> cases payload <;>
    simp [literalForm, Literal.ofToken?, Token.integer, Token.character, Token.string, Except.map,
      Literal.form, Literal.type]

/-! ### Steps that build -/

/-- A change of the program is one of the draft, and takes no tokens. -/
theorem onProgram_ok_iff {action : ProgramM α} {a : α} :
    onProgram action s = .ok a s' ↔
      ∃ d, Draft.onProgram action s.draft = .ok a d ∧ s' = s.resume s.rest d := by
  unfold onProgram Draft.onProgram
  rw [draft_program]
  cases action s.program with
  | ok b p =>
      constructor
      · intro h
        cases h
        exact ⟨_, rfl, rfl⟩
      · rintro ⟨_, h, rfl⟩
        cases h
        rfl
  | error e p => simp

theorem addDeclaration_ok_iff {declaration : Declaration} {id : DeclId} :
    addDeclaration declaration s = .ok id s' ↔
      ∃ d, Draft.addDeclaration declaration s.draft = .ok id d ∧ s' = s.resume s.rest d := by
  constructor
  · intro h
    cases h
    exact ⟨_, rfl, rfl⟩
  · rintro ⟨_, h, rfl⟩
    cases h
    rfl

theorem addExpression_ok_iff {e : Expression} {id : ExprId} :
    addExpression e s = .ok id s' ↔
      ∃ d, Draft.addExpression e s.draft = .ok id d ∧ s' = s.resume s.rest d := by
  constructor
  · intro h
    cases h
    exact ⟨_, rfl, rfl⟩
  · rintro ⟨_, h, rfl⟩
    cases h
    rfl

theorem addStatement_ok_iff {form : StmtForm} {place : Position} {id : StmtId} :
    addStatement form place s = .ok id s' ↔
      ∃ d, Draft.addStatement form place s.draft = .ok id d ∧ s' = s.resume s.rest d := by
  constructor
  · intro h
    cases h
    exact ⟨_, rfl, rfl⟩
  · rintro ⟨_, h, rfl⟩
    cases h
    rfl

theorem deferIf_ok_iff {ref : Reference} {change : Deferred → Deferred} {u : Unit} :
    deferIf ref change s = .ok u s' ↔
      ∃ d, Draft.deferIf ref change s.draft = .ok u d ∧ s' = s.resume s.rest d := by
  constructor
  · intro h
    cases h
    refine ⟨_, rfl, ?_⟩
    cases ref <;> rfl
  · rintro ⟨_, h, rfl⟩
    cases h
    cases ref <;> rfl

/-! ### Expressions -/

/-- Reading a literal takes a token that stands for a value, and makes the node of that value. -/
theorem literal_ok_iff (scope : ScopeId) {id : ExprId} :
    literal s = .ok id s' ↔ ∃ value t rest d,
      s.rest = t :: rest ∧ Literal.ofToken? t = some value ∧
        (Expr.literal value t.position).build scope s.draft = .ok id d ∧ s' = s.resume rest d := by
  rw [literal_eq]
  simp only [bind_ok_iff, advance_ok_iff, ofExcept_ok_iff, addExpression_ok_iff]
  constructor
  · rintro ⟨t, _, ⟨rest, hrest, rfl⟩, ⟨form, type⟩, _, ⟨hform, rfl⟩, d, hd, rfl⟩
    obtain ⟨value, hvalue, rfl, rfl⟩ := literalForm_ok_iff.1 hform
    exact ⟨value, t, rest, d, hrest, hvalue, hd, rfl⟩
  · rintro ⟨value, t, rest, d, hrest, hvalue, hd, rfl⟩
    exact ⟨t, _, ⟨rest, hrest, rfl⟩, (value.form, value.type), _,
      ⟨literalForm_ok_iff.2 ⟨value, hvalue, rfl, rfl⟩, rfl⟩, d, hd, rfl⟩

/-- Reading a name takes an identifier, and makes the node of that name. -/
theorem identifier_ok_iff {id : ExprId} :
    identifier scope s = .ok id s' ↔ ∃ name t rest d,
      s.rest = t :: rest ∧ Name.ofToken? t = some name ∧
        (Expr.name name).build scope s.draft = .ok id d ∧ s' = s.resume rest d := by
  unfold identifier
  simp only [Expr.build, Name.build, bind_ok_iff, get_ok_iff, addExpression_ok_iff,
    deferIf_ok_iff, pure_ok_iff]
  constructor
  · rintro ⟨⟨t, text⟩, _, ht, _, _, ⟨rfl, rfl⟩, id', _, ⟨d, hd, rfl⟩, _, _, ⟨d', hd', rfl⟩, rfl, rfl⟩
    obtain ⟨rest, hrest, hname, rfl⟩ := expectName_ok_iff.1 ht
    exact ⟨⟨text, t.position⟩, t, rest, d', hrest, hname,
      ⟨s.draft, s.draft, ⟨rfl, rfl⟩, id', d, hd, (), d', hd', rfl, rfl⟩, rfl⟩
  · rintro ⟨name, t, rest, _, hrest, hname, ⟨_, _, ⟨rfl, rfl⟩, id', d, hd, _, d', hd', rfl, rfl⟩, rfl⟩
    obtain ⟨text, place⟩ := name
    obtain rfl : place = t.position := (kind_of_ofToken? hname).2
    exact ⟨(t, text), _, expectName_ok_iff.2 ⟨rest, hrest, hname, rfl⟩, _, _, ⟨rfl, rfl⟩, id', _,
      ⟨d, hd, rfl⟩, (), _, ⟨d', hd', rfl⟩, rfl, rfl⟩

/-- The last node of an expression tells what the tree tells of the whole. -/
theorem build_node {e : Expr} {d d' : Draft} {id : ExprId} (h : e.build scope d = .ok id d') :
    ∃ node, d'.program.expression? id = some node ∧ node.position = e.position ∧
      node.isCallable = e.isCallable ∧ node.isCall = e.isCall := by
  cases e with
  | literal value place =>
      exact ⟨_, Draft.expression?_of_addExpression h, rfl, by cases value <;> rfl, by cases value <;> rfl⟩
  | name n =>
      simp only [Expr.build, Name.build, bind_ok_iff, pure_ok_iff] at h
      obtain ⟨_, _, _, _, d₁, hd, _, _, hdefer, rfl, rfl⟩ := h
      have hnode := Draft.expression?_of_addExpression hd
      rw [← Draft.program_of_deferIf hdefer] at hnode
      exact ⟨_, hnode, rfl, rfl, rfl⟩
  | not place operand =>
      simp only [Expr.build, bind_ok_iff] at h
      obtain ⟨_, _, _, h⟩ := h
      exact ⟨_, Draft.expression?_of_addExpression h, rfl, rfl, rfl⟩
  | binary operator place left right =>
      simp only [Expr.build, bind_ok_iff] at h
      obtain ⟨_, _, _, _, _, _, h⟩ := h
      exact ⟨_, Draft.expression?_of_addExpression h, rfl, rfl, rfl⟩
  | call callee arguments =>
      simp only [Expr.build, bind_ok_iff] at h
      obtain ⟨_, _, _, _, _, _, h⟩ := h
      exact ⟨_, Draft.expression?_of_addExpression h, rfl, rfl, rfl⟩

/-- Something is read between two states: tokens are taken that spell a tree, and the nodes of that
tree are made. -/
def Takes (spelled : Option TokenKind → α → List Token → Prop) (build : α → BuildM β) (s : Parser)
    (b : β) (s' : Parser) : Prop :=
  ∃ x ts rest d, s.rest = ts ++ rest ∧ spelled (nextKind rest none) x ts ∧
    build x s.draft = .ok b d ∧ s' = s.resume rest d

/-- Items with commas between them, up to a closing token.  `listed` is how such items are
spelled. -/
theorem separatedUpTo_ok {item : ParseM β} {build : α → BuildM β}
    {spelled : Option TokenKind → α → List Token → Prop}
    (listed : Option TokenKind → Bool → List α → List Token → Prop)
    (hitem : ∀ {s b s'}, item s = .ok b s' → Takes spelled build s b s')
    (hdone : ∀ {next isFirst}, listed next isFirst [] [])
    (hfirst : ∀ {next x xs ts us}, spelled (nextKind us next) x ts → listed next false xs us →
      listed next true (x :: xs) (ts ++ us))
    (hmore : ∀ {next x xs t ts us}, t.kind = .comma → spelled (nextKind us next) x ts →
      listed next false xs us → listed next false (x :: xs) (t :: (ts ++ us)))
    {close : TokenKind} {n : Nat} {isFirst : Bool} {bs : List β}
    (h : separatedUpTo close item n isFirst s = .ok bs s') :
    Takes (listed · isFirst) (buildItems build) s bs s' := by
  induction n generalizing s isFirst bs with
  | zero =>
      obtain ⟨rfl, rfl⟩ := pure_ok_iff.1 h
      exact ⟨[], [], s.rest, s.draft, rfl, hdone, rfl, rfl⟩
  | succ n ih =>
      simp only [separatedUpTo, bind_ok_iff, get_ok_iff] at h
      obtain ⟨_, _, ⟨rfl, rfl⟩, h⟩ := h
      split at h
      · obtain ⟨rfl, rfl⟩ := pure_ok_iff.1 h
        exact ⟨[], [], s.rest, s.draft, rfl, hdone, rfl, rfl⟩
      · simp only [bind_ok_iff, pure_ok_iff] at h
        -- a comma, an item and the items behind it
        obtain ⟨_, s₁, hcomma, b, _, hx, _, _, hothers, rfl, rfl⟩ := h
        obtain ⟨x, ts, rest₁, d₁, hrest₁, hspelled, hbuild, rfl⟩ := hitem hx
        obtain ⟨xs, us, rest, d, hrest, hlist, hall, rfl⟩ := ih hothers
        obtain rfl : rest₁ = us ++ rest := hrest
        rw [nextKind_append] at hspelled
        cases isFirst with
        | true =>
            obtain ⟨_, rfl⟩ := pure_ok_iff.1 hcomma
            exact ⟨x :: xs, ts ++ us, rest, d, by simp [hrest₁], hfirst hspelled hlist,
              bind_ok hbuild (bind_ok hall rfl), rfl⟩
        | false =>
            simp only [comma, Bool.false_eq_true, if_false, discard_ok_iff, expect_ok_iff] at hcomma
            obtain ⟨t, ht, rest₀, hrest₀, rfl⟩ := hcomma
            obtain rfl : rest₀ = ts ++ (us ++ rest) := hrest₁
            exact ⟨x :: xs, t :: (ts ++ us), rest, d, by simp [hrest₀], hmore ht hspelled hlist,
              bind_ok hbuild (bind_ok hall rfl), rfl⟩

theorem buildAll_eq_buildItems (scope : ScopeId) (es : List Expr) :
    Expr.buildAll scope es = buildItems (Expr.build scope) es := by
  induction es with
  | nil => rfl
  | cons e es ih => rw [Expr.buildAll, buildItems, ih]

section Parts

variable {part : ScopeId → BindingPower → ParseM ExprId}
  (hpart : ∀ {scope power s id s'}, part scope power s = .ok id s' →
    Takes (Expr.Spelled power) (Expr.build scope) s id s')

include hpart

/-- What reading the start of an expression took spells the start of a tree, of which it made the
nodes. -/
theorem start_ok {rule : PrefixRule} {id : ExprId} (h : start part rule scope s = .ok id s') :
    ∃ e ts rest d, s.rest = ts ++ rest ∧ Expr.StartSpelled e (nextKind rest none) ts ∧
      e.build scope s.draft = .ok id d ∧ s' = s.resume rest d := by
  cases rule with
  | literal =>
      obtain ⟨value, t, rest, d, hrest, hvalue, hd, rfl⟩ := (literal_ok_iff scope).1 h
      exact ⟨_, [t], rest, d, hrest, .literal hvalue, hd, rfl⟩
  | identifier =>
      obtain ⟨name, t, rest, d, hrest, hname, hd, rfl⟩ := identifier_ok_iff.1 h
      exact ⟨_, [t], rest, d, hrest, .name hname, hd, rfl⟩
  | negation =>
      simp only [start, negation, bind_ok_iff, expect_ok_iff, addExpression_ok_iff] at h
      obtain ⟨t, _, ⟨ht, rest, hrest, rfl⟩, operand, _, hoperand, d, hd, rfl⟩ := h
      obtain ⟨e, ts, rest', d', rfl, hspelled, hbuild, rfl⟩ := hpart hoperand
      exact ⟨.not t.position e, t :: ts, rest', d, hrest, .not ht hspelled, bind_ok hbuild hd, rfl⟩
  | grouping =>
      simp only [start, grouping, bind_ok_iff, discard_ok_iff, expect_ok_iff, pure_ok_iff] at h
      obtain ⟨_, _, ⟨t, ht, rest, hrest, rfl⟩, _, _, hinner, _, _, ⟨u, hu, rest'', hrest'', rfl⟩, rfl,
        rfl⟩ := h
      obtain ⟨e, ts, rest', d', rfl, hspelled, hbuild, rfl⟩ := hpart hinner
      obtain rfl : rest' = u :: rest'' := hrest''
      rw [nextKind_cons, hu] at hspelled
      exact ⟨e, t :: (ts ++ [u]), rest'', d', by simp [hrest], .group ht hspelled hu, hbuild, rfl⟩

/-- A part of an expression that is built already grows between two states. -/
theorem continuation_ok {rule : InfixRule} {tighter : BindingPower} {kind : TokenKind}
    {left : Expr} {leftId id : ExprId} {d₀ : Draft}
    (hleft : left.build scope d₀ = .ok leftId s.draft) (hkind : nextKind s.rest none = some kind)
    (hrule : Grammar.standardInfix kind = some (rule, tighter))
    (h : continuation part rule scope leftId tighter s = .ok id s') :
    ∃ (grown : Expr) (ts rest : List Token) (d : Draft), s.rest = ts ++ rest ∧
      rest.length < s.rest.length ∧ grown.build scope d₀ = .ok id d ∧ s' = s.resume rest d ∧
      ∀ {power : BindingPower} {next : Option TokenKind} {us : List Token}
        {e : Expr}, nextKind us next = nextKind rest none → power < tighter →
        grown.RestSpelled power next us e → left.RestSpelled power next (ts ++ us) e := by
  cases rule with
  | binary =>
      simp only [continuation, binary, bind_ok_iff, advance_ok_iff] at h
      obtain ⟨t, _, ⟨rest, hrest, rfl⟩, h⟩ := h
      rw [hrest, nextKind_cons] at hkind
      cases hkind
      unfold Grammar.standardInfix at hrule
      cases hoperator : BinaryOperator.ofToken? t.kind with
      | none => simp [hoperator, throw_ok_iff] at h
      | some operator =>
          simp only [hoperator, bind_ok_iff, addExpression_ok_iff] at h hrule
          cases hrule
          obtain ⟨rightId, _, hright, d, hd, rfl⟩ := h
          obtain ⟨right, ts, rest', d', rfl, hspelled, hbuild, rfl⟩ := hpart hright
          have hlength : rest'.length < s.rest.length := by
            simp only [hrest, List.length_cons, List.length_append]
            omega
          refine ⟨.binary operator t.position left right, t :: ts, rest', d, hrest, hlength,
            bind_ok hleft (bind_ok hbuild hd), rfl, fun hnext hpower hgrown => ?_⟩
          exact .binary (BinaryOperator.ofToken?_eq_some_iff.1 hoperator) hpower
            (hnext ▸ hspelled) hgrown
  | call =>
      simp only [continuation, call, bind_ok_iff, expect_ok_iff, get_ok_iff] at h
      obtain ⟨t, _, ⟨ht, rest, hrest, rfl⟩, _, _, ⟨rfl, rfl⟩, h⟩ := h
      rw [hrest, nextKind_cons, ht] at hkind
      cases hkind
      obtain rfl : tighter = .call := by
        simp [Grammar.standardInfix, BinaryOperator.ofToken?] at hrule
        exact hrule.symm
      obtain ⟨node, hnode, hposition, hcallable, -⟩ := build_node hleft
      rw [draft_program] at hnode
      simp only [resume_program, draft_program, hnode, bind_ok_iff, require_ok_iff,
        discard_ok_iff, expect_ok_iff, addExpression_ok_iff] at h
      obtain ⟨_, _, ⟨hcalled, rfl⟩, ids, _, harguments, _, _, ⟨u, hu, rest'', hrest'', rfl⟩, d, hd,
        rfl⟩ := h
      obtain ⟨es, ts, rest', d', rfl, hlist, hall, rfl⟩ :=
        separatedUpTo_ok Expr.ListSpelled hpart .done .first .more harguments
      rw [← buildAll_eq_buildItems] at hall
      -- the arguments end before the parenthesis
      obtain rfl : rest' = u :: rest'' := hrest''
      rw [nextKind_cons, hu] at hlist
      rw [hposition] at hd
      have hlength : rest''.length < s.rest.length := by
        simp only [hrest, List.length_cons, List.length_append]
        omega
      refine ⟨.call left es, t :: (ts ++ [u]), rest'', d, by simp [hrest], hlength,
        bind_ok hleft (bind_ok hall hd), rfl, fun _ hpower hgrown => ?_⟩
      have hspelled := Expr.RestSpelled.call ht hpower (hcallable ▸ hcalled) hlist hu hgrown
      simpa using hspelled

/-- What continuing an expression took makes its tree grow, by induction on the rounds. -/
theorem extendUpTo_ok {power : BindingPower} {n : Nat} {left : Expr} {leftId id : ExprId}
    {d₀ : Draft} (hn : s.rest.length ≤ n) (hleft : left.build scope d₀ = .ok leftId s.draft)
    (h : extendUpTo part .standard scope power n leftId s = .ok id s') :
    ∃ e ts rest d, s.rest = ts ++ rest ∧ left.RestSpelled power (nextKind rest none) ts e ∧
      e.build scope d₀ = .ok id d ∧ s' = s.resume rest d := by
  induction n generalizing s left leftId with
  | zero =>
      obtain ⟨rfl, rfl⟩ := pure_ok_iff.1 h
      -- there is a step for each token that is left
      have hnil : s.rest = [] := List.length_eq_zero_iff.1 (Nat.le_zero.1 hn)
      refine ⟨left, [], s.rest, s.draft, rfl, .done ?_, hleft, rfl⟩
      simp [hnil, Continues]
  | succ n ih =>
      simp only [extendUpTo, bind_ok_iff, get_ok_iff] at h
      obtain ⟨_, _, ⟨rfl, rfl⟩, h⟩ := h
      rw [kind?_eq] at h
      cases hnext : (nextKind s.rest none).bind Grammar.standard.infixRule with
      | none =>
          simp only [hnext] at h
          obtain ⟨rfl, rfl⟩ := pure_ok_iff.1 h
          refine ⟨left, [], s.rest, s.draft, rfl, .done ?_, hleft, rfl⟩
          rintro ⟨kind, rule, tighter, hkind, hrule, -⟩
          simp [hkind, Grammar.standard, hrule] at hnext
      | some next =>
          obtain ⟨rule, tighter⟩ := next
          obtain ⟨kind, hkind, hrule⟩ := Option.bind_eq_some_iff.1 hnext
          simp only [hnext] at h
          split at h
          · rename_i hpower
            -- what follows binds tighter, so the left side grows and is extended again
            obtain ⟨grownId, _, hgrown, h⟩ := bind_ok_iff.1 h
            obtain ⟨grown, ts, rest, d, hrest, hlength, hbuild, rfl, hspelled⟩ :=
              continuation_ok hpart hleft hkind hrule hgrown
            obtain ⟨e, us, rest', d', rfl, hgrownSpelled, he, rfl⟩ := ih (by simp; omega) hbuild h
            exact ⟨e, ts ++ us, rest', d', by simp [hrest],
              hspelled (by simp) hpower hgrownSpelled, he, rfl⟩
          · rename_i hpower
            obtain ⟨rfl, rfl⟩ := pure_ok_iff.1 h
            refine ⟨left, [], s.rest, s.draft, rfl, .done ?_, hleft, rfl⟩
            rintro ⟨kind', rule', tighter', hkind', hrule', hpower'⟩
            rw [hkind] at hkind'
            cases hkind'
            change Grammar.standardInfix kind = _ at hrule
            rw [hrule] at hrule'
            cases hrule'
            exact hpower hpower'

end Parts

/-- What reading an expression took spells a tree, of which it made the nodes, by induction on the
depth. -/
theorem expressionUpTo_ok {n : Nat} {power : BindingPower} {id : ExprId}
    (h : expressionUpTo .standard n scope power s = .ok id s') :
    Takes (Expr.Spelled power) (Expr.build scope) s id s' := by
  induction n generalizing s s' scope power id with
  | zero => cases h
  | succ n ih =>
      simp only [expressionUpTo, bind_ok_iff, get_ok_iff] at h
      obtain ⟨_, _, ⟨rfl, rfl⟩, h⟩ := h
      cases hrule : s.kind?.bind Grammar.standard.prefixRule with
      | none => simp [hrule, refuse] at h
      | some rule =>
          simp only [hrule, bind_ok_iff] at h
          obtain ⟨leftId, s₁, hstart, hextend⟩ := h
          obtain ⟨left, ts, rest, d, hrest, hstartSpelled, hleft, rfl⟩ := start_ok ih hstart
          obtain ⟨e, us, rest', d', rfl, hrestSpelled, he, rfl⟩ :=
            extendUpTo_ok ih (Nat.le_refl _) hleft hextend
          rw [nextKind_append] at hstartSpelled
          exact ⟨e, ts ++ us, rest', d', by simp [hrest], .intro hstartSpelled hrestSpelled, he,
            rfl⟩

/-- **An expression that is read** is spelled by the tokens that are taken, and its nodes are
made. -/
theorem expression_ok {power : BindingPower} {id : ExprId}
    (h : expression .standard scope power s = .ok id s') :
    Takes (Expr.Spelled power) (Expr.build scope) s id s' :=
  expressionUpTo_ok h

end FrontEnd.Parser
