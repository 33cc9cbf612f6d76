/-
**Reading statements, functions and files.**

As for expressions, a parser that succeeds has taken the tokens of a tree and made the nodes of that
tree.  A list of statements ends before its closing brace, and a file with its tokens.

Main results:

* `FrontEnd.Parser.statementsFrom_ok` — a list of statements that is read;
* `FrontEnd.Parser.function_ok` — a function that is read;
* `FrontEnd.Parser.file_ok` — a file that is read.
-/

import FrontEnd.Proofs.Syntax.Reading

set_option relaxedAutoImplicit false
set_option autoImplicit false

namespace FrontEnd.Parser

open Syntax Run

variable {s s' : Parser} {scope : ScopeId}

/-! ### Statements without blocks -/

/-- What was read as the declaration of a variable spells one. -/
theorem declareStatement_ok {result : StmtId × ScopeId}
    (h : declareStatement scope s = .ok result s') :
    Takes Stmt.Spelled (Stmt.build scope) s result s' := by
  simp only [declareStatement, typeName, bind_ok_iff, expect_ok_iff, get_ok_iff, discard_ok_iff,
    pure_ok_iff, addDeclaration_ok_iff, onProgram_ok_iff, addStatement_ok_iff, deferIf_ok_iff] at h
  obtain ⟨t, _, ⟨ht, rest₁, hrest₁, rfl⟩, ⟨u, name⟩, _, hname, ⟨type, place⟩, _,
    ⟨⟨v, typeName⟩, _, htype, _, _, ⟨rfl, rfl⟩, hresult, rfl⟩, _, _, ⟨w, hw, rest₄, hrest₄, rfl⟩,
    decl, _, ⟨d₁, hd₁, rfl⟩, behind, _, ⟨d₂, hd₂, rfl⟩, id, _, ⟨d₃, hd₃, rfl⟩, _, _,
    ⟨d₄, hd₄, rfl⟩, rfl, rfl⟩ := h
  obtain ⟨rfl, rfl⟩ := Prod.mk.inj hresult
  obtain ⟨rest₂, hrest₂, hu, rfl⟩ := expectName_ok_iff.1 hname
  obtain ⟨rest₃, hrest₃, hv, rfl⟩ := expectName_ok_iff.1 htype
  obtain rfl : rest₁ = u :: rest₂ := hrest₂
  obtain rfl : rest₂ = v :: rest₃ := hrest₃
  obtain rfl : rest₃ = w :: rest₄ := hrest₄
  refine ⟨.declare t.position ⟨name, u.position⟩ ⟨typeName, v.position⟩, [t, u, v, w], rest₄, d₄,
    hrest₁, .declare ht hu hv hw, ?_, rfl⟩
  exact bind_ok rfl (bind_ok hd₁ (bind_ok hd₂ (bind_ok hd₃ (bind_ok hd₄ rfl))))

/-- A change by a value is read as the value is. -/
theorem change_value_ok {t : Token} {c : Change} {make : ExprId → Change} {update : Expr → Update}
    (hbuild : ∀ e, (update e).build scope = make <$> e.build scope)
    (hspelled : ∀ {e next ts}, e.Spelled .default next ts → (update e).Spelled next (t :: ts))
    (h : (make <$> expression .standard scope .default) s = .ok c s') :
    Takes (fun next update ts => Update.Spelled next update (t :: ts)) (Update.build scope) s c
      s' := by
  obtain ⟨id, hvalue, rfl⟩ := map_ok_iff.1 h
  obtain ⟨e, ts, rest, d, hrest, he, hid, rfl⟩ := expression_ok hvalue
  exact ⟨update e, ts, rest, d, hrest, hspelled he, hbuild e ▸ map_ok_iff.2 ⟨id, hid, rfl⟩, rfl⟩

/-- What was read as a change spells an update. -/
theorem change_ok {t : Token} {c : Change} (ht : t.kind ∈ changeTokens)
    (h : change .standard scope t.kind s = .ok c s') :
    Takes (fun next update ts => Update.Spelled next update (t :: ts)) (Update.build scope) s c
      s' := by
  simp only [changeTokens, List.mem_cons, List.not_mem_nil, or_false] at ht
  rcases ht with ht | ht | ht | ht | ht
  · rw [ht] at h
    exact change_value_ok (fun _ => rfl) (.assign ht) h
  · rw [ht] at h
    exact change_value_ok (fun _ => rfl) (.add ht) h
  · rw [ht] at h
    exact change_value_ok (fun _ => rfl) (.subtract ht) h
  · simp only [ht, change, pure_ok_iff] at h
    obtain ⟨rfl, rfl⟩ := h
    exact ⟨.increment, [], s.rest, s.draft, rfl, .increment ht, rfl, rfl⟩
  · simp only [ht, change, pure_ok_iff] at h
    obtain ⟨rfl, rfl⟩ := h
    exact ⟨.decrement, [], s.rest, s.draft, rfl, .decrement ht, rfl, rfl⟩

theorem changeStatement_ok {id : StmtId} (h : changeStatement .standard scope s = .ok id s') :
    Takes Simple.Spelled (Simple.build scope) s id s' := by
  simp only [changeStatement, bind_ok_iff, get_ok_iff, expectOneOf_ok_iff, pure_ok_iff,
    addStatement_ok_iff, deferIf_ok_iff] at h
  obtain ⟨_, _, ⟨rfl, rfl⟩, ⟨t, name⟩, _, hname, _, _, ⟨rfl, rfl⟩, u, _, ⟨hu, rest₂, hrest₂, rfl⟩,
    c, _, hchange, id, _, ⟨d₂, hd₂, rfl⟩, _, _, ⟨d₃, hd₃, rfl⟩, rfl, rfl⟩ := h
  obtain ⟨rest₁, hrest₁, ht, rfl⟩ := expectName_ok_iff.1 hname
  obtain rfl : rest₁ = u :: rest₂ := hrest₂
  obtain ⟨update, ts, rest, d₁, rfl, hspelled, hbuild, rfl⟩ := change_ok hu hchange
  rw [position_of_rest hrest₁] at hd₂
  refine ⟨.change ⟨name, t.position⟩ update, t :: u :: ts, rest, d₃, hrest₁,
    .change ht hspelled, ?_, rfl⟩
  exact bind_ok rfl (bind_ok hbuild (bind_ok hd₂ (bind_ok hd₃ rfl)))

theorem length_of_startSpelled {e : Expr} {next : Option TokenKind} {ts : List Token}
    (h : e.StartSpelled next ts) : 1 ≤ ts.length ∧ (e.isCall = true → 2 ≤ ts.length) := by
  cases h with
  | literal _ => simp [Expr.isCall]
  | name _ => simp [Expr.isCall]
  | not _ _ => simp [Expr.isCall]
  | group _ _ _ => simp

/-- A call has at least two tokens. -/
theorem length_of_isCall {e : Expr} {power : BindingPower} {next : Option TokenKind}
    {ts : List Token} (h : e.Spelled power next ts) (hcall : e.isCall = true) : 2 ≤ ts.length := by
  obtain ⟨hstart, hrest⟩ := h
  have hlength := length_of_startSpelled hstart
  cases hrest with
  | done _ => simpa using hlength.2 hcall
  | binary _ _ _ _ => simp; omega
  | call _ _ _ _ _ _ => simp; omega

/-- What was read as a call statement spells a call. -/
theorem callStatement_ok {id : StmtId} (hcall : s.peek? 1 = some .leftParenthesis)
    (h : callStatement .standard scope s = .ok id s') :
    Takes Simple.Spelled (Simple.build scope) s id s' := by
  simp only [callStatement, bind_ok_iff, get_ok_iff] at h
  obtain ⟨_, _, ⟨rfl, rfl⟩, exprId, s₁, hexpr, _, _, ⟨rfl, rfl⟩, h⟩ := h
  obtain ⟨e, ts, rest, d, hrest, hspelled, hbuild, rfl⟩ := expression_ok hexpr
  obtain ⟨node, hnode, -, -, hisCall⟩ := build_node hbuild
  simp only [resume_program, hnode, Option.any_some] at h
  by_cases hnodeCall : node.isCall = true
  · rw [if_pos hnodeCall] at h
    obtain ⟨d', hd', rfl⟩ := addStatement_ok_iff.1 h
    rw [hisCall] at hnodeCall
    -- the tokens of the call reach up to its parenthesis at least
    obtain ⟨t, u, us, rfl⟩ : ∃ t u us, ts = t :: u :: us := by
      have hlength := length_of_isCall hspelled hnodeCall
      match ts, hlength with
      | t :: u :: us, _ => exact ⟨t, u, us, rfl⟩
    have hu : u.kind = .leftParenthesis := by
      simpa [peek?, hrest] using hcall
    rw [position_of_rest hrest] at hd'
    exact ⟨.call t.position e, t :: u :: us, rest, d', hrest, .call hu hnodeCall hspelled,
      bind_ok hbuild hd', rfl⟩
  · rw [if_neg hnodeCall] at h
    exact absurd h (by simp [throw_ok_iff])

theorem simple_ok {id : StmtId} (h : simple .standard scope s = .ok id s') :
    Takes Simple.Spelled (Simple.build scope) s id s' := by
  simp only [simple, bind_ok_iff, get_ok_iff] at h
  obtain ⟨_, _, ⟨rfl, rfl⟩, h⟩ := h
  by_cases hcall : s.peek? 1 = some .leftParenthesis
  · rw [if_pos hcall] at h
    exact callStatement_ok hcall h
  · rw [if_neg hcall] at h
    exact changeStatement_ok h

theorem simpleUnless_ok {kind : TokenKind} {id? : Option StmtId}
    (h : simpleUnless .standard kind scope s = .ok id? s') :
    Takes Simple.MaybeSpelled (Simple.buildMaybe scope) s id? s' := by
  simp only [simpleUnless, bind_ok_iff, get_ok_iff] at h
  obtain ⟨_, _, ⟨rfl, rfl⟩, h⟩ := h
  by_cases hkind : s.kind? = some kind
  · rw [if_pos hkind] at h
    obtain ⟨rfl, rfl⟩ := pure_ok_iff.1 h
    exact ⟨none, [], s.rest, s.draft, rfl, .none, rfl, rfl⟩
  · rw [if_neg hkind] at h
    obtain ⟨id, hid, rfl⟩ := map_ok_iff.1 h
    obtain ⟨x, ts, rest, d, hrest, hspelled, hbuild, rfl⟩ := simple_ok hid
    exact ⟨some x, ts, rest, d, hrest, .some hspelled, map_ok_iff.2 ⟨id, hbuild, rfl⟩, rfl⟩

/-- What was read as further values spells a list behind a comma. -/
theorem moreValuesUpTo_ok {n : Nat} {ids : List ExprId}
    (h : moreValuesUpTo .standard scope n s = .ok ids s') :
    Takes (Expr.ListSpelled · false) (Expr.buildAll scope) s ids s' := by
  induction n generalizing s ids with
  | zero =>
      obtain ⟨rfl, rfl⟩ := pure_ok_iff.1 h
      exact ⟨[], [], s.rest, s.draft, rfl, .done, rfl, rfl⟩
  | succ n ih =>
      simp only [moreValuesUpTo, bind_ok_iff, get_ok_iff] at h
      obtain ⟨_, _, ⟨rfl, rfl⟩, h⟩ := h
      by_cases hcomma : s.kind? = some .comma
      · simp only [if_pos hcomma, bind_ok_iff, discard_ok_iff, advance_ok_iff, pure_ok_iff] at h
        obtain ⟨_, _, ⟨t, rest₀, hrest₀, rfl⟩, id, _, hvalue, others, _, hothers, rfl, rfl⟩ := h
        have ht : t.kind = .comma := by simpa [kind?_eq, hrest₀] using hcomma
        obtain ⟨e, ts, rest₁, d₁, rfl, hspelled, hbuild, rfl⟩ := expression_ok hvalue
        obtain ⟨es, us, rest, d, hrest, hlist, hall, rfl⟩ := ih hothers
        obtain rfl : rest₁ = us ++ rest := hrest
        rw [nextKind_append] at hspelled
        exact ⟨e :: es, t :: (ts ++ us), rest, d, by simp [hrest₀], .more ht hspelled hlist,
          bind_ok hbuild (bind_ok hall rfl), rfl⟩
      · rw [if_neg hcomma] at h
        obtain ⟨rfl, rfl⟩ := pure_ok_iff.1 h
        exact ⟨[], [], s.rest, s.draft, rfl, .done, rfl, rfl⟩

theorem values_ok {ids : List ExprId} (h : values .standard scope s = .ok ids s') :
    Takes (Expr.ListSpelled · true) (Expr.buildAll scope) s ids s' := by
  simp only [values, bind_ok_iff, get_ok_iff] at h
  obtain ⟨_, _, ⟨rfl, rfl⟩, h⟩ := h
  by_cases hsemicolon : s.kind? = some .semicolon
  · rw [if_pos hsemicolon] at h
    obtain ⟨rfl, rfl⟩ := pure_ok_iff.1 h
    exact ⟨[], [], s.rest, s.draft, rfl, .done, rfl, rfl⟩
  · simp only [if_neg hsemicolon, bind_ok_iff, pure_ok_iff] at h
    obtain ⟨id, _, hvalue, others, _, hothers, rfl, rfl⟩ := h
    obtain ⟨e, ts, rest₁, d₁, hrest₁, hspelled, hbuild, rfl⟩ := expression_ok hvalue
    obtain ⟨es, us, rest, d, hrest, hlist, hall, rfl⟩ := moreValuesUpTo_ok hothers
    obtain rfl : rest₁ = us ++ rest := hrest
    rw [nextKind_append] at hspelled
    exact ⟨e :: es, ts ++ us, rest, d, by simp [hrest₁], .first hspelled hlist,
      bind_ok hbuild (bind_ok hall rfl), rfl⟩

/-- A statement that is no other one starts with an identifier. -/
theorem simpleStatement_ok {result : StmtId × ScopeId}
    (hrule : s.kind?.bind Grammar.standard.statementRule = some .simple)
    (h : simpleStatement .standard scope s = .ok result s') :
    Takes Stmt.Spelled (Stmt.build scope) s result s' := by
  simp only [simpleStatement, bind_ok_iff, discard_ok_iff, expect_ok_iff, pure_ok_iff] at h
  obtain ⟨id, _, hid, _, _, ⟨u, hu, rest, hrest, rfl⟩, rfl, rfl⟩ := h
  obtain ⟨x, ts, rest₁, d, hrest₁, hspelled, hbuild, rfl⟩ := simple_ok hid
  obtain rfl : rest₁ = u :: rest := hrest
  rw [nextKind_cons, hu] at hspelled
  have hts : ts ≠ [] := by
    cases hspelled <;> simp
  -- only an identifier has the rule for these statements
  have hfirst : nextKind ts none = some .identifier := by
    obtain ⟨t, us, rfl⟩ := List.exists_cons_of_ne_nil hts
    obtain ⟨kind, hkind, hrule⟩ := Option.bind_eq_some_iff.1 hrule
    rw [kind?_eq, hrest₁] at hkind
    obtain rfl : t.kind = kind := by simpa using hkind
    change Grammar.standardStatement t.kind = _ at hrule
    cases hkind : t.kind <;> simp [Grammar.standardStatement, hkind] at hrule ⊢
  exact ⟨.simple x, ts ++ [u], rest, d, by simp [hrest₁], .simple hfirst hspelled hu,
    bind_ok hbuild rfl, rfl⟩

theorem resultStatement_ok {result : StmtId × ScopeId}
    (h : resultStatement .standard scope s = .ok result s') :
    Takes Stmt.Spelled (Stmt.build scope) s result s' := by
  simp only [resultStatement, bind_ok_iff, discard_ok_iff, expect_ok_iff, pure_ok_iff,
    addStatement_ok_iff] at h
  obtain ⟨t, _, ⟨ht, rest₀, hrest₀, rfl⟩, ids, _, hids, _, _, ⟨u, hu, rest, hrest, rfl⟩, id, _,
    ⟨d₂, hd₂, rfl⟩, rfl, rfl⟩ := h
  obtain ⟨es, ts, rest₁, d₁, rfl, hspelled, hbuild, rfl⟩ := values_ok hids
  obtain rfl : rest₁ = u :: rest := hrest
  rw [nextKind_cons, hu] at hspelled
  exact ⟨.result t.position es, t :: (ts ++ [u]), rest, d₂, by simp [hrest₀],
    .result ht hspelled hu, bind_ok hbuild (bind_ok hd₂ rfl), rfl⟩

/-- The last node of a statement is a `return` exactly if the tree is. -/
theorem isReturn_of_build {x : Stmt} {d d' : Draft} {result : StmtId × ScopeId}
    (h : x.build scope d = .ok result d') :
    (d'.program.statement? result.1).any Statement.isReturn = x.isReturn := by
  cases x with
  | declare place name type =>
      simp only [Stmt.build, Stmt.buildDeclare, bind_ok_iff, pure_ok_iff] at h
      obtain ⟨_, _, _, _, _, _, _, _, _, id, _, hid, _, _, hdefer, rfl, rfl⟩ := h
      rw [Draft.program_of_deferIf hdefer, Draft.statement?_of_addStatement hid]
      rfl
  | simple x =>
      simp only [Stmt.build, bind_ok_iff, pure_ok_iff] at h
      obtain ⟨id, _, hx, rfl, rfl⟩ := h
      cases x with
      | call place e =>
          simp only [Simple.build, bind_ok_iff] at hx
          obtain ⟨_, _, _, hid⟩ := hx
          rw [Draft.statement?_of_addStatement hid]
          rfl
      | change name update =>
          simp only [Simple.build, bind_ok_iff, pure_ok_iff] at hx
          obtain ⟨_, _, _, _, _, _, _, _, hid, _, _, hdefer, rfl, rfl⟩ := hx
          rw [Draft.program_of_deferIf hdefer, Draft.statement?_of_addStatement hid]
          rfl
  | branch place condition thenBlock elseBlock? =>
      cases elseBlock? with
      | none =>
          simp only [Stmt.build, bind_ok_iff, pure_ok_iff] at h
          obtain ⟨_, _, _, _, _, _, id, _, hid, rfl, rfl⟩ := h
          rw [Draft.statement?_of_addStatement hid]
          rfl
      | some elseBlock =>
          simp only [Stmt.build, bind_ok_iff, pure_ok_iff] at h
          obtain ⟨_, _, _, _, _, _, _, _, _, id, _, hid, rfl, rfl⟩ := h
          rw [Draft.statement?_of_addStatement hid]
          rfl
  | whileLoop place condition body =>
      simp only [Stmt.build, bind_ok_iff, pure_ok_iff] at h
      obtain ⟨_, _, _, _, _, _, id, _, hid, rfl, rfl⟩ := h
      rw [Draft.statement?_of_addStatement hid]
      rfl
  | forLoop place init? condition action? body =>
      simp only [Stmt.build, bind_ok_iff, pure_ok_iff] at h
      obtain ⟨_, _, _, _, _, _, _, _, _, _, _, _, id, _, hid, rfl, rfl⟩ := h
      rw [Draft.statement?_of_addStatement hid]
      rfl
  | result place values =>
      simp only [Stmt.build, bind_ok_iff, pure_ok_iff] at h
      obtain ⟨_, _, _, id, _, hid, rfl, rfl⟩ := h
      rw [Draft.statement?_of_addStatement hid]
      rfl

/-! ### Statements with blocks -/

/-- How statements are spelled before the brace that closes their list. -/
def ClosedSpelled (next : Option TokenKind) (xs : List Stmt) (ts : List Token) : Prop :=
  next = some .rightBrace ∧ Stmt.ListSpelled xs ts

/-- A block starts with a brace. -/
theorem nextKind_of_block {body : List Stmt} {ts : List Token} (h : Stmt.BlockSpelled body ts)
    {next : Option TokenKind} : nextKind ts next = some .leftBrace := by
  obtain ⟨ht, -, -⟩ := h
  rw [nextKind_cons, ht]

section Lists

variable {list : ScopeId → ParseM (List StmtId)}
  (hlist : ∀ {scope s ids s'}, list scope s = .ok ids s' →
    Takes ClosedSpelled (Stmt.buildAll scope) s ids s')

include hlist

theorem braced_ok {ids : List StmtId} (h : braced list scope s = .ok ids s') :
    Takes (fun _ => Stmt.BlockSpelled) (Stmt.buildAll scope) s ids s' := by
  simp only [braced, bind_ok_iff, discard_ok_iff, expect_ok_iff, pure_ok_iff] at h
  obtain ⟨_, _, ⟨t, ht, rest₀, hrest₀, rfl⟩, _, _, hids, _, _, ⟨u, hu, rest, hrest, rfl⟩, rfl,
    rfl⟩ := h
  obtain ⟨xs, ts, rest₁, d, rfl, ⟨-, hspelled⟩, hbuild, rfl⟩ := hlist hids
  obtain rfl : rest₁ = u :: rest := hrest
  exact ⟨xs, t :: (ts ++ [u]), rest, d, by simp [hrest₀], .intro ht hspelled hu, hbuild, rfl⟩

theorem blockOf_ok {block : Block} (h : blockOf list scope s = .ok block s') :
    Takes (fun _ => Stmt.BlockSpelled)
      (fun xs => Stmt.buildBlock (fun inner => Stmt.buildAll inner xs) scope) s block s' := by
  simp only [blockOf, bind_ok_iff, onProgram_ok_iff, pure_ok_iff] at h
  obtain ⟨inner, _, ⟨d₀, hd₀, rfl⟩, ids, _, hids, rfl, rfl⟩ := h
  obtain ⟨xs, ts, rest, d, hrest, hspelled, hbuild, rfl⟩ := braced_ok hlist hids
  exact ⟨xs, ts, rest, d, hrest, hspelled, bind_ok hd₀ (bind_ok hbuild rfl), rfl⟩

/-- What was read as a choice spells one, with or without a second part. -/
theorem branchStatement_ok {result : StmtId × ScopeId}
    (h : branchStatement .standard list scope s = .ok result s') :
    Takes Stmt.Spelled (Stmt.build scope) s result s' := by
  simp only [branchStatement, elseBlock, bind_ok_iff, get_ok_iff, expect_ok_iff, pure_ok_iff,
    addStatement_ok_iff] at h
  obtain ⟨t, _, ⟨ht, rest₀, hrest₀, rfl⟩, conditionId, _, hcondition, thenId, s₂, hthen, else?, s₃,
    ⟨_, _, ⟨rfl, rfl⟩, helse⟩, id, _, ⟨d₄, hd₄, rfl⟩, rfl, rfl⟩ := h
  obtain ⟨condition, ts, rest₁, d₁, rfl, hspelled₁, hbuild₁, rfl⟩ := expression_ok hcondition
  obtain ⟨thenBlock, us, rest₂, d₂, hrest₂, hspelled₂, hbuild₂, rfl⟩ := blockOf_ok hlist hthen
  obtain rfl : rest₁ = us ++ rest₂ := hrest₂
  rw [nextKind_append, nextKind_of_block hspelled₂] at hspelled₁
  rw [resume_resume, resume_resume] at helse
  by_cases hkind : (s.resume rest₂ d₂).kind? = some .elseWord
  · simp only [if_pos hkind, bind_ok_iff, discard_ok_iff, advance_ok_iff, map_ok_iff] at helse
    obtain ⟨_, _, ⟨u, rest₃, hrest₃, rfl⟩, elseId, hblock, rfl⟩ := helse
    obtain rfl : rest₂ = u :: rest₃ := hrest₃
    have hu : u.kind = .elseWord := by simpa [kind?_eq] using hkind
    obtain ⟨elseBlock, vs, rest, d₃, rfl, hspelled₃, hbuild₃, rfl⟩ := blockOf_ok hlist hblock
    exact ⟨.branch t.position condition thenBlock (some elseBlock), t :: (ts ++ (us ++ u :: vs)),
      rest, d₄, by simp [hrest₀], .branchElse ht hspelled₁ hspelled₂ hu hspelled₃,
      bind_ok hbuild₁ (bind_ok hbuild₂ (bind_ok hbuild₃ (bind_ok hd₄ rfl))), rfl⟩
  · rw [if_neg hkind] at helse
    obtain ⟨rfl, rfl⟩ := pure_ok_iff.1 helse
    rw [kind?_eq] at hkind
    exact ⟨.branch t.position condition thenBlock none, t :: (ts ++ us), rest₂, d₄,
      by simp [hrest₀], .branch ht hspelled₁ hspelled₂ hkind,
      bind_ok hbuild₁ (bind_ok hbuild₂ (bind_ok hd₄ rfl)), rfl⟩

theorem whileStatement_ok {result : StmtId × ScopeId}
    (h : whileStatement .standard list scope s = .ok result s') :
    Takes Stmt.Spelled (Stmt.build scope) s result s' := by
  simp only [whileStatement, bind_ok_iff, expect_ok_iff, pure_ok_iff, addStatement_ok_iff] at h
  obtain ⟨t, _, ⟨ht, rest₀, hrest₀, rfl⟩, conditionId, _, hcondition, block, _, hblock, id, _,
    ⟨d₃, hd₃, rfl⟩, rfl, rfl⟩ := h
  obtain ⟨condition, ts, rest₁, d₁, rfl, hspelled₁, hbuild₁, rfl⟩ := expression_ok hcondition
  obtain ⟨body, us, rest, d₂, hrest, hspelled₂, hbuild₂, rfl⟩ := blockOf_ok hlist hblock
  obtain rfl : rest₁ = us ++ rest := hrest
  rw [nextKind_append, nextKind_of_block hspelled₂] at hspelled₁
  exact ⟨.whileLoop t.position condition body, t :: (ts ++ us), rest, d₃, by simp [hrest₀],
    .whileLoop ht hspelled₁ hspelled₂, bind_ok hbuild₁ (bind_ok hbuild₂ (bind_ok hd₃ rfl)), rfl⟩

/-- What was read as a counted repetition spells one. -/
theorem forStatement_ok {result : StmtId × ScopeId}
    (h : forStatement .standard list scope s = .ok result s') :
    Takes Stmt.Spelled (Stmt.build scope) s result s' := by
  simp only [forStatement, bind_ok_iff, discard_ok_iff, expect_ok_iff, pure_ok_iff,
    addStatement_ok_iff] at h
  obtain ⟨t, _, ⟨ht, rest₀, hrest₀, rfl⟩, initId?, _, hinit, _, _, ⟨u, hu, rest₂, hrest₂, rfl⟩,
    conditionId, _, hcondition, _, _, ⟨v, hv, rest₄, hrest₄, rfl⟩, actionId?, _, haction, block, _,
    hblock, id, _, ⟨d₅, hd₅, rfl⟩, rfl, rfl⟩ := h
  obtain ⟨init?, ts, rest₁, d₁, rfl, hspelled₁, hbuild₁, rfl⟩ := simpleUnless_ok hinit
  obtain rfl : rest₁ = u :: rest₂ := hrest₂
  obtain ⟨condition, us, rest₃, d₂, rfl, hspelled₂, hbuild₂, rfl⟩ := expression_ok hcondition
  obtain rfl : rest₃ = v :: rest₄ := hrest₄
  obtain ⟨action?, vs, rest₅, d₃, rfl, hspelled₃, hbuild₃, rfl⟩ := simpleUnless_ok haction
  obtain ⟨body, ws, rest, d₄, hrest, hspelled₄, hbuild₄, rfl⟩ := blockOf_ok hlist hblock
  obtain rfl : rest₅ = ws ++ rest := hrest
  rw [nextKind_cons, hu] at hspelled₁
  rw [nextKind_cons, hv] at hspelled₂
  rw [nextKind_append, nextKind_of_block hspelled₄] at hspelled₃
  exact ⟨.forLoop t.position init? condition action? body,
    t :: (ts ++ u :: (us ++ v :: (vs ++ ws))), rest, d₅, by simp [hrest₀],
    .forLoop ht hspelled₁ hu hspelled₂ hv hspelled₃ hspelled₄,
    bind_ok hbuild₁ (bind_ok hbuild₂ (bind_ok hbuild₃ (bind_ok hbuild₄ (bind_ok hd₅ rfl)))), rfl⟩

/-- What was read as a statement spells one, whatever its form. -/
theorem statementOf_ok {result : StmtId × ScopeId}
    (h : statementOf .standard list scope s = .ok result s') :
    Takes Stmt.Spelled (Stmt.build scope) s result s' := by
  simp only [statementOf, bind_ok_iff, get_ok_iff] at h
  obtain ⟨_, _, ⟨rfl, rfl⟩, h⟩ := h
  cases hrule : s.kind?.bind Grammar.standard.statementRule with
  | none => simp [hrule, refuse] at h
  | some rule =>
      simp only [hrule] at h
      cases rule with
      | declare => exact declareStatement_ok h
      | simple => exact simpleStatement_ok hrule h
      | branch => exact branchStatement_ok hlist h
      | whileLoop => exact whileStatement_ok hlist h
      | forLoop => exact forStatement_ok hlist h
      | result => exact resultStatement_ok h

end Lists

/-! ### Lists -/

/-- What was read as statements before a brace spells a list, by induction on their number; behind a
`return` there are none. -/
theorem statementsUpTo_ok {n : Nat} {closed : Bool} {ids : List StmtId}
    (h : statementsUpTo .standard n closed scope s = .ok ids s') :
    Takes (fun next xs ts => ClosedSpelled next xs ts ∧ (closed = true → xs = []))
      (Stmt.buildAll scope) s ids s' := by
  induction n generalizing s closed scope ids s' with
  | zero => cases h
  | succ n ih =>
      simp only [statementsUpTo, bind_ok_iff, get_ok_iff] at h
      obtain ⟨_, _, ⟨rfl, rfl⟩, h⟩ := h
      cases hkind : s.kind? with
      | none => simp [hkind, refuse] at h
      | some kind =>
          simp only [hkind] at h
          by_cases hbrace : kind = .rightBrace
          · rw [if_pos hbrace] at h
            obtain ⟨rfl, rfl⟩ := pure_ok_iff.1 h
            rw [kind?_eq, hbrace] at hkind
            exact ⟨[], [], s.rest, s.draft, rfl, ⟨⟨hkind, .nil⟩, fun _ => rfl⟩, rfl, rfl⟩
          · simp only [if_neg hbrace, bind_ok_iff, require_ok_iff, get_ok_iff, pure_ok_iff] at h
            obtain ⟨_, _, ⟨hclosed, rfl⟩, ⟨id, behind⟩, s₁, hid, _, _, ⟨rfl, rfl⟩, others, _,
              hothers, rfl, rfl⟩ := h
            have hlist : ∀ {scope s ids s'}, statementsUpTo .standard n false scope s = .ok ids s' →
                Takes ClosedSpelled (Stmt.buildAll scope) s ids s' := by
              intro scope s ids s' h
              obtain ⟨xs, ts, rest, d, hrest, ⟨hspelled, -⟩, hbuild, rfl⟩ := ih h
              exact ⟨xs, ts, rest, d, hrest, hspelled, hbuild, rfl⟩
            obtain ⟨x, ts, rest₁, d₁, hrest₁, hspelled, hbuild, rfl⟩ := statementOf_ok hlist hid
            obtain ⟨xs, us, rest, d, hrest, ⟨⟨hnext, hothersSpelled⟩, hreturn⟩, hall, rfl⟩ :=
              ih hothers
            obtain rfl : rest₁ = us ++ rest := hrest
            rw [nextKind_append, hnext] at hspelled
            -- behind a `return` the reader is closed to further statements
            have hlast : x.isReturn = true → xs = [] := by
              intro hx
              apply hreturn
              rw [← hx, ← isReturn_of_build hbuild]
              rfl
            refine ⟨x :: xs, ts ++ us, rest, d, by simp [hrest₁],
              ⟨⟨hnext, .cons hspelled hothersSpelled hlast⟩, by simp [hclosed]⟩,
              bind_ok hbuild (bind_ok hall rfl), rfl⟩

/-- **A list of statements that is read** is spelled by the tokens that are taken, and its nodes are
made. -/
theorem statementsFrom_ok {ids : List StmtId}
    (h : statementsFrom .standard false scope s = .ok ids s') :
    Takes ClosedSpelled (Stmt.buildAll scope) s ids s' := by
  obtain ⟨xs, ts, rest, d, hrest, ⟨hspelled, -⟩, hbuild, rfl⟩ := statementsUpTo_ok h
  exact ⟨xs, ts, rest, d, hrest, hspelled, hbuild, rfl⟩

/-! ### Functions -/

theorem parameter_ok {field : Field} (h : parameter scope s = .ok field s') :
    Takes (fun _ => Param.Spelled) (Param.build scope) s field s' := by
  simp only [parameter, typeName, addField, bind_ok_iff, get_ok_iff, pure_ok_iff,
    addDeclaration_ok_iff, onProgram_ok_iff, deferIf_ok_iff] at h
  obtain ⟨⟨t, name⟩, _, hname, ⟨type, place⟩, _, ⟨⟨u, typeName⟩, _, htype, _, _, ⟨rfl, rfl⟩,
    hresult, rfl⟩, field, _, ⟨decl, _, ⟨d₁, hd₁, rfl⟩, _, _, ⟨d₂, hd₂, rfl⟩, rfl, rfl⟩, _, _,
    ⟨d₃, hd₃, rfl⟩, rfl, rfl⟩ := h
  obtain ⟨rfl, rfl⟩ := Prod.mk.inj hresult
  obtain ⟨rest₁, hrest₁, ht, rfl⟩ := expectName_ok_iff.1 hname
  obtain ⟨rest, hrest, hu, rfl⟩ := expectName_ok_iff.1 htype
  obtain rfl : rest₁ = u :: rest := hrest
  refine ⟨⟨⟨name, t.position⟩, ⟨typeName, u.position⟩⟩, [t, u], rest, d₃, hrest₁,
    ⟨t, u, ht, hu, rfl⟩, ?_, rfl⟩
  exact bind_ok rfl (bind_ok (bind_ok hd₁ (bind_ok hd₂ rfl)) (bind_ok hd₃ rfl))

theorem resultField_ok {field : Field} (h : resultField scope s = .ok field s') :
    Takes (fun _ => Name.Spelled) (Name.buildResult scope) s field s' := by
  simp only [resultField, typeName, addField, bind_ok_iff, get_ok_iff, pure_ok_iff,
    addDeclaration_ok_iff, deferIf_ok_iff] at h
  obtain ⟨⟨type, place⟩, _, ⟨⟨t, name⟩, _, hname, _, _, ⟨rfl, rfl⟩, hresult, rfl⟩, decl, _,
    ⟨d₁, hd₁, rfl⟩, _, _, ⟨d₂, hd₂, rfl⟩, rfl, rfl⟩ := h
  obtain ⟨rfl, rfl⟩ := Prod.mk.inj hresult
  obtain ⟨rest, hrest, ht, rfl⟩ := expectName_ok_iff.1 hname
  refine ⟨⟨name, t.position⟩, [t], rest, d₂, hrest, ⟨t, ht, rfl⟩, ?_, rfl⟩
  exact bind_ok rfl (bind_ok hd₁ (bind_ok hd₂ rfl))

theorem parameters_ok {fields : List Field} (h : parameters scope s = .ok fields s') :
    ∃ ps t ts u rest d, s.rest = t :: (ts ++ u :: rest) ∧ t.kind = .leftParenthesis ∧
      ItemsSpelled Param.Spelled true ps ts ∧ u.kind = .rightParenthesis ∧
      buildItems (Param.build scope) ps s.draft = .ok fields d ∧ s' = s.resume rest d := by
  simp only [parameters, bind_ok_iff, discard_ok_iff, expect_ok_iff, pure_ok_iff] at h
  obtain ⟨_, _, ⟨t, ht, rest₀, hrest₀, rfl⟩, _, _, hfields, _, _, ⟨u, hu, rest, hrest, rfl⟩, rfl,
    rfl⟩ := h
  obtain ⟨ps, ts, rest₁, d, rfl, hspelled, hbuild, rfl⟩ :=
    separatedUpTo_ok (fun _ => ItemsSpelled Param.Spelled) parameter_ok .done .first .more hfields
  obtain rfl : rest₁ = u :: rest := hrest
  exact ⟨ps, t, ts, u, rest, d, hrest₀, ht, hspelled, hu, hbuild, rfl⟩

/-- What was read as results spells none, one or several types. -/
theorem results_ok {fields : List Field} (h : results scope s = .ok fields s') :
    Takes (fun _ => ResultsSpelled) (buildItems (Name.buildResult scope)) s fields s' := by
  simp only [results, bind_ok_iff, get_ok_iff] at h
  obtain ⟨_, _, ⟨rfl, rfl⟩, h⟩ := h
  have hnone : (pure [] : ParseM (List Field)) s = .ok fields s' →
      Takes (fun _ => ResultsSpelled) (buildItems (Name.buildResult scope)) s fields s' := by
    intro h
    obtain ⟨rfl, rfl⟩ := pure_ok_iff.1 h
    exact ⟨[], [], s.rest, s.draft, rfl, .none, rfl, rfl⟩
  cases hkind : s.kind? with
  | none => exact hnone (by simpa only [hkind] using h)
  | some kind =>
      simp only [hkind] at h
      cases kind with
      | identifier =>
          simp only [bind_ok_iff, pure_ok_iff] at h
          obtain ⟨field, _, hfield, rfl, rfl⟩ := h
          obtain ⟨name, ts, rest, d, hrest, ⟨t, ht, rfl⟩, hbuild, rfl⟩ := resultField_ok hfield
          exact ⟨[name], [t], rest, d, hrest, .one ht, bind_ok hbuild rfl, rfl⟩
      | leftParenthesis =>
          simp only [bind_ok_iff, discard_ok_iff, advance_ok_iff, expect_ok_iff, pure_ok_iff] at h
          obtain ⟨_, _, ⟨t, rest₀, hrest₀, rfl⟩, _, _, hfields, _, _, ⟨u, hu, rest, hrest, rfl⟩,
            rfl, rfl⟩ := h
          have ht : t.kind = .leftParenthesis := by simpa [kind?_eq, hrest₀] using hkind
          obtain ⟨names, ts, rest₁, d, rfl, hspelled, hbuild, rfl⟩ :=
            separatedUpTo_ok (fun _ => ItemsSpelled Name.Spelled) resultField_ok .done .first .more
              hfields
          obtain rfl : rest₁ = u :: rest := hrest
          exact ⟨names, t :: (ts ++ [u]), rest, d, by simp [hrest₀], .group ht hspelled hu, hbuild,
            rfl⟩
      | _ => exact hnone h

/-- **A function that is read** is spelled by the tokens that are taken, and its nodes are made. -/
theorem function_ok {decl : DeclId} (h : function .standard scope s = .ok decl s') :
    Takes (fun _ => Func.Spelled) (Func.build scope) s decl s' := by
  simp only [function, functionRest, bind_ok_iff, expect_ok_iff, within_ok_iff, onProgram_ok_iff,
    addDeclaration_ok_iff, modify_ok_iff, pure_ok_iff] at h
  obtain ⟨t, _, ⟨ht, rest₀, hrest₀, rfl⟩, ⟨u, name⟩, _, hname, inner, _, ⟨d₀, hd₀, rfl⟩, ps, _,
    hparameters, rs, _, hresults, decl, _, ⟨d₃, hd₃, rfl⟩, _, _, ⟨d₄, hd₄, rfl⟩, ids, _, hbody, _,
    _, rfl, rfl, rfl⟩ := h
  obtain ⟨rest₁, hrest₁, hu, rfl⟩ := expectName_ok_iff.1 hname
  obtain rfl : rest₀ = u :: rest₁ := hrest₁
  obtain ⟨parameters, v, ts, w, rest₂, d₁, hrest₂, hv, hspelled₁, hw, hbuild₁, rfl⟩ :=
    parameters_ok hparameters
  obtain rfl : rest₁ = v :: (ts ++ w :: rest₂) := hrest₂
  obtain ⟨results, us, rest₃, d₂, rfl, hspelled₂, hbuild₂, rfl⟩ := results_ok hresults
  obtain ⟨body, vs, rest, d₅, hrest, hspelled₃, hbuild₃, rfl⟩ :=
    braced_ok (fun h => statementsFrom_ok h) hbody
  obtain rfl : rest₃ = vs ++ rest := hrest
  refine ⟨⟨⟨name, u.position⟩, parameters, results, body⟩,
    t :: u :: v :: (ts ++ w :: (us ++ vs)), rest,
    { d₅ with program := d₅.program.setBody decl ids }, by simp [hrest₀],
    .intro ht hu hv hspelled₁ hw hspelled₂ hspelled₃, ?_, rfl⟩
  exact bind_ok hd₀ (bind_ok hbuild₁ (bind_ok hbuild₂ (bind_ok hd₃ (bind_ok hd₄
    (bind_ok hbuild₃ rfl)))))

/-! ### Files -/

/-- What was read as a file spells one, by induction on the number of its functions. -/
theorem functionsUpTo_ok {n : Nat} (hn : s.rest.length ≤ n)
    (h : functionsUpTo .standard n s = .ok () s') :
    ∃ fs d, FileSpelled fs s.rest ∧ buildFile fs s.draft = .ok () d ∧ s' = s.resume [] d := by
  induction n generalizing s with
  | zero =>
      obtain ⟨-, rfl⟩ := pure_ok_iff.1 h
      have hnil : s.rest = [] := List.length_eq_zero_iff.1 (Nat.le_zero.1 hn)
      exact ⟨[], s.draft, hnil ▸ .nil, rfl, by rw [← hnil]; rfl⟩
  | succ n ih =>
      simp only [functionsUpTo, bind_ok_iff, get_ok_iff] at h
      obtain ⟨_, _, ⟨rfl, rfl⟩, h⟩ := h
      cases hkind : s.kind? with
      | none =>
          simp only [hkind] at h
          obtain ⟨-, rfl⟩ := pure_ok_iff.1 h
          have hnil : s.rest = [] := by
            rw [kind?_eq] at hkind
            cases hrest : s.rest with
            | nil => rfl
            | cons t rest => simp [hrest] at hkind
          exact ⟨[], s.draft, hnil ▸ .nil, rfl, by rw [← hnil]; rfl⟩
      | some kind =>
          simp only [hkind] at h
          by_cases hword : kind = .funcWord
          · simp only [if_pos hword, bind_ok_iff, modify_ok_iff] at h
            obtain ⟨decl, s₁, hfunction, _, _, rfl, hothers⟩ := h
            have hread : s₁.rest.length < s.rest.length :=
              ((reads_function .standard .file).of_ok hfunction).2
            obtain ⟨f, ts, rest, d, hrest, hspelled, hbuild, rfl⟩ := function_ok hfunction
            obtain ⟨fs, d', hfile, hall, rfl⟩ := ih (by simp at hread ⊢; omega) hothers
            rw [hrest]
            exact ⟨f :: fs, d', .cons hspelled hfile, bind_ok hbuild (bind_ok rfl hall), rfl⟩
          · simp [if_neg hword, refuse] at h

/-- **A file that is read** is spelled by all the tokens, and its nodes are made. -/
theorem file_ok (h : file .standard s = .ok () s') :
    ∃ fs d, FileSpelled fs s.rest ∧ buildFile fs s.draft = .ok () d ∧ s' = s.resume [] d :=
  functionsUpTo_ok (Nat.le_refl _) h

end FrontEnd.Parser
