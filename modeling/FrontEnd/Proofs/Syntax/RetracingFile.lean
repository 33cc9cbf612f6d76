/-
**Spelled statements, functions and files are read.**

As for expressions, tokens that spell a tree are taken, and the nodes of the tree are made.  So a
file is accepted if it is spelled by trees whose nodes can be made, whatever the order in which its
functions stand.

Main results:

* `FrontEnd.Parser.follows_statement` — a spelled statement is read;
* `FrontEnd.Parser.follows_function` — a spelled function is read;
* `FrontEnd.Parser.file_of_spelled` — a spelled file is read.
-/

import FrontEnd.Proofs.Syntax.ReadingFile
import FrontEnd.Proofs.Syntax.Retracing

set_option relaxedAutoImplicit false
set_option autoImplicit false

namespace FrontEnd.Parser

open Syntax Run

variable {next : Option TokenKind} {t u v w : Token} {ts us vs ws : List Token} {scope : ScopeId}

/-! ### Statements without blocks -/

/-- The name of a type is looked up in the program that is built so far. -/
theorem Follows.typeName {β : Type} {name : Name} {then₁ : Reference × Position → ParseM β}
    {build : Draft → BuildM β} (ht : Name.ofToken? t = some name)
    (hthen : ∀ s : Parser, Follows next ts
      (then₁ (s.program.typeReference scope name.text name.position, name.position))
      (build s.draft)) :
    Follows next (t :: ts) (Parser.typeName scope >>= then₁) (MonadState.get >>= build) := by
  have hplace : name.position = t.position := (kind_of_ofToken? ht).2
  simp only [Parser.typeName, bind_assoc, pure_bind]
  rw [hplace] at hthen
  exact .expectName ht (.get hthen)

theorem follows_declareStatement {name type : Name} (ht : t.kind = .varWord)
    (hu : Name.ofToken? u = some name) (hv : Name.ofToken? v = some type)
    (hw : w.kind = .semicolon) :
    Follows next [t, u, v, w] (declareStatement scope)
      (Stmt.build scope (.declare t.position name type)) := by
  have hplace : name.position = u.position := (kind_of_ofToken? hu).2
  rw [Stmt.build, Stmt.buildDeclare, hplace]
  refine .expect ht (.expectName hu (.typeName hv fun s => .discardExpect hw ?_))
  refine .step (.addDeclaration _) fun decl => .step (.onProgram _) fun behind => ?_
  exact .step (.addStatement _ _) fun id => .step (.deferIf _ _) fun _ => .pure _

/-- The tokens of an update start with one that changes a variable, and the others are read along
the building of the change. -/
theorem follows_change {update : Update} (h : update.Spelled next ts) :
    ∃ t us, ts = t :: us ∧ t.kind ∈ changeTokens ∧
      ∀ scope, Follows next us (change .standard scope t.kind) (update.build scope) := by
  cases h with
  | assign ht h =>
      refine ⟨_, _, rfl, by simp [ht, changeTokens], fun scope => ?_⟩
      rw [ht]
      exact .map _ (follows_expression h scope)
  | add ht h =>
      refine ⟨_, _, rfl, by simp [ht, changeTokens], fun scope => ?_⟩
      rw [ht]
      exact .map _ (follows_expression h scope)
  | subtract ht h =>
      refine ⟨_, _, rfl, by simp [ht, changeTokens], fun scope => ?_⟩
      rw [ht]
      exact .map _ (follows_expression h scope)
  | increment ht =>
      refine ⟨_, _, rfl, by simp [ht, changeTokens], fun scope => ?_⟩
      rw [ht]
      exact .pure _
  | decrement ht =>
      refine ⟨_, _, rfl, by simp [ht, changeTokens], fun scope => ?_⟩
      rw [ht]
      exact .pure _

theorem follows_changeStatement {name : Name} {update : Update} (ht : Name.ofToken? t = some name)
    (h : update.Spelled next ts) (scope : ScopeId) :
    Follows next (t :: ts) (changeStatement .standard scope)
      (Simple.build scope (.change name update)) := by
  obtain ⟨u, us, rfl, hu, hchange⟩ := follows_change h
  have hplace : name.position = t.position := (kind_of_ofToken? ht).2
  refine .look fun s rest hrest => ?_
  rw [position_of_rest hrest, Simple.build, hplace]
  refine .expectName ht (.get fun s => .expectOneOf hu (.last (hchange scope) fun c => ?_))
  exact .step (.addStatement _ _) fun id => .step (.deferIf _ _) fun _ => .pure _

/-- A call is read, and recognised as a call. -/
theorem follows_callStatement {e : Expr} (hcall : e.isCall = true)
    (h : e.Spelled .default next (t :: ts)) (scope : ScopeId) :
    Follows next (t :: ts) (callStatement .standard scope)
      (Simple.build scope (.call t.position e)) := by
  refine .look fun s rest hrest => ?_
  rw [position_of_rest hrest]
  constructor
  intro s rest id d hrest hnext hbuild
  -- the reader finds out afterwards that the expression is a call
  obtain ⟨exprId, d₁, hd₁, hadd⟩ := bind_ok_iff.1 hbuild
  obtain ⟨node, hnode, -, -, hnodeCall⟩ := build_node hd₁
  refine bind_ok ((follows_expression h scope).run hrest hnext hd₁) ?_
  refine bind_ok (get_ok_iff.2 ⟨rfl, rfl⟩) ?_
  rw [resume_program, hnode, Option.any_some, hnodeCall, if_pos hcall]
  exact addStatement_ok_iff.2 ⟨d, hadd, rfl⟩

/-- A statement without blocks is told apart by the token behind its first one. -/
theorem follows_simple {x : Simple} (h : x.Spelled next ts) (scope : ScopeId) :
    Follows next ts (simple .standard scope) (x.build scope) := by
  cases h with
  | call hu hcall h =>
      refine .look fun s rest hrest => ?_
      rw [if_pos (by simp [peek?, hrest, hu])]
      exact follows_callStatement hcall h scope
  | change ht h =>
      refine .look fun s rest hrest => ?_
      obtain ⟨u, us, rfl, hu, -⟩ := follows_change h
      have hno : u.kind ≠ .leftParenthesis := by
        intro hkind
        simp [hkind, changeTokens] at hu
      rw [if_neg (by simpa [peek?, hrest] using hno)]
      exact follows_changeStatement ht h scope

theorem nextKind_of_simple {x : Simple} (h : x.Spelled next ts) (kind : TokenKind)
    (hkind : Grammar.standardPrefix kind = none) : ts ≠ [] ∧ nextKind ts none ≠ some kind := by
  cases h with
  | call _ _ h => exact nextKind_of_spelled h kind hkind
  | change ht _ =>
      refine ⟨List.cons_ne_nil _ _, ?_⟩
      rw [nextKind_cons, (kind_of_ofToken? ht).1]
      rintro ⟨⟩
      cases hkind

/-- A missing statement is told by the token in its place. -/
theorem follows_simpleUnless {kind : TokenKind} {x? : Option Simple}
    (hkind : Grammar.standardPrefix kind = none) (h : Simple.MaybeSpelled (some kind) x? ts)
    (scope : ScopeId) :
    Follows (some kind) ts (simpleUnless .standard kind scope) (Simple.buildMaybe scope x?) := by
  refine .lookKind fun s hnext => ?_
  cases h with
  | none =>
      rw [if_pos (show s.kind? = some kind from hnext)]
      exact .pure _
  | some h =>
      obtain ⟨hts, hfirst⟩ := nextKind_of_simple h kind hkind
      obtain ⟨t, ts, rfl⟩ := List.exists_cons_of_ne_nil hts
      rw [if_neg (by simpa [hnext] using hfirst)]
      exact .map _ (follows_simple h scope)

/-- The tokens of further values are read along the building of the list. -/
theorem follows_moreValues {es : List Expr} (h : Expr.ListSpelled (some .semicolon) false es ts)
    (scope : ScopeId) :
    Follows (some .semicolon) ts (moreValues .standard scope) (Expr.buildAll scope es) := by
  induction es generalizing ts with
  | nil =>
      cases h
      rw [moreValues_eq]
      refine .lookKind fun s hnext => ?_
      rw [if_neg (by simp [hnext])]
      exact .pure _
  | cons e es ih =>
      cases h with
      | more ht h hothers =>
          rw [moreValues_eq, Expr.buildAll]
          refine .lookKind fun s hnext => ?_
          rw [if_pos (by simp [hnext, ht])]
          refine .discardAdvance (.bind (follows_expression h scope) fun id => ?_)
          exact .last (ih hothers) fun ids => .pure _

theorem follows_values {es : List Expr} (h : Expr.ListSpelled (some .semicolon) true es ts)
    (scope : ScopeId) :
    Follows (some .semicolon) ts (values .standard scope) (Expr.buildAll scope es) := by
  refine .lookKind fun s hnext => ?_
  cases h with
  | done =>
      rw [if_pos (show s.kind? = some .semicolon from hnext)]
      exact .pure _
  | first h hothers =>
      obtain ⟨hts, hfirst⟩ := nextKind_of_spelled h .semicolon rfl
      obtain ⟨t, ts, rfl⟩ := List.exists_cons_of_ne_nil hts
      rw [if_neg (by simpa [hnext] using hfirst), Expr.buildAll]
      refine .bind (follows_expression h scope) fun id => ?_
      exact .last (follows_moreValues hothers scope) fun ids => .pure _

/-! ### Statements with blocks -/

section Lists

variable {list : ScopeId → ParseM (List StmtId)} {body thenBlock elseBlock : List Stmt}
  {condition : Expr}

/-- The tokens of statements in braces are read along the building of the statements. -/
structure BlockFollows (list : ScopeId → ParseM (List StmtId)) (body : List Stmt)
    (ts : List Token) : Prop where
  opens : ∀ next, nextKind ts next = some .leftBrace
  braced : ∀ next scope, Follows next ts (braced list scope) (Stmt.buildAll scope body)

theorem blockFollows (ht : t.kind = .leftBrace) (hu : u.kind = .rightBrace)
    (h : ∀ scope, Follows (some .rightBrace) ts (list scope) (Stmt.buildAll scope body)) :
    BlockFollows list body (t :: (ts ++ [u])) where
  opens _ := by rw [nextKind_cons, ht]
  braced next scope := by
    rw [← bind_pure (Stmt.buildAll scope body)]
    exact .discardExpect ht (.close hu (h scope) fun _ => .pure _)

theorem BlockFollows.blockOf (h : BlockFollows list body ts) (next : Option TokenKind)
    (scope : ScopeId) :
    Follows next ts (blockOf list scope)
      (Stmt.buildBlock (fun inner => Stmt.buildAll inner body) scope) :=
  .step (.onProgram _) fun inner => .last (h.braced next inner) fun _ => .pure _

/-- A condition ends before the brace of a block. -/
theorem BlockFollows.head (h : BlockFollows list body us)
    (hcondition : condition.Spelled .default (some .leftBrace) ts) (next : Option TokenKind)
    (scope : ScopeId) :
    Follows (nextKind us next) ts (expression .standard scope .default) (condition.build scope) := by
  rw [h.opens next]
  exact follows_expression hcondition scope

/-- The first token of a statement decides how it is read. -/
theorem follows_statementOf (rule : StatementRule) {build : BuildM (StmtId × ScopeId)}
    (hrule : Grammar.standardStatement t.kind = some rule)
    (h : Follows next (t :: ts)
      (match rule with
        | .declare => declareStatement scope
        | .simple => simpleStatement .standard scope
        | .branch => branchStatement .standard list scope
        | .whileLoop => whileStatement .standard list scope
        | .forLoop => forStatement .standard list scope
        | .result => resultStatement .standard scope) build) :
    Follows next (t :: ts) (statementOf .standard list scope) build := by
  refine .lookKind fun s hnext => ?_
  have hkind : s.kind?.bind Grammar.standard.statementRule = some rule := by
    simpa [hnext, Grammar.standard] using hrule
  rw [hkind]
  cases rule <;> exact h

theorem follows_noElse {β : Type} {then₁ : Option Block → ParseM β} {build : BuildM β}
    (hnext : next ≠ some .elseWord) (h : Follows next [] (then₁ none) build) :
    Follows next [] (Parser.elseBlock list scope >>= then₁) build := by
  unfold Parser.elseBlock
  rw [bind_assoc]
  refine .lookKind fun s hkind => ?_
  rw [if_neg (by simpa [hkind] using hnext), pure_bind]
  exact h

/-- A second part is read along its building, before whatever follows. -/
theorem follows_else {β : Type} {then₁ : Option Block → ParseM β} {then₂ : Block → BuildM β}
    (hu : u.kind = .elseWord) (hblock : BlockFollows list elseBlock ts)
    (hthen : ∀ block, Follows next [] (then₁ (some block)) (then₂ block)) :
    Follows next (u :: ts) (Parser.elseBlock list scope >>= then₁)
      (Stmt.buildBlock (fun inner => Stmt.buildAll inner elseBlock) scope >>= then₂) := by
  unfold Parser.elseBlock
  rw [bind_assoc]
  refine .lookKind fun s hkind => ?_
  rw [if_pos (by simp [hkind, hu])]
  simp only [bind_assoc, map_eq_pure_bind, pure_bind]
  exact .discardAdvance (.last (hblock.blockOf next scope) hthen)

theorem follows_branchStatement (ht : t.kind = .ifWord)
    (hcondition : condition.Spelled .default (some .leftBrace) ts)
    (hthen : BlockFollows list thenBlock us) (hnext : next ≠ some .elseWord) (scope : ScopeId) :
    Follows next (t :: (ts ++ us)) (branchStatement .standard list scope)
      (Stmt.build scope (.branch t.position condition thenBlock none)) := by
  rw [Stmt.build]
  refine .expect ht (.bind (hthen.head hcondition next scope) fun id => ?_)
  refine .last (hthen.blockOf next scope) fun block => follows_noElse hnext ?_
  exact .step (.addStatement _ _) fun _ => .pure _

theorem follows_branchElseStatement (ht : t.kind = .ifWord)
    (hcondition : condition.Spelled .default (some .leftBrace) ts)
    (hthen : BlockFollows list thenBlock us) (hu : u.kind = .elseWord)
    (helse : BlockFollows list elseBlock vs) (scope : ScopeId) :
    Follows next (t :: (ts ++ (us ++ u :: vs))) (branchStatement .standard list scope)
      (Stmt.build scope (.branch t.position condition thenBlock (some elseBlock))) := by
  rw [Stmt.build]
  refine .expect ht (.bind ?_ fun id => ?_)
  · rw [nextKind_append]
    exact hthen.head hcondition _ scope
  · refine .bind (hthen.blockOf _ scope) fun block => follows_else hu helse fun block' => ?_
    exact .step (.addStatement _ _) fun _ => .pure _

theorem follows_whileStatement (ht : t.kind = .whileWord)
    (hcondition : condition.Spelled .default (some .leftBrace) ts)
    (hbody : BlockFollows list body us) (scope : ScopeId) :
    Follows next (t :: (ts ++ us)) (whileStatement .standard list scope)
      (Stmt.build scope (.whileLoop t.position condition body)) := by
  rw [Stmt.build]
  refine .expect ht (.bind (hbody.head hcondition next scope) fun id => ?_)
  refine .last (hbody.blockOf next scope) fun block => ?_
  exact .step (.addStatement _ _) fun _ => .pure _

/-- The tokens of a counted repetition are read along its building. -/
theorem follows_forStatement {init? action? : Option Simple} (ht : t.kind = .forWord)
    (hinit : Simple.MaybeSpelled (some .semicolon) init? ts) (hu : u.kind = .semicolon)
    (hcondition : condition.Spelled .default (some .semicolon) us) (hv : v.kind = .semicolon)
    (haction : Simple.MaybeSpelled (some .leftBrace) action? vs)
    (hbody : BlockFollows list body ws) (scope : ScopeId) :
    Follows next (t :: (ts ++ u :: (us ++ v :: (vs ++ ws)))) (forStatement .standard list scope)
      (Stmt.build scope (.forLoop t.position init? condition action? body)) := by
  rw [Stmt.build]
  refine .expect ht (.close hu (follows_simpleUnless rfl hinit scope) fun initId? => ?_)
  refine .close hv (follows_expression hcondition scope) fun id => ?_
  refine .bind ?_ fun actionId? => .last (hbody.blockOf next scope) fun block => ?_
  · rw [hbody.opens]
    exact follows_simpleUnless rfl haction scope
  · exact .step (.addStatement _ _) fun _ => .pure _

theorem follows_resultStatement {values : List Expr} (ht : t.kind = .returnWord)
    (hvalues : Expr.ListSpelled (some .semicolon) true values ts) (hu : u.kind = .semicolon)
    (scope : ScopeId) :
    Follows next (t :: (ts ++ [u])) (resultStatement .standard scope)
      (Stmt.build scope (.result t.position values)) := by
  rw [Stmt.build]
  refine .expect ht (.close hu (follows_values hvalues scope) fun ids => ?_)
  exact .step (.addStatement _ _) fun _ => .pure _

theorem follows_simpleStatement {x : Simple} (hfirst : nextKind ts none = some .identifier)
    (h : x.Spelled (some .semicolon) ts) (hu : u.kind = .semicolon) (scope : ScopeId) :
    Follows next (ts ++ [u]) (statementOf .standard list scope)
      (Stmt.build scope (.simple x)) := by
  cases ts with
  | nil => cases hfirst
  | cons t ts =>
      obtain hkind : t.kind = .identifier := Option.some.inj hfirst
      rw [Stmt.build]
      refine follows_statementOf .simple (by rw [hkind]; rfl) ?_
      exact .close hu (follows_simple h scope) fun id => .pure _

end Lists

/-! ### Lists -/

/-- A statement starts with a token from which statements are read. -/
theorem exists_rule_of_spelled {x : Stmt} (h : x.Spelled next ts) :
    ∃ t us rule, ts = t :: us ∧ Grammar.standardStatement t.kind = some rule := by
  cases h with
  | declare ht _ _ _ => exact ⟨_, _, .declare, rfl, by rw [ht]; rfl⟩
  | simple hfirst h _ =>
      obtain ⟨t, ts, rfl⟩ :=
        List.exists_cons_of_ne_nil (nextKind_of_simple h .semicolon rfl).1
      obtain hkind : t.kind = .identifier := Option.some.inj hfirst
      exact ⟨t, _, .simple, rfl, by rw [hkind]; rfl⟩
  | branch ht _ _ _ | branchElse ht _ _ _ _ => exact ⟨_, _, .branch, rfl, by rw [ht]; rfl⟩
  | whileLoop ht _ _ => exact ⟨_, _, .whileLoop, rfl, by rw [ht]; rfl⟩
  | forLoop ht _ _ _ _ _ _ => exact ⟨_, _, .forLoop, rfl, by rw [ht]; rfl⟩
  | result ht _ _ => exact ⟨_, _, .result, rfl, by rw [ht]; rfl⟩

/-- A list of statements ends before the closing brace. -/
theorem follows_statementsFrom_nil (closed : Bool) (scope : ScopeId) :
    Follows (some .rightBrace) [] (statementsFrom .standard closed scope)
      (Stmt.buildAll scope []) := by
  rw [statementsFrom_eq]
  refine .lookKind fun s hkind => ?_
  rw [show s.kind? = some .rightBrace from hkind]
  exact .pure _

/-- The first statement of a list is read before the others, and if it is a `return` there are no
others. -/
theorem follows_statementsFrom_cons {x : Stmt} {others : List Stmt}
    (hfirst : x.Spelled (nextKind us (some .rightBrace)) ts)
    (hx : ∀ scope, Follows (nextKind us (some .rightBrace)) ts (statement .standard scope)
      (x.build scope))
    (hothers : ∀ closed scope, (closed = true → others = []) → Follows (some .rightBrace) us
      (statementsFrom .standard closed scope) (Stmt.buildAll scope others))
    (hlast : x.isReturn = true → others = []) (scope : ScopeId) :
    Follows (some .rightBrace) (ts ++ us) (statementsFrom .standard false scope)
      (Stmt.buildAll scope (x :: others)) := by
  obtain ⟨t, ts, rule, rfl, hrule⟩ := exists_rule_of_spelled hfirst
  have hbrace : t.kind ≠ .rightBrace := by
    intro hkind
    rw [hkind] at hrule
    cases hrule
  rw [statementsFrom_eq]
  refine .lookKind fun s hkind => ?_
  rw [show s.kind? = some t.kind from hkind]
  simp only [if_neg hbrace]
  constructor
  intro s' rest ids d hrest hnext hbuild
  rw [Stmt.buildAll] at hbuild
  obtain ⟨⟨id, behind⟩, d₁, hd₁, hbuild⟩ := bind_ok_iff.1 hbuild
  obtain ⟨ids, d₂, hd₂, hbuild⟩ := bind_ok_iff.1 hbuild
  obtain ⟨rfl, rfl⟩ := pure_ok_iff.1 hbuild
  rw [List.append_assoc] at hrest
  refine bind_ok (a := ()) (require_ok_iff.2 ⟨rfl, rfl⟩) ?_
  refine bind_ok ((hx scope).run hrest (by rw [nextKind_append, hnext]) hd₁) ?_
  refine bind_ok (get_ok_iff.2 ⟨rfl, rfl⟩) ?_
  -- whether the list may go on is read off the last node of the statement
  have hreturn : (s'.resume (us ++ rest) d₁).isReturn id = x.isReturn := isReturn_of_build hd₁
  simp only [hreturn]
  exact bind_ok ((hothers _ behind hlast).run rfl hnext hd₂) rfl

mutual

/-- **A spelled statement is read.** -/
theorem follows_statement {next : Option TokenKind} {x : Stmt} {ts : List Token} :
    x.Spelled next ts → ∀ scope, Follows next ts (statement .standard scope) (x.build scope)
  | .declare ht hu hv hw => fun scope =>
      follows_statementOf .declare (by rw [ht]; rfl)
        (follows_declareStatement ht hu hv hw)
  | .simple hfirst h hu => follows_simpleStatement hfirst h hu
  | .branch ht hcondition hthen hnext => fun scope =>
      follows_statementOf .branch (by rw [ht]; rfl)
        (follows_branchStatement ht hcondition (follows_block hthen) hnext scope)
  | .branchElse ht hcondition hthen hu helse => fun scope =>
      follows_statementOf .branch (by rw [ht]; rfl)
        (follows_branchElseStatement ht hcondition (follows_block hthen) hu (follows_block helse)
          scope)
  | .whileLoop ht hcondition hbody => fun scope =>
      follows_statementOf .whileLoop (by rw [ht]; rfl)
        (follows_whileStatement ht hcondition (follows_block hbody) scope)
  | .forLoop ht hinit hu hcondition hv haction hbody => fun scope =>
      follows_statementOf .forLoop (by rw [ht]; rfl)
        (follows_forStatement ht hinit hu hcondition hv haction (follows_block hbody) scope)
  | .result ht hvalues hu => fun scope =>
      follows_statementOf .result (by rw [ht]; rfl)
        (follows_resultStatement ht hvalues hu scope)

theorem follows_block {body : List Stmt} {ts : List Token} :
    Stmt.BlockSpelled body ts → BlockFollows (statements .standard) body ts
  | .intro ht h hu => blockFollows ht hu fun scope => follows_statementsFrom h false scope nofun

theorem follows_statementsFrom {xs : List Stmt} {ts : List Token} :
    Stmt.ListSpelled xs ts → ∀ closed scope, (closed = true → xs = []) →
      Follows (some .rightBrace) ts (statementsFrom .standard closed scope) (Stmt.buildAll scope xs)
  | .nil => fun closed scope _ => follows_statementsFrom_nil closed scope
  | .cons h hothers hlast => fun closed scope hclosed => by
      obtain rfl : closed = false := by simpa using hclosed
      exact follows_statementsFrom_cons h (follows_statement h) (follows_statementsFrom hothers)
        hlast scope

end

/-! ### Functions -/

theorem Follows.addField {name? : Option String} {type : Reference} {place : Position} :
    Follows next [] (Parser.addField name? type place) (buildField name? type place) :=
  .step (.addDeclaration _) fun _ => .step (.deferIf _ _) fun _ => .pure _

theorem follows_parameter {p : Param} (h : p.Spelled ts) (scope : ScopeId) :
    Follows next ts (parameter scope) (p.build scope) := by
  obtain ⟨t, u, ht, hu, rfl⟩ := h
  have hplace : p.name.position = t.position := (kind_of_ofToken? ht).2
  rw [Param.build, hplace]
  refine .expectName ht (.typeName hu fun s => .step .addField fun field => ?_)
  exact .step (.onProgram _) fun _ => .pure _

theorem follows_resultField {name : Name} (h : name.Spelled ts) (scope : ScopeId) :
    Follows next ts (resultField scope) (name.buildResult scope) := by
  obtain ⟨t, ht, rfl⟩ := h
  exact .typeName ht fun s => .addField

/-- Spelled items with commas between them are read. -/
theorem follows_items {α β : Type} {spelled : α → List Token → Prop} {item : ParseM β}
    {build : α → BuildM β} {xs : List α} {isFirst : Bool} (h : ItemsSpelled spelled isFirst xs ts)
    (hread : Reads 1 item)
    (hitem : ∀ {next x ts}, spelled x ts → Follows next ts item (build x))
    (hname : ∀ {x ts}, spelled x ts → ∃ t us, ts = t :: us ∧ t.kind = .identifier) :
    Follows (some .rightParenthesis) ts (separatedFrom .rightParenthesis item isFirst)
      (buildItems build xs) := by
  induction h with
  | done => exact follows_separatedFrom_nil hread _
  | first hx _ ih =>
      obtain ⟨t, us, rfl, ht⟩ := hname hx
      exact follows_separatedFrom_first hread (by simp [ht]) (List.cons_ne_nil _ _) (hitem hx) ih
  | more ht hx _ ih => exact follows_separatedFrom_more hread (by decide) ht (hitem hx) ih

theorem follows_parameters {ps : List Param} (ht : t.kind = .leftParenthesis)
    (h : ItemsSpelled Param.Spelled true ps ts) (hu : u.kind = .rightParenthesis)
    (scope : ScopeId) :
    Follows next (t :: (ts ++ [u])) (parameters scope) (buildItems (Param.build scope) ps) := by
  have hname : ∀ {p : Param} {ts}, p.Spelled ts → ∃ t us, ts = t :: us ∧ t.kind = .identifier := by
    rintro p _ ⟨t, u, ht, -, rfl⟩
    exact ⟨t, [u], rfl, (kind_of_ofToken? ht).1⟩
  have hitems := follows_items h (reads_parameter scope)
    (fun hp => follows_parameter hp scope) hname
  rw [← bind_pure (buildItems (Param.build scope) ps)]
  exact .discardExpect ht (.close hu hitems fun _ => .pure _)

/-- Results are missing if the body follows at once. -/
theorem follows_results {names : List Name} (h : ResultsSpelled names ts) (scope : ScopeId) :
    Follows (some .leftBrace) ts (results scope) (buildItems (Name.buildResult scope) names) := by
  refine .lookKind fun s hkind => ?_
  cases h with
  | none =>
      rw [show s.kind? = some .leftBrace from hkind]
      exact .pure _
  | one ht =>
      rw [hkind, nextKind_cons, (kind_of_ofToken? ht).1]
      exact .last (follows_resultField ⟨_, ht, rfl⟩ scope) fun field => .pure _
  | group ht h hu =>
      have hname : ∀ {name : Name} {ts}, name.Spelled ts →
          ∃ t us, ts = t :: us ∧ t.kind = .identifier := by
        rintro name _ ⟨t, ht, rfl⟩
        exact ⟨t, [], rfl, (kind_of_ofToken? ht).1⟩
      have hitems := follows_items h (reads_resultField scope)
        (fun hresult => follows_resultField hresult scope) hname
      rw [hkind, nextKind_cons, ht, ← bind_pure (buildItems (Name.buildResult scope) names)]
      exact .discardAdvance (.close hu hitems fun _ => .pure _)

/-- A context makes no difference to a success. -/
theorem Follows.within {β : Type} {context : String} {action : ParseM β} {build : BuildM β}
    (h : Follows next ts action build) : Follows next ts (Parser.within context action) build :=
  ⟨fun hrest hnext hbuild => within_ok_iff.2 (h.run hrest hnext hbuild)⟩

theorem Follows.setBody {decl : DeclId} {body : List StmtId} :
    Follows next []
      (modify fun s : Parser => { s with program := s.program.setBody decl body })
      (modify fun d : Draft => { d with program := d.program.setBody decl body }) := by
  refine .of_ok_iff ?_
  intro s s' _
  rw [modify_ok_iff]
  constructor
  · rintro rfl
    exact ⟨_, rfl, rfl⟩
  · rintro ⟨_, h, rfl⟩
    cases h
    rfl

/-- **A spelled function is read.** -/
theorem follows_function {f : Func} (h : f.Spelled ts) (scope : ScopeId) :
    Follows next ts (function .standard scope) (f.build scope) := by
  obtain ⟨ht, hu, hv, hparameters, hw, hresults, hbody⟩ := h
  rename_i name parameters results body t u v w ts us vs
  have hplace : name.position = u.position := (kind_of_ofToken? hu).2
  have htokens : v :: (ts ++ w :: (us ++ vs)) = v :: (ts ++ [w]) ++ (us ++ vs) := by simp
  have hblock := follows_block hbody
  rw [Func.build, htokens, hplace]
  refine .expect ht (.within (.expectName hu (.step (.onProgram _) fun inner => ?_)))
  -- the results end before the brace of the body
  refine .bind (follows_parameters hv hparameters hw inner) fun ps => .bind ?_ fun rs => ?_
  · rw [hblock.opens]
    exact follows_results hresults inner
  · refine .step (.addDeclaration _) fun decl => .step (.onProgram _) fun _ => ?_
    refine .last (hblock.braced next inner) fun ids => ?_
    exact .step .setBody fun _ => .pure _

/-! ### Files -/

theorem exists_funcWord_of_spelled {f : Func} (h : f.Spelled ts) :
    ∃ t us, ts = t :: us ∧ t.kind = .funcWord := by
  obtain ⟨ht, -, -, -, -, -, -⟩ := h
  exact ⟨_, _, rfl, ht⟩

/-- **A spelled file is read** if its nodes can be made. -/
theorem file_of_spelled {fs : List Func} (h : FileSpelled fs ts) {s : Parser} {d : Draft}
    (hrest : s.rest = ts) (hbuild : buildFile fs s.draft = .ok () d) :
    file .standard s = .ok () (s.resume [] d) := by
  induction h generalizing s with
  | nil =>
      obtain ⟨-, rfl⟩ := pure_ok_iff.1 hbuild
      rw [file_eq]
      refine bind_ok (get_ok_iff.2 ⟨rfl, rfl⟩) ?_
      rw [kind?_eq, hrest, nextKind_nil]
      exact pure_ok_iff.2 ⟨rfl, by rw [← hrest]; rfl⟩
  | @cons f others ts us hf _ ih =>
      obtain ⟨decl, d₁, hd₁, hothers⟩ := bind_ok_iff.1 hbuild
      obtain ⟨_, d₂, hd₂, hothers⟩ := bind_ok_iff.1 hothers
      obtain rfl := modify_ok_iff.1 hd₂
      obtain ⟨t, ts, rfl, ht⟩ := exists_funcWord_of_spelled hf
      rw [file_eq]
      refine bind_ok (get_ok_iff.2 ⟨rfl, rfl⟩) ?_
      rw [kind?_eq, hrest, List.cons_append, nextKind_cons]
      simp only [if_pos ht]
      refine bind_ok ((follows_function hf .file).run hrest rfl hd₁) ?_
      exact bind_ok (a := ()) (modify_ok_iff.2 rfl) (ih rfl hothers)

end FrontEnd.Parser
