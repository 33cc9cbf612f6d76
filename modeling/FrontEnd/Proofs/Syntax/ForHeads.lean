/-
**Heads of counted repetitions.**

What stands behind a `for` is divided by two semicolons and a brace, and none of these occur in the
parts between them, so the parts can be told by looking at kinds alone.  The first and the last of
them may be missing, and are statements without blocks otherwise.  Such a statement starts with a
name, with one exception: if a parenthesis is the second token, then the statement is read as an
expression, and an expression that starts with two parentheses can be a call as well.  In the body
of a function no statement starts that way, because there the first token chooses the rule; behind
a `for` nothing does.

Main definitions:

* `FrontEnd.Syntax.forInit`, `FrontEnd.Syntax.forCondition`, `FrontEnd.Syntax.forAction` — the parts
  of a head;
* `FrontEnd.Syntax.ForHead` — the parts are spelled as they should be;
* `FrontEnd.Syntax.Led` — what the first and the last part start with.

Main results:

* `FrontEnd.Syntax.Simple.Spelled.led` — how a statement without blocks starts;
* `FrontEnd.Syntax.FileSpelled.forsHeaded` — every `for` of a file is followed by a head;
* `FrontEnd.parseFile_forHeads` — the heads in a file that was read.
-/

import FrontEnd.Proofs.Resolution.TwoPass
import FrontEnd.Proofs.Syntax.Retracing

set_option relaxedAutoImplicit false
set_option autoImplicit false

namespace FrontEnd

namespace Syntax

variable {t u v w : Token} {ts us vs tail : List Token} {next : Option TokenKind}
  {power : BindingPower} {e left : Expr} {kind : TokenKind}

/-! ### Parts of a head -/

/-- The tokens before the first one of the kind. -/
def upTo (kind : TokenKind) (ts : List Token) : List Token := ts.takeWhile (·.kind != kind)

/-- The tokens behind the first one of the kind. -/
def behind (kind : TokenKind) (ts : List Token) : List Token :=
  (ts.dropWhile (·.kind != kind)).tail

/-- Behind a `for`, the tokens of the statement that comes first. -/
def forInit (ts : List Token) : List Token := upTo .semicolon ts

/-- Behind a `for`, the tokens of the condition. -/
def forCondition (ts : List Token) : List Token := upTo .semicolon (behind .semicolon ts)

/-- Behind a `for`, the tokens of the statement that comes last. -/
def forAction (ts : List Token) : List Token :=
  upTo .leftBrace (behind .semicolon (behind .semicolon ts))

theorem upTo_append (hts : ∀ x ∈ ts, x.kind ≠ kind) (hu : u.kind = kind) :
    upTo kind (ts ++ u :: us) = ts := by
  rw [upTo, List.takeWhile_append_of_pos (by simpa using hts), List.takeWhile_cons_of_neg (by simpa),
    List.append_nil]

theorem behind_append (hts : ∀ x ∈ ts, x.kind ≠ kind) (hu : u.kind = kind) :
    behind kind (ts ++ u :: us) = us := by
  rw [behind, List.dropWhile_append_of_pos (by simpa using hts),
    List.dropWhile_cons_of_neg (by simpa), List.tail_cons]

/-! ### Tokens inside of the parts -/

/-- The kind is none of those by which heads are told and divided. -/
def IsInner (kind : TokenKind) : Prop := kind ∉ [.forWord, .semicolon, .leftBrace]

instance (kind : TokenKind) : Decidable (IsInner kind) := inferInstanceAs (Decidable (_ ∉ _))

theorem IsInner.ne {other : TokenKind} (h : IsInner kind)
    (hother : other ∈ [TokenKind.forWord, .semicolon, .leftBrace]) : kind ≠ other :=
  fun heq => h (heq ▸ hother)

theorem isInner_token (operator : BinaryOperator) : IsInner operator.token := by
  cases operator <;> decide

/-- What expressions start with is inner. -/
theorem isInner_of_prefixRule {rule : PrefixRule} (h : Grammar.standardPrefix kind = some rule) :
    IsInner kind := by
  cases kind <;> first | decide | cases h

/-- All tokens are inner. -/
def AllInner (ts : List Token) : Prop := ∀ t ∈ ts, IsInner t.kind

theorem allInner_nil : AllInner [] := fun _ h => by cases h

theorem AllInner.cons (ht : IsInner t.kind) (h : AllInner ts) : AllInner (t :: ts) :=
  List.forall_mem_cons.2 ⟨ht, h⟩

theorem AllInner.append (h : AllInner ts) (h' : AllInner us) : AllInner (ts ++ us) :=
  List.forall_mem_append.2 ⟨h, h'⟩

theorem allInner_singleton (ht : IsInner t.kind) : AllInner [t] := allInner_nil.cons ht

/-- A token of a known kind goes first. -/
theorem AllInner.cons_of_eq (h : AllInner ts) (ht : t.kind = kind)
    (hkind : IsInner kind := by decide) : AllInner (t :: ts) := h.cons (ht ▸ hkind)

theorem isInner_of_name {name : Name} (h : Name.ofToken? t = some name) : IsInner t.kind :=
  (Parser.kind_of_ofToken? h).1 ▸ by decide

mutual

theorem Expr.Spelled.allInner {power : BindingPower} {next : Option TokenKind} {e : Expr}
    {ts : List Token} : e.Spelled power next ts → AllInner ts
  | .intro hstart hrest => hstart.allInner.append hrest.allInner

theorem Expr.StartSpelled.allInner {next : Option TokenKind} {e : Expr} {ts : List Token} :
    e.StartSpelled next ts → AllInner ts
  | .literal h => allInner_singleton (isInner_of_prefixRule (Parser.standardPrefix_of_literal h))
  | .name h => allInner_singleton (isInner_of_name h)
  | .not ht h => h.allInner.cons_of_eq ht
  | .group ht h hu => (h.allInner.append (allInner_nil.cons_of_eq hu)).cons_of_eq ht

theorem Expr.RestSpelled.allInner {left e : Expr} {power : BindingPower}
    {next : Option TokenKind} {ts : List Token} : left.RestSpelled power next ts e → AllInner ts
  | .done _ => allInner_nil
  | .binary ht _ hright hrest =>
      (hright.allInner.append hrest.allInner).cons_of_eq ht (isInner_token _)
  | .call ht _ _ hlist hu hrest =>
      (hlist.allInner.append (hrest.allInner.cons_of_eq hu)).cons_of_eq ht

theorem Expr.ListSpelled.allInner {next : Option TokenKind} {isFirst : Bool} {es : List Expr}
    {ts : List Token} : Expr.ListSpelled next isFirst es ts → AllInner ts
  | .done => allInner_nil
  | .first h hothers => h.allInner.append hothers.allInner
  | .more ht h hothers => (h.allInner.append hothers.allInner).cons_of_eq ht

end

theorem Update.Spelled.allInner {update : Update} (h : update.Spelled next ts) : AllInner ts := by
  cases h with
  | assign ht h | add ht h | subtract ht h => exact h.allInner.cons_of_eq ht
  | increment ht | decrement ht => exact allInner_nil.cons_of_eq ht

theorem Simple.Spelled.allInner {s : Simple} (h : s.Spelled next ts) : AllInner ts := by
  cases h with
  | call _ _ h => exact h.allInner
  | change hname h => exact h.allInner.cons (isInner_of_name hname)

theorem Simple.MaybeSpelled.allInner {s? : Option Simple} (h : MaybeSpelled next s? ts) :
    AllInner ts := by
  cases h with
  | none => exact allInner_nil
  | some h => exact h.allInner

/-! ### Heads -/

/-- Behind a `for`, the parts of the head are spelled as they should be, and stand one behind the
other with what divides them in between. -/
structure ForHead (ts : List Token) : Prop where
  init : ∃ s?, Simple.MaybeSpelled (some .semicolon) s? (forInit ts)
  condition : ∃ e : Expr, e.Spelled .default (some .semicolon) (forCondition ts)
  action : ∃ s?, Simple.MaybeSpelled (some .leftBrace) s? (forAction ts)
  divided : ∃ u v w tail, ts =
      forInit ts ++ u :: (forCondition ts ++ v :: (forAction ts ++ w :: tail)) ∧
    u.kind = .semicolon ∧ v.kind = .semicolon ∧ w.kind = .leftBrace

/-- The parts are found again by the kinds that divide them. -/
theorem forHead_intro {init? action? : Option Simple}
    (hinit : Simple.MaybeSpelled (some .semicolon) init? ts) (hu : u.kind = .semicolon)
    (hcondition : e.Spelled .default (some .semicolon) us) (hv : v.kind = .semicolon)
    (haction : Simple.MaybeSpelled (some .leftBrace) action? vs) (hw : w.kind = .leftBrace) :
    ForHead (ts ++ u :: (us ++ v :: (vs ++ w :: tail))) := by
  have hts : ∀ x ∈ ts, x.kind ≠ .semicolon := fun x hx => (hinit.allInner x hx).ne (by simp)
  have hus : ∀ x ∈ us, x.kind ≠ .semicolon := fun x hx => (hcondition.allInner x hx).ne (by simp)
  have hvs : ∀ x ∈ vs, x.kind ≠ .leftBrace := fun x hx => (haction.allInner x hx).ne (by simp)
  have hforInit : forInit (ts ++ u :: (us ++ v :: (vs ++ w :: tail))) = ts := upTo_append hts hu
  have hforCondition : forCondition (ts ++ u :: (us ++ v :: (vs ++ w :: tail))) = us := by
    rw [forCondition, behind_append hts hu, upTo_append hus hv]
  have hforAction : forAction (ts ++ u :: (us ++ v :: (vs ++ w :: tail))) = vs := by
    rw [forAction, behind_append hts hu, behind_append hus hv, upTo_append hvs hw]
  refine ⟨?_, ?_, ?_, u, v, w, tail, ?_, hu, hv, hw⟩
  · rw [hforInit]
    exact ⟨_, hinit⟩
  · rw [hforCondition]
    exact ⟨e, hcondition⟩
  · rw [hforAction]
    exact ⟨_, haction⟩
  · rw [hforInit, hforCondition, hforAction]

/-- A head is a head whatever follows. -/
theorem ForHead.append (h : ForHead ts) (us : List Token) : ForHead (ts ++ us) := by
  obtain ⟨⟨_, hinit⟩, ⟨_, hcondition⟩, ⟨_, haction⟩, u, v, w, tail, hts, hu, hv, hw⟩ := h
  rw [hts]
  simp only [List.append_assoc, List.cons_append]
  exact forHead_intro hinit hu hcondition hv haction hw

/-- Every `for` among the tokens is followed by a head. -/
def ForsHeaded : List Token → Prop
  | [] => True
  | t :: ts => (t.kind = .forWord → ForHead ts) ∧ ForsHeaded ts

theorem ForsHeaded.append (h : ForsHeaded ts) (h' : ForsHeaded us) : ForsHeaded (ts ++ us) := by
  induction ts with
  | nil => exact h'
  | cons t ts ih => exact ⟨fun ht => (h.1 ht).append us, ih h.2⟩

/-- A token of another kind goes first. -/
theorem ForsHeaded.cons (h : ForsHeaded ts) (ht : t.kind = kind)
    (hkind : kind ≠ .forWord := by decide) : ForsHeaded (t :: ts) :=
  ⟨fun hfor => absurd (ht.symm.trans hfor) hkind, h⟩

theorem AllInner.forsHeaded (h : AllInner ts) : ForsHeaded ts := by
  induction ts with
  | nil => trivial
  | cons t ts ih =>
      obtain ⟨ht, hts⟩ := List.forall_mem_cons.1 h
      exact (ih hts).cons rfl (ht.ne (by simp))

theorem ForsHeaded.forHead {before : List Token} (h : ForsHeaded (before ++ t :: ts))
    (ht : t.kind = .forWord) : ForHead ts := by
  induction before with
  | nil => exact h.1 ht
  | cons x before ih => exact ih h.2

theorem forsHeaded_nil : ForsHeaded [] := trivial

/-! ### Statements and functions -/

mutual

/-- Every `for` of a statement that is spelled has a head, by induction on the spelling. -/
theorem Stmt.Spelled.forsHeaded {next : Option TokenKind} {s : Stmt} {ts : List Token} :
    s.Spelled next ts → ForsHeaded ts
  | .declare ht hu hv hw =>
      (((forsHeaded_nil.cons hw).cons (Parser.kind_of_ofToken? hv).1).cons
        (Parser.kind_of_ofToken? hu).1).cons ht
  | .simple _ h hu => h.allInner.forsHeaded.append (forsHeaded_nil.cons hu)
  | .branch ht h hthen _ => (h.allInner.forsHeaded.append hthen.forsHeaded).cons ht
  | .branchElse ht h hthen hu helse =>
      (h.allInner.forsHeaded.append (hthen.forsHeaded.append (helse.forsHeaded.cons hu))).cons ht
  | .whileLoop ht h hbody => (h.allInner.forsHeaded.append hbody.forsHeaded).cons ht
  | .forLoop ht hinit hu h hv haction hbody => by
      have hlater := hinit.allInner.forsHeaded.append ((h.allInner.forsHeaded.append
        ((haction.allInner.forsHeaded.append hbody.forsHeaded).cons hv)).cons hu)
      refine ⟨fun _ => ?_, hlater⟩
      -- the block shows where the last part of the head ends
      cases hbody with
      | intro hw _ _ => exact forHead_intro hinit hu h hv haction hw
  | .result ht h hu => (h.allInner.forsHeaded.append (forsHeaded_nil.cons hu)).cons ht

theorem Stmt.BlockSpelled.forsHeaded {xs : List Stmt} {ts : List Token} :
    Stmt.BlockSpelled xs ts → ForsHeaded ts
  | .intro ht h hu => (h.forsHeaded.append (forsHeaded_nil.cons hu)).cons ht

theorem Stmt.ListSpelled.forsHeaded {xs : List Stmt} {ts : List Token} :
    Stmt.ListSpelled xs ts → ForsHeaded ts
  | .nil => forsHeaded_nil
  | .cons h hothers _ => h.forsHeaded.append hothers.forsHeaded

end

theorem ItemsSpelled.allInner {α : Type} {item : α → List Token → Prop} {isFirst : Bool}
    {xs : List α} (hitem : ∀ {x ts}, item x ts → AllInner ts)
    (h : ItemsSpelled item isFirst xs ts) : AllInner ts := by
  induction h with
  | done => exact allInner_nil
  | first hx _ ih => exact (hitem hx).append ih
  | more ht hx _ ih => exact ((hitem hx).append ih).cons_of_eq ht

theorem Name.Spelled.allInner {name : Name} (h : name.Spelled ts) : AllInner ts := by
  obtain ⟨t, hname, rfl⟩ := h
  exact allInner_singleton (isInner_of_name hname)

theorem Param.Spelled.allInner {p : Param} (h : p.Spelled ts) : AllInner ts := by
  obtain ⟨t, u, hname, htype, rfl⟩ := h
  exact (allInner_singleton (isInner_of_name htype)).cons (isInner_of_name hname)

theorem ResultsSpelled.allInner {types : List Name} (h : ResultsSpelled types ts) :
    AllInner ts := by
  cases h with
  | none => exact allInner_nil
  | one htype => exact allInner_singleton (isInner_of_name htype)
  | group ht hitems hu =>
      exact ((hitems.allInner Name.Spelled.allInner).append
        (allInner_nil.cons_of_eq hu)).cons_of_eq ht

theorem Func.Spelled.forsHeaded {f : Func} (h : f.Spelled ts) : ForsHeaded ts := by
  obtain ⟨ht, hname, hv, hparameters, hw, hresults, hbody⟩ := h
  have hsignature := (hparameters.allInner Param.Spelled.allInner).forsHeaded
  have hlater := (hresults.allInner.forsHeaded.append hbody.forsHeaded).cons hw
  exact (((hsignature.append hlater).cons hv).cons (Parser.kind_of_ofToken? hname).1).cons ht

/-- **Every `for` of a file is followed by a head.** -/
theorem FileSpelled.forsHeaded {fs : List Func} (h : FileSpelled fs ts) : ForsHeaded ts := by
  induction h with
  | nil => trivial
  | cons hf _ ih => exact hf.forsHeaded.append ih

/-! ### What statements without blocks start with -/

/-- What cannot be called is no call and does not grow to one. -/
theorem Expr.RestSpelled.isCall_eq_false {left e : Expr} {power : BindingPower}
    {next : Option TokenKind} {ts : List Token} :
    left.RestSpelled power next ts e → left.isCallable = false → e.isCall = false
  | .done _, hleft => by
      cases left with
      | call callee arguments => cases hleft
      | _ => rfl
  | .binary _ _ _ hrest, _ => hrest.isCall_eq_false rfl
  | .call _ _ hcallable _ _ _, hleft => by
      rw [hleft] at hcallable
      cases hcallable

/-- A call starts with a name or a parenthesis. -/
theorem Expr.Spelled.first_of_isCall (h : e.Spelled power next ts) (hcall : e.isCall = true) :
    ∃ t us, ts = t :: us ∧ (t.kind = .identifier ∨ t.kind = .leftParenthesis) := by
  obtain ⟨hstart, hrest⟩ := h
  cases hstart with
  | literal _ | not _ _ =>
      rw [hrest.isCall_eq_false rfl] at hcall
      cases hcall
  | name hname => exact ⟨_, _, rfl, .inl (Parser.kind_of_ofToken? hname).1⟩
  | group ht _ _ => exact ⟨_, _, rfl, .inr ht⟩

/-- The tokens start with a name, if there are any, or else with two parentheses, and then they
spell a call. -/
def Led (next : Option TokenKind) (ts : List Token) : Prop :=
  ∀ t us, ts = t :: us → t.kind = .identifier ∨
    t.kind = .leftParenthesis ∧ nextKind us none = some .leftParenthesis ∧
      ∃ e : Expr, e.isCall = true ∧ e.Spelled .default next ts

/-- **How a statement without blocks starts.** -/
theorem Simple.Spelled.led {s : Simple} (h : s.Spelled next ts) : Led next ts := by
  intro t us hts
  cases h with
  | @call e _ u _ hu hcall hspelled =>
      obtain ⟨t', us', heq, hfirst⟩ := hspelled.first_of_isCall hcall
      cases heq
      obtain ⟨rfl, rfl⟩ := List.cons.inj hts
      exact hfirst.imp_right fun hopen => ⟨hopen, congrArg some hu, e, hcall, hspelled⟩
  | change hname _ =>
      obtain ⟨rfl, rfl⟩ := List.cons.inj hts
      exact .inl (Parser.kind_of_ofToken? hname).1

theorem Simple.MaybeSpelled.led {s? : Option Simple} (h : MaybeSpelled next s? ts) :
    Led next ts := by
  cases h with
  | none => exact fun _ _ hts => by cases hts
  | some h => exact h.led

end Syntax

open Syntax

/-! ### Files that were read -/

variable {tokens before rest : List Token} {t : Token} {p : Program} {d : Deferred}

/-- **Heads in a file that was read.**  Behind every `for`, at any depth, there are the parts of a
head.  The first and the last part, where they are not missing, start with a name, or else with two
parentheses, and then they are calls. -/
theorem parseFile_forHeads (h : parseFile tokens = .ok (p, d))
    (htokens : tokens = before ++ t :: rest) (ht : t.kind = .forWord) :
    ForHead rest ∧ Led (some .semicolon) (forInit rest) ∧ Led (some .leftBrace) (forAction rest) := by
  obtain ⟨fs, hspelled, -⟩ := spelled_of_parseFile h
  rw [htokens] at hspelled
  have hhead := hspelled.forsHeaded.forHead ht
  obtain ⟨_, hinit⟩ := hhead.init
  obtain ⟨_, haction⟩ := hhead.action
  exact ⟨hhead, hinit.led, haction.led⟩

/-- A file in which the first part of a head starts with parentheses. -/
def groupedCallee : List Token := tokensOf "func f() \x7b for ((f))(); true; \x7b \x7d \x7d"

/-- The `for` of that file. -/
def groupedFor : Token := ⟨.forWord, .none, ⟨0, 11⟩⟩

theorem groupedCallee_eq :
    groupedCallee = groupedCallee.take 5 ++ groupedFor :: groupedCallee.drop 6 := by
  decide +kernel

theorem exists_parseFile_groupedCallee : ∃ p d, parseFile groupedCallee = .ok (p, d) := by
  have hread : (parseFile groupedCallee).toOption.isSome = true := by decide +kernel
  obtain ⟨⟨p, d⟩, hp⟩ := Run.exists_of_isSome hread
  exact ⟨p, d, hp⟩

/-- The first part of the head is a call in which parentheses stand around the name. -/
theorem parseFile_forHeads_groupedCallee : ∃ p d, parseFile groupedCallee = .ok (p, d) ∧
    groupedCallee = groupedCallee.take 5 ++ groupedFor :: groupedCallee.drop 6 ∧
      ForHead (groupedCallee.drop 6) ∧ Led (some .semicolon) (forInit (groupedCallee.drop 6)) ∧
        Led (some .leftBrace) (forAction (groupedCallee.drop 6)) := by
  obtain ⟨p, d, hp⟩ := exists_parseFile_groupedCallee
  exact ⟨p, d, hp, groupedCallee_eq, parseFile_forHeads hp groupedCallee_eq rfl⟩

/-- Not every part of a head starts with a name. -/
theorem not_forall_parseFile_identifier :
    ¬ ∀ (tokens before rest : List Token) (t : Token) (p : Program) (d : Deferred),
      parseFile tokens = .ok (p, d) → tokens = before ++ t :: rest → t.kind = .forWord →
        (∀ u ∈ (forInit rest).head?, u.kind = .identifier) ∧
          ∀ u ∈ (forAction rest).head?, u.kind = .identifier := by
  intro hall
  obtain ⟨p, d, hp⟩ := exists_parseFile_groupedCallee
  have hfirst : ¬ ∀ u ∈ (forInit (groupedCallee.drop 6)).head?, u.kind = .identifier := by
    decide +kernel
  exact hfirst (hall _ _ _ _ p d hp groupedCallee_eq rfl).1

end FrontEnd
