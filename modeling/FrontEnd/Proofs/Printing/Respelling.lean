/-
**Where tokens stand makes no difference.**

Tokens with the same words spell the same trees, up to positions: every rule of the grammar looks at
kinds and at what tokens stand for, and only copies their positions into the tree.  Together with
the fact that nodes are made without regard to positions, this shows that a file is read in the same
way wherever its tokens stand.

Main definition:

* `FrontEnd.SameWords` — tokens that differ in their positions only.

Main results:

* `FrontEnd.Syntax.FileSpelled.respell` — the trees that tokens with the same words spell;
* `FrontEnd.parseFile_of_sameWords` — such tokens are read as the same program, up to positions.
-/

import FrontEnd.Proofs.Printing.Printed
import FrontEnd.Proofs.Resolution.Acceptance

set_option relaxedAutoImplicit false
set_option autoImplicit false

namespace FrontEnd

/-! ### Tokens with the same words -/

/-- The tokens differ in their positions only. -/
def SameWords (ts ts' : List Token) : Prop := ts.map Token.word = ts'.map Token.word

namespace SameWords

variable {t u : Token} {ts us ts' : List Token}

theorem nil_left (h : SameWords [] ts') : ts' = [] := List.map_eq_nil_iff.1 h.symm

theorem exists_cons (h : SameWords (t :: ts) ts') :
    ∃ t' us', ts' = t' :: us' ∧ t.word = t'.word ∧ SameWords ts us' := by
  cases ts' with
  | nil => cases h
  | cons t' us' =>
      obtain ⟨ht, hts⟩ := List.cons.inj h
      exact ⟨t', us', rfl, ht, hts⟩

theorem exists_append (h : SameWords (ts ++ us) ts') :
    ∃ vs ws, ts' = vs ++ ws ∧ SameWords ts vs ∧ SameWords us ws := by
  unfold SameWords at h
  rw [List.map_append] at h
  obtain ⟨vs, ws, rfl, hvs, hws⟩ := List.map_eq_append_iff.1 h.symm
  exact ⟨vs, ws, rfl, hvs.symm, hws.symm⟩

theorem exists_singleton (h : SameWords [t] ts') : ∃ t', ts' = [t'] ∧ t.word = t'.word := by
  obtain ⟨t', us', rfl, ht, hus⟩ := h.exists_cons
  rw [hus.nil_left]
  exact ⟨t', rfl, ht⟩

/-- Tokens between a first and a last one. -/
theorem exists_between (h : SameWords (t :: (ts ++ [u])) ts') :
    ∃ t' vs u', ts' = t' :: (vs ++ [u']) ∧ t.word = t'.word ∧ SameWords ts vs ∧
      u.word = u'.word := by
  obtain ⟨t', us', rfl, ht, hus⟩ := h.exists_cons
  obtain ⟨vs, ws, rfl, hvs, hws⟩ := hus.exists_append
  obtain ⟨u', rfl, hu⟩ := hws.exists_singleton
  exact ⟨t', vs, u', rfl, ht, hvs, hu⟩

theorem nextKind (h : SameWords ts ts') (next : Option TokenKind) :
    Syntax.nextKind ts next = Syntax.nextKind ts' next := by
  cases ts with
  | nil => rw [h.nil_left]
  | cons t ts =>
      obtain ⟨t', us', rfl, ht, -⟩ := h.exists_cons
      exact congrArg (fun w => some (Word.kind w)) ht

end SameWords

namespace Syntax

variable {t t' : Token}

theorem kind_of_word (h : t.word = t'.word) {kind : TokenKind} (ht : t.kind = kind) :
    t'.kind = kind :=
  (congrArg Word.kind h).symm.trans ht

theorem Literal.ofToken?_of_word (h : t.word = t'.word) {value : Literal}
    (ht : Literal.ofToken? t = some value) : Literal.ofToken? t' = some value := by
  obtain ⟨kind, payload, place⟩ := t
  obtain ⟨kind', payload', place'⟩ := t'
  cases h
  exact ht

theorem Name.ofToken?_of_word (h : t.word = t'.word) {name : Name}
    (ht : Name.ofToken? t = some name) :
    ∃ name', Name.ofToken? t' = some name' ∧ name'.unplaced = name.unplaced := by
  obtain ⟨kind, payload, place⟩ := t
  obtain ⟨kind', payload', place'⟩ := t'
  cases h
  cases kind <;> cases payload <;> cases ht
  exact ⟨_, rfl, rfl⟩

/-! ### Expressions -/

namespace Expr

theorem isCallable_of_unplaced {e e' : Expr} (h : e'.unplaced = e.unplaced) :
    e'.isCallable = e.isCallable := by
  rw [← isCallable_unplaced, h, isCallable_unplaced]

theorem isCall_of_unplaced {e e' : Expr} (h : e'.unplaced = e.unplaced) :
    e'.isCall = e.isCall := by
  rw [← isCall_unplaced, h, isCall_unplaced]

theorem unplaced_binary {operator : BinaryOperator} {place : Position}
    {left right left' right' : Expr} (place' : Position)
    (hleft : left'.unplaced = left.unplaced) (hright : right'.unplaced = right.unplaced) :
    (binary operator place' left' right').unplaced =
      (binary operator place left right).unplaced := by
  rw [unplaced, unplaced, hleft, hright]

theorem unplaced_call {callee callee' : Expr} {arguments arguments' : List Expr}
    (hcallee : callee'.unplaced = callee.unplaced)
    (harguments : unplacedAll arguments' = unplacedAll arguments) :
    (call callee' arguments').unplaced = (call callee arguments).unplaced := by
  rw [unplaced, unplaced, hcallee, harguments]

end Expr

mutual

/-- Tokens with the same words spell an expression that differs in positions only. -/
theorem Expr.Spelled.respell {power : BindingPower} {next : Option TokenKind} {e : Expr}
    {ts ts' : List Token} (h : e.Spelled power next ts) (hts : SameWords ts ts') :
    ∃ e' : Expr, e'.unplaced = e.unplaced ∧ e'.Spelled power next ts' :=
  match h with
  | .intro hstart hrest => by
      obtain ⟨vs, ws, rfl, hvs, hws⟩ := hts.exists_append
      obtain ⟨start', hstart', hspelled⟩ := hstart.respell hvs
      obtain ⟨e', he', hgrown⟩ := hrest.respell hws hstart'
      rw [hws.nextKind] at hspelled
      exact ⟨e', he', .intro hspelled hgrown⟩

theorem Expr.StartSpelled.respell {next : Option TokenKind} {e : Expr} {ts ts' : List Token}
    (h : e.StartSpelled next ts) (hts : SameWords ts ts') :
    ∃ e' : Expr, e'.unplaced = e.unplaced ∧ e'.StartSpelled next ts' :=
  match h with
  | .literal hvalue => by
      obtain ⟨t', rfl, ht⟩ := hts.exists_singleton
      exact ⟨.literal _ t'.position, rfl, .literal (Literal.ofToken?_of_word ht hvalue)⟩
  | .name hname => by
      obtain ⟨t', rfl, ht⟩ := hts.exists_singleton
      obtain ⟨name', hname', heq⟩ := Name.ofToken?_of_word ht hname
      exact ⟨.name name', by simp [Expr.unplaced, heq], .name hname'⟩
  | .not hnot hoperand => by
      obtain ⟨t', us', rfl, ht, hus⟩ := hts.exists_cons
      obtain ⟨e', he', hspelled⟩ := hoperand.respell hus
      exact ⟨.not t'.position e', by simp [Expr.unplaced, he'],
        .not (kind_of_word ht hnot) hspelled⟩
  | .group hopen hinner hclose => by
      obtain ⟨t', vs, u', rfl, ht, hvs, hu⟩ := hts.exists_between
      obtain ⟨e', he', hspelled⟩ := hinner.respell hvs
      exact ⟨e', he', .group (kind_of_word ht hopen) hspelled (kind_of_word hu hclose)⟩

/-- Behind parts that differ in positions only, tokens with the same words make them grow to wholes
that do. -/
theorem Expr.RestSpelled.respell {left left' e : Expr} {power : BindingPower}
    {next : Option TokenKind} {ts ts' : List Token} (h : left.RestSpelled power next ts e)
    (hts : SameWords ts ts') (hleft : left'.unplaced = left.unplaced) :
    ∃ e' : Expr, e'.unplaced = e.unplaced ∧ left'.RestSpelled power next ts' e' :=
  match h with
  | .done hnext => by
      rw [hts.nil_left]
      exact ⟨left', hleft, .done hnext⟩
  | .binary hoperator hpower hright hrest => by
      obtain ⟨t', us', rfl, ht, hus⟩ := hts.exists_cons
      obtain ⟨vs, ws, rfl, hvs, hws⟩ := hus.exists_append
      obtain ⟨right', hright', hspelled⟩ := hright.respell hvs
      rw [kind_of_word ht.symm rfl] at hpower hspelled
      rw [hws.nextKind] at hspelled
      obtain ⟨e', he', hgrown⟩ :=
        hrest.respell hws (Expr.unplaced_binary t'.position hleft hright')
      exact ⟨e', he', .binary (kind_of_word ht hoperator) hpower hspelled hgrown⟩
  | .call hopen hpower hcallable hlist hclose hrest => by
      obtain ⟨t', us', rfl, ht, hus⟩ := hts.exists_cons
      obtain ⟨vs, ws, rfl, hvs, hws⟩ := hus.exists_append
      obtain ⟨u', ws', rfl, hu, hws'⟩ := hws.exists_cons
      obtain ⟨es', hes', hspelled⟩ := hlist.respell hvs
      obtain ⟨e', he', hgrown⟩ := hrest.respell hws' (Expr.unplaced_call hleft hes')
      exact ⟨e', he', .call (kind_of_word ht hopen) hpower
        ((Expr.isCallable_of_unplaced hleft).trans hcallable) hspelled (kind_of_word hu hclose)
        hgrown⟩

theorem Expr.ListSpelled.respell {next : Option TokenKind} {isFirst : Bool} {es : List Expr}
    {ts ts' : List Token} (h : Expr.ListSpelled next isFirst es ts) (hts : SameWords ts ts') :
    ∃ es' : List Expr, Expr.unplacedAll es' = Expr.unplacedAll es ∧
      Expr.ListSpelled next isFirst es' ts' :=
  match h with
  | .done => by
      rw [hts.nil_left]
      exact ⟨[], rfl, .done⟩
  | .first he hothers => by
      obtain ⟨vs, ws, rfl, hvs, hws⟩ := hts.exists_append
      obtain ⟨e', he', hspelled⟩ := he.respell hvs
      obtain ⟨es', hes', hlist⟩ := hothers.respell hws
      rw [hws.nextKind] at hspelled
      exact ⟨e' :: es', by simp [Expr.unplacedAll, he', hes'], .first hspelled hlist⟩
  | .more hcomma he hothers => by
      obtain ⟨t', us', rfl, ht, hus⟩ := hts.exists_cons
      obtain ⟨vs, ws, rfl, hvs, hws⟩ := hus.exists_append
      obtain ⟨e', he', hspelled⟩ := he.respell hvs
      obtain ⟨es', hes', hlist⟩ := hothers.respell hws
      rw [hws.nextKind] at hspelled
      exact ⟨e' :: es', by simp [Expr.unplacedAll, he', hes'],
        .more (kind_of_word ht hcomma) hspelled hlist⟩

end

/-! ### Statements -/

theorem Update.Spelled.respell {next : Option TokenKind} {u : Update} {ts ts' : List Token}
    (h : u.Spelled next ts) (hts : SameWords ts ts') :
    ∃ u' : Update, u'.unplaced = u.unplaced ∧ u'.Spelled next ts' := by
  cases h with
  | assign hkind hvalue =>
      obtain ⟨t', us', rfl, ht, hus⟩ := hts.exists_cons
      obtain ⟨e', he', hspelled⟩ := hvalue.respell hus
      exact ⟨.assign e', congrArg Update.assign he', .assign (kind_of_word ht hkind) hspelled⟩
  | add hkind hvalue =>
      obtain ⟨t', us', rfl, ht, hus⟩ := hts.exists_cons
      obtain ⟨e', he', hspelled⟩ := hvalue.respell hus
      exact ⟨.add e', congrArg Update.add he', .add (kind_of_word ht hkind) hspelled⟩
  | subtract hkind hvalue =>
      obtain ⟨t', us', rfl, ht, hus⟩ := hts.exists_cons
      obtain ⟨e', he', hspelled⟩ := hvalue.respell hus
      exact ⟨.subtract e', congrArg Update.subtract he',
        .subtract (kind_of_word ht hkind) hspelled⟩
  | increment hkind =>
      obtain ⟨t', rfl, ht⟩ := hts.exists_singleton
      exact ⟨.increment, rfl, .increment (kind_of_word ht hkind)⟩
  | decrement hkind =>
      obtain ⟨t', rfl, ht⟩ := hts.exists_singleton
      exact ⟨.decrement, rfl, .decrement (kind_of_word ht hkind)⟩

theorem Simple.Spelled.respell {next : Option TokenKind} {s : Simple} {ts ts' : List Token}
    (h : s.Spelled next ts) (hts : SameWords ts ts') :
    ∃ s' : Simple, s'.unplaced = s.unplaced ∧ s'.Spelled next ts' := by
  cases h with
  | call hopen hcall hspelled =>
      obtain ⟨e', he', hspelled'⟩ := hspelled.respell hts
      obtain ⟨t', us', rfl, ht, hus⟩ := hts.exists_cons
      obtain ⟨u', vs', rfl, hu, hvs⟩ := hus.exists_cons
      exact ⟨.call t'.position e', congrArg (Simple.call .start) he',
        .call (kind_of_word hu hopen) ((Expr.isCall_of_unplaced he').trans hcall) hspelled'⟩
  | change hname hupdate =>
      obtain ⟨t', us', rfl, ht, hus⟩ := hts.exists_cons
      obtain ⟨name', hname', heq⟩ := Name.ofToken?_of_word ht hname
      obtain ⟨u', hu', hspelled⟩ := hupdate.respell hus
      exact ⟨.change name' u', by rw [Simple.unplaced, Simple.unplaced, heq, hu'],
        .change hname' hspelled⟩

theorem Simple.MaybeSpelled.respell {next : Option TokenKind} {s? : Option Simple}
    {ts ts' : List Token} (h : MaybeSpelled next s? ts) (hts : SameWords ts ts') :
    ∃ s'? : Option Simple, s'?.map Simple.unplaced = s?.map Simple.unplaced ∧
      MaybeSpelled next s'? ts' := by
  cases h with
  | none =>
      rw [hts.nil_left]
      exact ⟨Option.none, rfl, .none⟩
  | some hspelled =>
      obtain ⟨s', hs', hspelled'⟩ := hspelled.respell hts
      exact ⟨Option.some s', congrArg Option.some hs', .some hspelled'⟩

theorem Stmt.isReturn_of_unplaced {s s' : Stmt} (h : s'.unplaced = s.unplaced) :
    s'.isReturn = s.isReturn := by
  rw [← isReturn_unplaced, h, isReturn_unplaced]

mutual

/-- Tokens with the same words spell a statement that differs in positions only. -/
theorem Stmt.Spelled.respell {next : Option TokenKind} {s : Stmt} {ts ts' : List Token}
    (h : s.Spelled next ts) (hts : SameWords ts ts') :
    ∃ s' : Stmt, s'.unplaced = s.unplaced ∧ s'.Spelled next ts' :=
  match h with
  | .declare hvar hname htype hend => by
      obtain ⟨t', us', rfl, ht, hus⟩ := hts.exists_cons
      obtain ⟨u', vs', rfl, hu, hvs⟩ := hus.exists_cons
      obtain ⟨v', ws', rfl, hv, hws⟩ := hvs.exists_cons
      obtain ⟨w', rfl, hw⟩ := hws.exists_singleton
      obtain ⟨name', hname', hnames⟩ := Name.ofToken?_of_word hu hname
      obtain ⟨type', htype', htypes⟩ := Name.ofToken?_of_word hv htype
      exact ⟨.declare t'.position name' type', by simp [Stmt.unplaced, hnames, htypes],
        .declare (kind_of_word ht hvar) hname' htype' (kind_of_word hw hend)⟩
  | .simple hfirst hspelled hend => by
      obtain ⟨vs, ws, rfl, hvs, hws⟩ := hts.exists_append
      obtain ⟨u', rfl, hu⟩ := hws.exists_singleton
      obtain ⟨s', hs', hspelled'⟩ := hspelled.respell hvs
      rw [hvs.nextKind] at hfirst
      exact ⟨.simple s', congrArg Stmt.simple hs',
        .simple hfirst hspelled' (kind_of_word hu hend)⟩
  | .branch hif hcondition hthen hnext => by
      obtain ⟨t', us', rfl, ht, hus⟩ := hts.exists_cons
      obtain ⟨vs, ws, rfl, hvs, hws⟩ := hus.exists_append
      obtain ⟨e', he', hspelled⟩ := hcondition.respell hvs
      obtain ⟨xs', hxs', hblock⟩ := hthen.respell hws
      exact ⟨.branch t'.position e' xs' none, by simp [Stmt.unplaced, he', hxs'],
        .branch (kind_of_word ht hif) hspelled hblock hnext⟩
  | .branchElse hif hcondition hthen helse hother => by
      obtain ⟨t', us', rfl, ht, hus⟩ := hts.exists_cons
      obtain ⟨vs, ws, rfl, hvs, hws⟩ := hus.exists_append
      obtain ⟨vs', ws', rfl, hvs', hws'⟩ := hws.exists_append
      obtain ⟨u', us', rfl, hu, hus'⟩ := hws'.exists_cons
      obtain ⟨e', he', hspelled⟩ := hcondition.respell hvs
      obtain ⟨xs', hxs', hblock⟩ := hthen.respell hvs'
      obtain ⟨ys', hys', hblock'⟩ := hother.respell hus'
      exact ⟨.branch t'.position e' xs' (some ys'), by simp [Stmt.unplaced, he', hxs', hys'],
        .branchElse (kind_of_word ht hif) hspelled hblock (kind_of_word hu helse) hblock'⟩
  | .whileLoop hwhile hcondition hbody => by
      obtain ⟨t', us', rfl, ht, hus⟩ := hts.exists_cons
      obtain ⟨vs, ws, rfl, hvs, hws⟩ := hus.exists_append
      obtain ⟨e', he', hspelled⟩ := hcondition.respell hvs
      obtain ⟨xs', hxs', hblock⟩ := hbody.respell hws
      exact ⟨.whileLoop t'.position e' xs', by simp [Stmt.unplaced, he', hxs'],
        .whileLoop (kind_of_word ht hwhile) hspelled hblock⟩
  | .forLoop hfor hinit hend hcondition hend' haction hbody => by
      obtain ⟨t', us', rfl, ht, hus⟩ := hts.exists_cons
      obtain ⟨as, bs, rfl, has, hbs⟩ := hus.exists_append
      obtain ⟨u', bs', rfl, hu, hbs'⟩ := hbs.exists_cons
      obtain ⟨cs, ds, rfl, hcs, hds⟩ := hbs'.exists_append
      obtain ⟨v', ds', rfl, hv, hds'⟩ := hds.exists_cons
      obtain ⟨fs, gs, rfl, hfs, hgs⟩ := hds'.exists_append
      obtain ⟨i', hi', hinit'⟩ := hinit.respell has
      obtain ⟨e', he', hspelled⟩ := hcondition.respell hcs
      obtain ⟨a', ha', haction'⟩ := haction.respell hfs
      obtain ⟨xs', hxs', hblock⟩ := hbody.respell hgs
      exact ⟨.forLoop t'.position i' e' a' xs', by simp [Stmt.unplaced, hi', he', ha', hxs'],
        .forLoop (kind_of_word ht hfor) hinit' (kind_of_word hu hend) hspelled
          (kind_of_word hv hend') haction' hblock⟩
  | .result hreturn hvalues hend => by
      obtain ⟨t', vs, u', rfl, ht, hvs, hu⟩ := hts.exists_between
      obtain ⟨es', hes', hspelled⟩ := hvalues.respell hvs
      exact ⟨.result t'.position es', by simp [Stmt.unplaced, hes'],
        .result (kind_of_word ht hreturn) hspelled (kind_of_word hu hend)⟩

theorem Stmt.BlockSpelled.respell {xs : List Stmt} {ts ts' : List Token}
    (h : Stmt.BlockSpelled xs ts) (hts : SameWords ts ts') :
    ∃ xs' : List Stmt, Stmt.unplacedAll xs' = Stmt.unplacedAll xs ∧ Stmt.BlockSpelled xs' ts' :=
  match h with
  | .intro hopen hlist hclose => by
      obtain ⟨t', vs, u', rfl, ht, hvs, hu⟩ := hts.exists_between
      obtain ⟨xs', hxs', hspelled⟩ := hlist.respell hvs
      exact ⟨xs', hxs', .intro (kind_of_word ht hopen) hspelled (kind_of_word hu hclose)⟩

theorem Stmt.ListSpelled.respell {xs : List Stmt} {ts ts' : List Token}
    (h : Stmt.ListSpelled xs ts) (hts : SameWords ts ts') :
    ∃ xs' : List Stmt, Stmt.unplacedAll xs' = Stmt.unplacedAll xs ∧ Stmt.ListSpelled xs' ts' :=
  match h with
  | .nil => by
      rw [hts.nil_left]
      exact ⟨[], rfl, .nil⟩
  | .cons hs hothers hlast => by
      obtain ⟨vs, ws, rfl, hvs, hws⟩ := hts.exists_append
      obtain ⟨s', hs', hspelled⟩ := hs.respell hvs
      obtain ⟨xs', hxs', hlist⟩ := hothers.respell hws
      rw [hws.nextKind] at hspelled
      refine ⟨s' :: xs', by simp [Stmt.unplacedAll, hs', hxs'], .cons hspelled hlist ?_⟩
      intro hreturn
      rw [hlast ((Stmt.isReturn_of_unplaced hs').symm.trans hreturn)] at hxs'
      cases xs' with
      | nil => rfl
      | cons x xs => cases hxs'

end

/-! ### Functions -/

/-- A list of items is spelled anew if each item is. -/
theorem ItemsSpelled.respell {α : Type} {item : α → List Token → Prop} {unplaced : α → α}
    {isFirst : Bool} {xs : List α} {ts ts' : List Token}
    (hitem : ∀ {x ts ts'}, item x ts → SameWords ts ts' →
      ∃ x', unplaced x' = unplaced x ∧ item x' ts')
    (h : ItemsSpelled item isFirst xs ts) (hts : SameWords ts ts') :
    ∃ xs', xs'.map unplaced = xs.map unplaced ∧ ItemsSpelled item isFirst xs' ts' := by
  induction h generalizing ts' with
  | done =>
      rw [hts.nil_left]
      exact ⟨[], rfl, .done⟩
  | first hx _ ih =>
      obtain ⟨vs, ws, rfl, hvs, hws⟩ := hts.exists_append
      obtain ⟨x', hx', hspelled⟩ := hitem hx hvs
      obtain ⟨xs', hxs', hothers⟩ := ih hws
      exact ⟨x' :: xs', by simp [hx', hxs'], .first hspelled hothers⟩
  | more hcomma hx _ ih =>
      obtain ⟨t', us', rfl, ht, hus⟩ := hts.exists_cons
      obtain ⟨vs, ws, rfl, hvs, hws⟩ := hus.exists_append
      obtain ⟨x', hx', hspelled⟩ := hitem hx hvs
      obtain ⟨xs', hxs', hothers⟩ := ih hws
      exact ⟨x' :: xs', by simp [hx', hxs'], .more (kind_of_word ht hcomma) hspelled hothers⟩

theorem Name.Spelled.respell {name : Name} {ts ts' : List Token} (h : name.Spelled ts)
    (hts : SameWords ts ts') :
    ∃ name' : Name, name'.unplaced = name.unplaced ∧ name'.Spelled ts' := by
  obtain ⟨t, hname, rfl⟩ := h
  obtain ⟨t', rfl, ht⟩ := hts.exists_singleton
  obtain ⟨name', hname', heq⟩ := Name.ofToken?_of_word ht hname
  exact ⟨name', heq, t', hname', rfl⟩

theorem Param.Spelled.respell {p : Param} {ts ts' : List Token} (h : p.Spelled ts)
    (hts : SameWords ts ts') :
    ∃ p' : Param, p'.unplaced = p.unplaced ∧ p'.Spelled ts' := by
  obtain ⟨t, u, hname, htype, rfl⟩ := h
  obtain ⟨t', us', rfl, ht, hus⟩ := hts.exists_cons
  obtain ⟨u', rfl, hu⟩ := hus.exists_singleton
  obtain ⟨name', hname', hnames⟩ := Name.ofToken?_of_word ht hname
  obtain ⟨type', htype', htypes⟩ := Name.ofToken?_of_word hu htype
  exact ⟨⟨name', type'⟩, by rw [Param.unplaced, Param.unplaced, hnames, htypes],
    t', u', hname', htype', rfl⟩

theorem ResultsSpelled.respell {types : List Name} {ts ts' : List Token}
    (h : ResultsSpelled types ts) (hts : SameWords ts ts') :
    ∃ types', types'.map Name.unplaced = types.map Name.unplaced ∧ ResultsSpelled types' ts' := by
  cases h with
  | none =>
      rw [hts.nil_left]
      exact ⟨[], rfl, .none⟩
  | one htype =>
      obtain ⟨t', rfl, ht⟩ := hts.exists_singleton
      obtain ⟨type', htype', heq⟩ := Name.ofToken?_of_word ht htype
      exact ⟨[type'], congrArg (fun type => [type]) heq, .one htype'⟩
  | group hopen hitems hclose =>
      obtain ⟨t', vs, u', rfl, ht, hvs, hu⟩ := hts.exists_between
      obtain ⟨types', htypes', hspelled⟩ := hitems.respell Name.Spelled.respell hvs
      exact ⟨types', htypes', .group (kind_of_word ht hopen) hspelled (kind_of_word hu hclose)⟩

/-- Tokens with the same words spell a function that differs in positions only. -/
theorem Func.Spelled.respell {f : Func} {ts ts' : List Token} (h : f.Spelled ts)
    (hts : SameWords ts ts') :
    ∃ f' : Func, f'.unplaced = f.unplaced ∧ f'.Spelled ts' := by
  obtain ⟨hfunc, hname, hopen, hparameters, hclose, hresults, hbody⟩ := h
  obtain ⟨t', us', rfl, ht, hus⟩ := hts.exists_cons
  obtain ⟨u', vs', rfl, hu, hvs⟩ := hus.exists_cons
  obtain ⟨v', ws', rfl, hv, hws⟩ := hvs.exists_cons
  obtain ⟨as, bs, rfl, has, hbs⟩ := hws.exists_append
  obtain ⟨w', cs, rfl, hw, hcs⟩ := hbs.exists_cons
  obtain ⟨ds, fs, rfl, hds, hfs⟩ := hcs.exists_append
  obtain ⟨name', hname', hnames⟩ := Name.ofToken?_of_word hu hname
  obtain ⟨ps', hps', hparameters'⟩ := hparameters.respell Param.Spelled.respell has
  obtain ⟨types', htypes', hresults'⟩ := hresults.respell hds
  obtain ⟨xs', hxs', hbody'⟩ := hbody.respell hfs
  exact ⟨⟨name', ps', types', xs'⟩, by simp [Func.unplaced, hnames, hps', htypes', hxs'],
    .intro (kind_of_word ht hfunc) hname' (kind_of_word hv hopen) hparameters'
      (kind_of_word hw hclose) hresults' hbody'⟩

/-- **Tokens with the same words spell the same trees**, up to positions. -/
theorem FileSpelled.respell {fs : List Func} {ts ts' : List Token} (h : FileSpelled fs ts)
    (hts : SameWords ts ts') :
    ∃ fs', fs'.map Func.unplaced = fs.map Func.unplaced ∧ FileSpelled fs' ts' := by
  induction h generalizing ts' with
  | nil =>
      rw [hts.nil_left]
      exact ⟨[], rfl, .nil⟩
  | cons hf _ ih =>
      obtain ⟨vs, ws, rfl, hvs, hws⟩ := hts.exists_append
      obtain ⟨f', hf', hspelled⟩ := hf.respell hvs
      obtain ⟨fs', hfs', hothers⟩ := ih hws
      exact ⟨f' :: fs', by simp [hf', hfs'], .cons hspelled hothers⟩

end Syntax

/-! ### Reading -/

open Syntax

variable {tokens tokens' : List Token} {p : Program} {d : Deferred}

/-- Trees that differ in positions only make the same nodes, up to positions. -/
theorem buildFile_of_unplaced {fs fs' : List Func} {d : Draft}
    (heq : fs'.map Func.unplaced = fs.map Func.unplaced)
    (hbuild : buildFile fs Draft.initial = .ok () d) :
    ∃ d', buildFile fs' Draft.initial = .ok () d' ∧ d'.unplaced = d.unplaced := by
  have hmirrors' := mirrors_buildFile fs'
  rw [heq] at hmirrors'
  exact (mirrors_buildFile fs).exists_ok hmirrors' hbuild

/-- **A file is read in the same way wherever its tokens stand.**  The same nodes are made in the
same order, with the same references pending. -/
theorem parseFile_of_sameWords (h : parseFile tokens = .ok (p, d))
    (hwords : SameWords tokens tokens') :
    ∃ p', parseFile tokens' = .ok (p', d) ∧ p'.unplaced = p.unplaced := by
  obtain ⟨fs, hspelled, hbuild⟩ := spelled_of_parseFile h
  obtain ⟨fs', hfs', hspelled'⟩ := hspelled.respell hwords
  obtain ⟨d', hbuild', hd'⟩ := buildFile_of_unplaced hfs' hbuild
  have hdeferred : d'.deferred = d := congrArg Draft.deferred hd'
  refine ⟨d'.program, ?_, congrArg Draft.program hd'⟩
  rw [← hdeferred]
  exact parseFile_of_spelled hspelled' hbuild'

end FrontEnd
