import Primer.Proofs.Token.Positions
import Primer.Proofs.Typing.Walk

/-!
# The errors of a part of the walk

What the checker reports while it walks over a part of a program, where that points to, and whether it
comes in the order of the positions.

- `Check.reports` lists the errors that a computation adds, and `Check.UpTo` says that none of them lies
  behind a position.
- `Check.Within` says which positions the errors point at.
- `Check.Own` is about a computation that reports errors at one position: it says when it does.
- `Check.Ordered` says when the errors come in order. `Check.Ordered.bind` puts two parts in a row that
  stand in the text in this order; `Check.Ordered.belated` is about any two computations.
-/

namespace Primer

theorem Position.Before.asymm {p q : Position} (h : p.Before q) : ¬ q.Before p := by
  unfold Position.Before at *
  omega

theorem Position.not_before_self (p : Position) : ¬ p.Before p :=
  fun h => h.asymm h

instance (p q : Position) : Decidable (p.Before q) :=
  inferInstanceAs (Decidable (_ ∨ _))

/-- The positions of the errors do not decrease. -/
def SourceOrder (es : List SemanticError) : Prop :=
  es.Pairwise fun e e' => ¬ e'.pos.Before e.pos

instance (es : List SemanticError) : Decidable (SourceOrder es) :=
  inferInstanceAs (Decidable (es.Pairwise _))

namespace Check

variable {α β : Type} {s s' : List Position} {pos : Position} {x : Check α} {f : α → Check β}
  {P : Checker → Prop} {Q : α → Checker → Prop} {R : Checker → Prop}

/-! ## Reports -/

/-- The errors that a computation adds. -/
def reports (x : Check α) (c : Checker) : List SemanticError :=
  (x.after c).errors.drop c.errors.length

/-- Nothing that the computation reports lies behind the position. -/
def UpTo (x : Check α) (c : Checker) (pos : Position) : Prop :=
  ∀ e ∈ x.reports c, ¬ pos.Before e.pos

/-- The computation reports nothing. -/
def Quiet (x : Check α) (c : Checker) : Prop :=
  x.reports c = []

/-- The second computation reports nothing in front of what the first one reports. -/
def InFront (x : Check α) (c : Checker) (y : Check β) (c' : Checker) : Prop :=
  ∀ e ∈ y.reports c', x.UpTo c e.pos

/-- The computation adds errors only, and they point at some of the sites. -/
def Within (s : List Position) (x : Check α) : Prop :=
  ∀ c : Checker, ∃ es, (x.after c).errors = c.errors ++ es ∧ ∀ e ∈ es, e.pos ∈ s

theorem reports_eq {c : Checker} {es : List SemanticError}
    (h : (x.after c).errors = c.errors ++ es) : x.reports c = es := by
  rw [reports, h, List.drop_left]

theorem Within.errors_eq (h : Within s x) (c : Checker) :
    (x.after c).errors = c.errors ++ x.reports c := by
  obtain ⟨es, hes, -⟩ := h c
  rw [reports_eq hes, hes]

theorem Within.pos_mem (h : Within s x) {c : Checker} : ∀ e ∈ x.reports c, e.pos ∈ s := by
  obtain ⟨es, hes, hmem⟩ := h c
  rwa [reports_eq hes]

theorem Within.mono (h : Within s x) (hs : s ⊆ s') : Within s' x := by
  intro c
  obtain ⟨es, hes, hmem⟩ := h c
  exact ⟨es, hes, fun e he => hs (hmem e he)⟩

theorem Within.bind (hx : Within s x) (hf : ∀ a, Within s (f a)) : Within s (x >>= f) := by
  intro c
  obtain ⟨es, hes, hmem⟩ := hx c
  obtain ⟨es', hes', hmem'⟩ := hf (x.run c).1 (x.after c)
  refine ⟨es ++ es', ?_, fun e he => (List.mem_append.mp he).elim (hmem e) (hmem' e)⟩
  rw [← List.append_assoc, ← hes]
  exact hes'

theorem reports_bind (hx : Within s x) (hf : ∀ a, Within s' (f a)) (c : Checker) :
    (x >>= f).reports c = x.reports c ++ (f (x.run c).1).reports (x.after c) := by
  refine reports_eq ?_
  rw [← List.append_assoc, ← hx.errors_eq]
  exact (hf _).errors_eq (x.after c)

/-- A computation that reports nothing. -/
theorem within_nil (h : ∀ c, (x.after c).errors = c.errors) : Within s x :=
  fun c => ⟨[], by rw [List.append_nil, h c], fun _ he => absurd he List.not_mem_nil⟩

theorem within_pure (a : α) : Within s (pure a) :=
  within_nil fun _ => rfl

theorem Within.reports_nil (h : Within [] x) (c : Checker) : x.reports c = [] :=
  List.eq_nil_iff_forall_not_mem.mpr fun e he => List.not_mem_nil (h.pos_mem e he)

theorem within_report (v : Violation) (pos : Position) : Within [pos] (report v pos) :=
  fun _ => ⟨[⟨v, pos⟩], rfl, fun e he => by
    obtain rfl := List.mem_singleton.mp he
    exact List.mem_singleton.mpr rfl⟩

theorem within_get {f : Checker → Check β} (h : ∀ c, Within s (f c)) : Within s (get >>= f) :=
  fun c => h c c

/-! ## Positions of reports -/

theorem upTo_of_before (hx : Within s x) (hs : ∀ p ∈ s, p.Before pos) (c : Checker) : x.UpTo c pos :=
  fun e he => (hs _ (hx.pos_mem e he)).asymm

/-- What lies behind a position altogether must be silent. -/
theorem upTo_iff_quiet (hx : Within s x) (hs : ∀ p ∈ s, pos.Before p) {c : Checker} :
    x.UpTo c pos ↔ x.Quiet c := by
  constructor
  · exact fun h => List.eq_nil_iff_forall_not_mem.mpr fun e he => h e he (hs _ (hx.pos_mem e he))
  · intro h e he
    rw [h] at he
    cases he

theorem inFront_bind_right {γ : Type} {y : Check γ} (hx : Within s x) (hf : ∀ a, Within s' (f a))
    {c c' : Checker} : InFront y c' (x >>= f) c ↔
      InFront y c' x c ∧ InFront y c' (f (x.run c).1) (x.after c) := by
  simp only [InFront, reports_bind hx hf, List.forall_mem_append]

theorem inFront_of_before {y : Check β} (hx : Within s x) (hy : Within s' y)
    (hs : ∀ p ∈ s, ∀ q ∈ s', p.Before q) (c c' : Checker) : InFront x c y c' :=
  fun e he => upTo_of_before hx (fun p hp => hs p hp _ (hy.pos_mem e he)) c

theorem inFront_nil {y : Check β} (hy : Within [] y) (c c' : Checker) : InFront x c y c' := by
  intro e he
  rw [hy.reports_nil] at he
  cases he

/-- The computation reports errors at the position only, and `R` says when it does. -/
structure Own (pos : Position) (x : Check α) (R : Checker → Prop) : Prop where
  within : Within [pos] x
  reports_iff : ∀ c, x.reports c ≠ [] ↔ R c

theorem Own.inFront (h : Own pos x R) {y : Check β} {c c' : Checker} :
    InFront y c' x c ↔ (R c → y.UpTo c' pos) := by
  have hpos : ∀ e ∈ x.reports c, e.pos = pos := fun e he => List.mem_singleton.mp (h.within.pos_mem e he)
  constructor
  · intro hfront hR
    obtain ⟨e, he⟩ := List.exists_mem_of_ne_nil _ ((h.reports_iff c).mpr hR)
    rw [← hpos e he]
    exact hfront e he
  · intro hup e he
    rw [hpos e he]
    exact hup ((h.reports_iff c).mp (List.ne_nil_of_mem he))

theorem Own.congr {R' : Checker → Prop} (h : Own pos x R) (hR : ∀ c, R c ↔ R' c) : Own pos x R' :=
  ⟨h.within, fun c => (h.reports_iff c).trans (hR c)⟩

theorem own_silent (h : Within [] x) : Own pos x fun _ => False :=
  ⟨h.mono (List.nil_subset _), fun c => iff_of_false (fun hc => hc (h.reports_nil c)) id⟩

theorem own_get {f : Checker → Check β} {R : Checker → Checker → Prop} (h : ∀ c, Own pos (f c) (R c)) :
    Own pos (get >>= f) fun c => R c c :=
  ⟨within_get fun c => (h c).within, fun c => (h c).reports_iff c⟩

theorem own_report (v : Violation) (pos : Position) : Own pos (report v pos) fun _ => True := by
  refine ⟨within_report v pos, fun c => iff_of_true ?_ trivial⟩
  have hreports : (report v pos).reports c = [⟨v, pos⟩] := reports_eq rfl
  rw [hreports]
  exact List.cons_ne_nil _ _

/-- Reporting is over. -/
theorem Own.finish (h : Own pos x R) (hf : ∀ a, Within [] (f a)) : Own pos (x >>= f) R := by
  refine ⟨h.within.bind fun a => (hf a).mono (List.nil_subset _), fun c => ?_⟩
  rw [reports_bind h.within hf, (hf _).reports_nil, List.append_nil]
  exact h.reports_iff c

theorem own_reportIf (condition : Bool) (v : Violation) (pos : Position) :
    Own pos (reportIf condition v pos) fun _ => condition = true := by
  cases condition with
  | true => exact (own_report v pos).congr fun _ => iff_of_true trivial rfl
  | false => exact (own_silent (within_pure ())).congr fun _ => iff_of_false id Bool.false_ne_true

/-! ## Order -/

/-- The errors point at some of the sites. If the sites are in order, then the errors are in order in
exactly those states where `P` holds. -/
structure Ordered (s : List Position) (x : Check α) (P : Checker → Prop) : Prop where
  within : Within s x
  order : s.Pairwise Position.Before → ∀ c, SourceOrder (x.reports c) ↔ P c

theorem Ordered.congr {P' : Checker → Prop} (h : Ordered s x P)
    (hP : s.Pairwise Position.Before → ∀ c, P c ↔ P' c) : Ordered s x P' :=
  ⟨h.within, fun hs c => (h.order hs c).trans (hP hs c)⟩

theorem Ordered.mono (h : Ordered s x P) (hs : s.Sublist s') : Ordered s' x P :=
  ⟨h.within.mono hs.subset, fun hs' => h.order (hs'.sublist hs)⟩

/-- Errors at one position are in order. -/
theorem ordered_of_within (h : Within [pos] x) : Ordered [pos] x fun _ => True := by
  refine ⟨h, fun _ c => iff_true_intro ?_⟩
  have hpos : ∀ e ∈ x.reports c, e.pos = pos := fun e he => List.mem_singleton.mp (h.pos_mem e he)
  refine List.pairwise_of_forall_mem_list fun e he e' he' => ?_
  rw [hpos e he, hpos e' he']
  exact pos.not_before_self

theorem Own.ordered (h : Own pos x R) : Ordered [pos] x fun _ => True :=
  ordered_of_within h.within

theorem ordered_nil (h : Within [] x) : Ordered s x fun _ => True := by
  refine ⟨h.mono (List.nil_subset s), fun _ c => iff_true_intro ?_⟩
  rw [h.reports_nil]
  exact .nil

theorem ordered_pure (a : α) : Ordered s (pure a) fun _ => True :=
  ordered_nil (within_pure a)

/-- What the second computation reports must not stand in front of what the first one does. -/
theorem Ordered.belated (hx : Ordered s x P) (hf : ∀ a, Ordered s (f a) (Q a)) :
    Ordered s (x >>= f) fun c =>
      P c ∧ Q (x.run c).1 (x.after c) ∧ InFront x c (f (x.run c).1) (x.after c) := by
  refine ⟨hx.within.bind fun a => (hf a).within, fun hs c => ?_⟩
  rw [reports_bind hx.within (fun a => (hf a).within), SourceOrder, List.pairwise_append]
  refine and_congr (hx.order hs c) (and_congr ((hf _).order hs _) ?_)
  exact ⟨fun h e' he' e he => h e he e' he', fun h e he e' he' => h e' he' e he⟩

/-- The second computation adds no disorder of its own. -/
theorem Ordered.late (hx : Ordered s x P) (hf : ∀ a, Ordered s (f a) fun _ => True) :
    Ordered s (x >>= f) fun c => P c ∧ InFront x c (f (x.run c).1) (x.after c) :=
  (hx.belated hf).congr fun _ _ => and_congr_right fun _ => and_iff_right trivial

/-- Two parts in a row. Errors of the first never stand behind errors of the second. -/
theorem Ordered.bind (hx : Ordered s x P) (hf : ∀ a, Ordered s' (f a) (Q a)) :
    Ordered (s ++ s') (x >>= f) fun c => P c ∧ Q (x.run c).1 (x.after c) := by
  have hwhole := (hx.mono (List.sublist_append_left s s')).belated fun a =>
    (hf a).mono (List.sublist_append_right s s')
  -- every site of the first part stands in front of every site of the second
  refine hwhole.congr fun hs c => and_congr_right fun _ => and_iff_left ?_
  exact inFront_of_before hx.within (hf _).within (List.pairwise_append.mp hs).2.2 _ _

/-- A part that follows errors at the first of its sites. -/
theorem Within.followed (hx : Within [pos] x) (hf : ∀ a, Ordered (pos :: s) (f a) (Q a)) :
    Ordered (pos :: s) (x >>= f) fun c => Q (x.run c).1 (x.after c) := by
  have hfirst := (ordered_of_within hx).mono (List.singleton_sublist.mpr (List.mem_cons_self (l := s)))
  refine (hfirst.belated hf).congr fun hs c => (and_iff_right trivial).trans (and_iff_left ?_)
  intro e' he' e he
  rw [List.mem_singleton.mp (hx.pos_mem e he)]
  rcases List.mem_cons.mp ((hf _).within.pos_mem e' he') with hpos | hpos
  · rw [hpos]
    exact pos.not_before_self
  · exact ((List.pairwise_cons.mp hs).1 _ hpos).asymm

/-- Reporting is over. -/
theorem Ordered.finish (h : Ordered s x P) (hf : ∀ a, Within [] (f a)) : Ordered s (x >>= f) P := by
  have hwhole := h.bind fun a => ordered_nil (s := []) (hf a)
  rw [List.append_nil] at hwhole
  exact hwhole.congr fun _ _ => and_iff_left trivial

/-- Reporting starts later. -/
theorem Ordered.start (hx : Within [] x) (hf : ∀ a, Ordered s (f a) (Q a)) :
    Ordered s (x >>= f) fun c => Q (x.run c).1 (x.after c) :=
  ((ordered_nil (s := []) hx).bind hf).congr fun _ _ => and_iff_right trivial

/-- An error at one position comes after a part of the walk. -/
theorem Ordered.own {R : α → Checker → Prop} (hx : Ordered s x P) (hpos : pos ∈ s)
    (hf : ∀ a, Own pos (f a) (R a)) :
    Ordered s (x >>= f) fun c => P c ∧ (R (x.run c).1 (x.after c) → x.UpTo c pos) := by
  have hwhole := hx.late fun a => (hf a).ordered.mono (List.singleton_sublist.mpr hpos)
  exact hwhole.congr fun _ c => and_congr_right fun _ => (hf _).inFront

theorem ordered_get {f : Checker → Check β} {P : Checker → Checker → Prop}
    (h : ∀ c, Ordered s (f c) (P c)) : Ordered s (get >>= f) fun c => P c c :=
  ⟨within_get fun c => (h c).within, fun hs c => (h c).order hs c⟩

theorem Ordered.inScope (h : Ordered s x P) : Ordered s (inScope x) fun c => P c.pushScope :=
  ⟨fun c => h.within c.pushScope, fun hs c => h.order hs c.pushScope⟩

/-- The state inside of a loop or switch. -/
def inLoop (c : Checker) : Checker :=
  { c with breakable := c.breakable + 1 }

theorem Ordered.insideLoop (h : Ordered s x P) : Ordered s (insideLoop x) fun c => P (inLoop c) :=
  ⟨fun c => h.within (inLoop c), fun hs c => h.order hs (inLoop c)⟩

end Check

end Primer
