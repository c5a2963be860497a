import Primer.Proofs.Machine.Fuel
import Primer.Proofs.Machine.Steady
import Primer.Proofs.Soundness.Point

/-!
# From a part to the whole run

What a run does with a part of a program that it has entered shows in what the whole run comes to. An
error of the part is the error of the run, what the part recorded stays recorded, and if the part never
comes to an end, neither does the run.

- `Outcome.Carries` is that relation between two outcomes.
- `Point.Enters.carries`: one step outwards.
- `Program.Reaches.carries`: from a point that is reached to the run; `Program.Reaches.fails` is the
  case of an error.

Parts are run with different amounts of fuel. A computation that came to something comes to the same
with all larger amounts, so what counts is what holds with enough of it (`Context.Eventually`).
-/

namespace Primer

variable {α β γ : Type}

/-- A part comes to `o`, and the piece around it to `o'`. -/
def Outcome.Carries (o : Outcome α) (o' : Outcome β) : Prop :=
  match o with
  | .value _ m => o'.GoesOn m.transcript
  | .error e m => ∃ m', o' = .error e m' ∧ m'.transcript = m.transcript
  | .pending => o' = .pending

namespace Outcome

variable {o : Outcome α} {o' : Outcome β} {o'' : Outcome γ}

/-- What was recorded before the part came to an end stays recorded. -/
theorem Carries.goesOn {t : Transcript} (h : o.Carries o') (ho : o.GoesOn t) : o'.GoesOn t := by
  cases o with
  | value a m => exact GoesOn.of_before ho h
  | error e m =>
    obtain ⟨m', rfl, hm⟩ := h
    show t.Before m'.transcript
    rw [hm]
    exact ho
  | pending =>
    rw [show o' = .pending from h]
    trivial

theorem Carries.of_eq {o₁ o₂ : Outcome α} (h : o₂ = o₁) : o₁.Carries o₂ := by
  subst h
  cases o₂ with
  | value a m => exact Transcript.Before.refl m.transcript
  | error e m => exact ⟨m, rfl, rfl⟩
  | pending => rfl

theorem Carries.trans (h : o.Carries o') (h' : o'.Carries o'') : o.Carries o'' := by
  cases o with
  | value a m => exact h'.goesOn h
  | error e m =>
    obtain ⟨m₁, rfl, hm₁⟩ := h
    obtain ⟨m₂, rfl, hm₂⟩ := h'
    exact ⟨m₂, rfl, hm₂.trans hm₁⟩
  | pending =>
    rw [show o' = .pending from h] at h'
    exact h'

end Outcome

namespace Run

variable {m : Machine} {x : Run α}

theorem bind_carries {f : α → Run β} (hf : ∀ a, Steady (f a)) : (x m).Carries ((x >>= f) m) := by
  rw [bind_apply]
  cases x m with
  | value a m₁ => exact (hf a).goesOn m₁
  | error e m₁ => exact ⟨m₁, rfl, rfl⟩
  | pending => rfl

theorem closing_carries (close : Environment → Environment) (x : Run α) (m : Machine) :
    (x m).Carries (closing close x m) := by
  unfold closing
  cases x m with
  | value a m₁ => exact Transcript.Before.refl m₁.transcript
  | error e m₁ => exact ⟨_, rfl, rfl⟩
  | pending => rfl

theorem discard_carries (x : Run α) (m : Machine) :
    (x m).Carries ((Functor.discard x : Run Unit) m) :=
  bind_carries fun _ => (Immediate.value _).steady

/-- Leaving out the value changes nothing else. -/
theorem carries_of_discard {o : Outcome Unit} (h : (Functor.discard x : Run Unit) m = o) :
    o.Carries (x m) := by
  subst h
  show Outcome.Carries ((x >>= fun _ => pure ()) m) (x m)
  rw [bind_apply]
  cases x m with
  | value a m₁ => exact Transcript.Before.refl m₁.transcript
  | error e m₁ => exact ⟨m₁, rfl, rfl⟩
  | pending => rfl

end Run

/-! ## Enough fuel -/

/-- A computation that comes to more if calls and loops do. -/
def Run.Mono (x : Call → Nat → Run α) : Prop :=
  ∀ {call call' : Call} {fuel fuel' : Nat}, call.Le call' → fuel ≤ fuel' →
    Run.Le (x call fuel) (x call' fuel')

/-- With enough fuel, what the computation comes to satisfies `P`. -/
def Context.Eventually (ctx : Context) (x : Call → Nat → Run α) (m : Machine) (P : Outcome α → Prop) :
    Prop :=
  ∃ n, ∀ fuel, n ≤ fuel → P (x (ctx.calls fuel) fuel m)

namespace Context

variable {ctx : Context} {x : Call → Nat → Run α} {y : Call → Nat → Run β} {z : Call → Nat → Run γ}
  {m m' : Machine} {a : α}

/-- Something that was come to is come to with all larger amounts of fuel. -/
theorem eventually_of_ne_pending (hx : Run.Mono x) {fuel : Nat} {o : Outcome α}
    (h : x (ctx.calls fuel) fuel m = o) (ho : o ≠ .pending) : ctx.Eventually x m (· = o) := by
  refine ⟨fuel, fun fuel' hfuel => ?_⟩
  subst h
  exact (hx (ctx.calls_mono hfuel) hfuel m).eq ho

theorem Gives.eventually (h : ctx.Gives x m a m') (hx : Run.Mono x) :
    ctx.Eventually x m (· = .value a m') := by
  obtain ⟨n, hn⟩ := h
  exact eventually_of_ne_pending hx hn nofun

/-- Every computation comes to something, or is pending for ever. -/
theorem exists_eventually_eq (hx : Run.Mono x) (m : Machine) : ∃ o, ctx.Eventually x m (· = o) := by
  by_cases h : ∃ fuel, x (ctx.calls fuel) fuel m ≠ .pending
  · obtain ⟨fuel, hfuel⟩ := h
    exact ⟨_, eventually_of_ne_pending hx rfl hfuel⟩
  · exact ⟨.pending, 0, fun fuel _ => not_not.mp (not_exists.mp h fuel)⟩

/-- The part in the piece around it. One unit of fuel may be taken for granted. -/
theorem Eventually.carried {o : Outcome γ} (h : ctx.Eventually x m o.Carries)
    (hxy : ∀ fuel, (x (ctx.calls (fuel + 1)) (fuel + 1) m).Carries
      (y (ctx.calls (fuel + 1)) (fuel + 1) m')) : ctx.Eventually y m' o.Carries := by
  obtain ⟨n, hn⟩ := h
  refine ⟨n + 1, fun fuel hfuel => ?_⟩
  obtain ⟨k, rfl⟩ : ∃ k, fuel = k + 1 := ⟨fuel - 1, by omega⟩
  exact (hn _ (by omega)).trans (hxy k)

/-- The same for a part that comes after another one. -/
theorem Gives.carried {δ : Type} {o : Outcome δ} (hfirst : ctx.Gives x m a m') (hx : Run.Mono x)
    (h : ctx.Eventually y m' o.Carries)
    (hyz : ∀ fuel, x (ctx.calls (fuel + 1)) (fuel + 1) m = .value a m' →
      (y (ctx.calls (fuel + 1)) (fuel + 1) m').Carries (z (ctx.calls (fuel + 1)) (fuel + 1) m)) :
    ctx.Eventually z m o.Carries := by
  obtain ⟨n₁, h₁⟩ := hfirst.eventually hx
  obtain ⟨n₂, h₂⟩ := h
  refine ⟨n₁ + n₂ + 1, fun fuel hfuel => ?_⟩
  obtain ⟨k, rfl⟩ : ∃ k, fuel = k + 1 := ⟨fuel - 1, by omega⟩
  exact (h₂ _ (by omega)).trans (hyz k (h₁ _ (by omega)))

theorem Eventually.refl {o : Outcome α} (h : ctx.Eventually x m (· = o)) :
    ctx.Eventually x m o.Carries := by
  obtain ⟨n, hn⟩ := h
  exact ⟨n, fun fuel hfuel => .of_eq (hn fuel hfuel)⟩

theorem Eventually.of_discard {o : Outcome Unit}
    (h : ctx.Eventually (fun call fuel => Functor.discard (x call fuel)) m (· = o)) :
    ctx.Eventually x m o.Carries := by
  obtain ⟨n, hn⟩ := h
  exact ⟨n, fun fuel hfuel => Run.carries_of_discard (hn fuel hfuel)⟩

theorem Eventually.discard {o : Outcome β} (h : ctx.Eventually x m o.Carries) :
    ctx.Eventually (fun call fuel => (Functor.discard (x call fuel) : Run Unit)) m o.Carries :=
  h.carried fun _ => Run.discard_carries _ m

/-- The first of two computations in a row. -/
theorem Eventually.bind {f : Call → Nat → α → Run β} {o : Outcome γ}
    (h : ctx.Eventually x m o.Carries)
    (hf : ∀ fuel a, (f (ctx.calls fuel) fuel a).Steady) :
    ctx.Eventually (fun call fuel => x call fuel >>= f call fuel) m o.Carries :=
  h.carried fun fuel => Run.bind_carries (hf (fuel + 1))

theorem Eventually.inScope {o : Outcome γ} (h : ctx.Eventually x m.pushScope o.Carries) :
    ctx.Eventually (fun call fuel => Run.inScope (x call fuel)) m o.Carries :=
  h.carried fun _ => Run.closing_carries .popScope _ m.pushScope

end Context

/-! ## Pieces -/

theorem Task.run_mono {call call' : Call} {fuel fuel' : Nat} (h : call.Le call') (hf : fuel ≤ fuel') :
    ∀ task : Task, Run.Le (task.run call fuel) (task.run call' fuel')
  | .expr e => Run.bind_mono (Run.eval_mono h e) fun _ => .refl _
  | .exprs es => Run.bind_mono (Run.evalAll_mono h es) fun _ => .refl _
  | .declare d => Run.declare_mono h d
  | .stmt s => Run.bind_mono (Run.exec_mono h hf s) fun _ => .refl _
  | .stmts body => Run.bind_mono (Run.execAll_mono h hf body) fun _ => .refl _
  | .loop cond step body =>
    Run.bind_mono (Run.loop_mono (Run.guard_mono h cond) (Run.exec_mono h hf body)
      (Run.effect_mono h step) hf) fun _ => .refl _
  | .groups start gs => Run.bind_mono (Run.execFrom_mono h hf start gs) fun _ => .refl _

theorem Task.run_steady {call : Call} (h : ∀ name args pos, (call name args pos).Steady) (fuel : Nat) :
    ∀ t : Task, (t.run call fuel).Steady
  | .expr e => (Run.eval_steady h e).bind fun _ => (Run.Immediate.value _).steady
  | .exprs es => (Run.evalAll_steady h es).bind fun _ => (Run.Immediate.value _).steady
  | .declare d => Run.declare_steady h d
  | .stmt s => (Run.exec_steady h fuel s).bind fun _ => (Run.Immediate.value _).steady
  | .stmts body => (Run.execAll_steady h fuel body).bind fun _ => (Run.Immediate.value _).steady
  | .loop cond step body =>
    (Run.loop_steady (Run.guard_steady h cond) (Run.exec_steady h fuel body)
      (Run.effect_steady h step) fuel).bind fun _ => (Run.Immediate.value _).steady
  | .groups start gs =>
    (Run.execFrom_steady h fuel start gs).bind fun _ => (Run.Immediate.value _).steady

/-- What a run does at the point comes to `o`, with enough fuel. -/
def Point.ComesTo (ctx : Context) (o : Outcome Unit) (x : Point) : Prop :=
  ctx.Eventually (fun call fuel => x.task.run call fuel) x.machine (· = o)

theorem Point.exists_comesTo (ctx : Context) (x : Point) : ∃ o, x.ComesTo ctx o :=
  Context.exists_eventually_eq (fun h hf => Task.run_mono h hf x.task) x.machine

/-! ## Expressions -/

namespace Run

variable {call : Call} (h : ∀ name args pos, Steady (call name args pos)) {m m' : Machine}

theorem truth_of_integer {a : Value} {n : Int64} (h : a.integer? = some n) (pos : Position)
    (m : Machine) : truth a pos m = .value (n != 0) m := by
  rw [truth, h]
  rfl

include h

/-- The second operand of `&&` and `||`, as a truth value. -/
theorem second_steady (e : Expr) : Steady (eval call e >>= fun b => truth b e.pos >>= fun t =>
    (pure (.ofBool t) : Run Value)) :=
  (eval_steady h e).bind fun b => (truth_plain b e.pos).immediate.steady.bind fun _ => (Immediate.value _).steady

theorem left_carries (op : BinaryOp) (e e' : Expr) (pos : Position) (m : Machine) :
    (eval call e m).Carries (eval call (.binary op e e' pos) m) := by
  cases op with
  | and =>
    refine bind_carries fun a => (truth_plain a e.pos).immediate.steady.bind fun t => ?_
    cases t with
    | true => exact second_steady h e'
    | false => exact (Immediate.value _).steady
  | or =>
    refine bind_carries fun a => (truth_plain a e.pos).immediate.steady.bind fun t => ?_
    cases t with
    | true => exact (Immediate.value _).steady
    | false => exact second_steady h e'
  | _ =>
    refine bind_carries fun a => (eval_steady h e').bind fun b => ?_
    exact (binary_plain _ a b pos).immediate.steady

omit h in
theorem right_carries {op : BinaryOp} {e e' : Expr} {pos : Position} {a : Value}
    (hfirst : eval call e m = .value a m') (cont : op.Continues a) :
    (eval call e' m').Carries (eval call (.binary op e e' pos) m) := by
  -- the first operand does not decide, so the rest is the second one and what is made of its value
  have hsecond : (eval call e' m').Carries ((eval call e' >>= fun b => truth b e'.pos >>= fun t =>
      (pure (.ofBool t) : Run Value)) m') :=
    bind_carries fun b => (truth_plain b e'.pos).immediate.steady.bind fun _ => (Immediate.value _).steady
  cases op with
  | and =>
    obtain ⟨n, hn, hne⟩ := cont.1 rfl
    have htruth : truth a e.pos m' = .value true m' := by
      rw [truth_of_integer hn]
      simp [hne]
    rw [show eval call (.binary .and e e' pos) m = _ from
      (bind_value hfirst).trans (bind_value htruth)]
    exact hsecond
  | or =>
    have htruth : truth a e.pos m' = .value false m' := truth_of_integer (cont.2 rfl) e.pos m'
    rw [show eval call (.binary .or e e' pos) m = _ from
      (bind_value hfirst).trans (bind_value htruth)]
    exact hsecond
  | _ =>
    rw [show eval call (.binary _ e e' pos) m = _ from bind_value hfirst]
    exact bind_carries fun b => (binary_plain _ a b pos).immediate.steady

end Run

namespace Point

open Context

variable {p : Program} {ctx : Context} {c : Checker} {r : Bool} {m : Machine} {y : Point}
  {o : Outcome Unit}

/-- The body of a function that is entered, in the call. -/
theorem body_carries {f : FunctionDef} {vs : List Value} {pos : Position} {m₁ m₂ : Machine}
    (entered : ctx.enter f vs pos m₁ = .value () m₂)
    (hy : ctx.Eventually (fun call fuel => Functor.discard (Run.execAll call fuel f.body)) m₂ (· = o)) :
    ∃ n, ∀ fuel, n ≤ fuel → o.Carries (ctx.call fuel f vs pos m₁) := by
  obtain ⟨n, hn⟩ := hy
  refine ⟨n + 1, fun fuel hfuel => ?_⟩
  obtain ⟨k, rfl⟩ : ∃ k, fuel = k + 1 := ⟨fuel - 1, by omega⟩
  -- the calls of the body have one unit of fuel less than the call, but its loops do not
  have hbody : (Functor.discard (Run.execAll (ctx.calls k) (k + 1) f.body) : Run Unit) m₂ = o := by
    have hlower := Task.run_mono (ctx.calls_mono (Nat.le_refl k)) (Nat.le_succ k) (.stmts f.body)
    have hupper := Task.run_mono (ctx.calls_mono (Nat.le_succ k)) (Nat.le_refl (k + 1)) (.stmts f.body)
    exact (hlower m₂).squeeze (hupper m₂) (hn k (by omega)) (hn (k + 1) (by omega))
  rw [call_succ, Run.bind_value entered]
  refine (Run.carries_of_discard hbody).trans ((Run.closing_carries .popFrame _ m₂).trans ?_)
  exact Run.bind_carries fun flow => (Run.result_immediate f flow pos).steady

theorem Enters.expr_carries {e : Expr} (hs : Enters p ctx ⟨c, r, .expr e, m⟩ y)
    (hy : y.ComesTo ctx o) : ctx.Eventually (fun call _ => Run.eval call e) m o.Carries := by
  cases hs with
  | @assigned _ _ name value pos =>
    exact (Eventually.of_discard hy).bind fun _ v => Run.steady_congruence.assign name v pos
  | @operand _ _ op e pos =>
    exact (Eventually.of_discard hy).bind fun _ v => (Run.unary_plain op v pos).immediate.steady
  | @left _ _ op e e' pos =>
    exact (Eventually.of_discard hy).carried fun fuel =>
      Run.left_carries (ctx.calls_steady (fuel + 1)) op e e' pos m
  | right first cont =>
    exact first.carried (fun h _ => Run.eval_mono h _) (Eventually.of_discard hy) fun _ hfirst =>
      Run.right_carries hfirst cont
  | @args _ _ name es pos =>
    exact (Eventually.of_discard hy).bind fun fuel vs => ctx.calls_steady fuel name vs pos
  | @call _ _ name es pos _ m₁ m₂ vs f _ _ evaluated notPrint meant entered item =>
    -- each part has its own bound on the fuel; the sum is enough for both
    obtain ⟨n₁, hargs⟩ := evaluated.eventually fun h _ => Run.evalAll_mono h es
    obtain ⟨n₂, hcall⟩ := body_carries entered hy
    refine ⟨n₁ + n₂, fun fuel hfuel => ?_⟩
    have heval : Run.eval (ctx.calls fuel) (.call name es pos) m = ctx.call fuel f vs pos m₁ := by
      rw [show Run.eval (ctx.calls fuel) (.call name es pos) m = _ from
        Run.bind_value (hargs fuel (by omega)), calls, dispatch, if_neg notPrint, meant]
    show o.Carries (Run.eval (ctx.calls fuel) (.call name es pos) m)
    rw [heval]
    exact hcall fuel (by omega)

theorem Enters.exprs_carries {es : List Expr} (hs : Enters p ctx ⟨c, r, .exprs es, m⟩ y)
    (hy : y.ComesTo ctx o) : ctx.Eventually (fun call _ => Run.evalAll call es) m o.Carries := by
  cases hs with
  | @first _ _ e es =>
    exact (Eventually.of_discard hy).bind fun fuel v =>
      (Run.evalAll_steady (ctx.calls_steady fuel) es).bind fun _ => (Run.Immediate.value _).steady
  | @others _ _ e es _ m' v evaluated =>
    refine evaluated.carried (fun h _ => Run.eval_mono h e) (Eventually.of_discard hy) fun fuel hfirst => ?_
    rw [show Run.evalAll (ctx.calls (fuel + 1)) (e :: es) m = _ from Run.bind_value hfirst]
    exact Run.bind_carries fun _ => (Run.Immediate.value _).steady

theorem Enters.declare_carries {d : VarDecl} (hs : Enters p ctx ⟨c, r, .declare d, m⟩ y)
    (hy : y.ComesTo ctx o) : ctx.Eventually (fun call _ => Run.declare call d) m o.Carries := by
  cases hs with
  | @initial _ _ _ e _ init =>
    refine (Eventually.of_discard hy).carried fun fuel => ?_
    rw [Run.declare, init]
    exact Run.bind_carries fun v => (Run.coerce_plain v d.type e.pos).immediate.steady.bind fun stored =>
      Run.steady_congruence.define d.name d.type stored

/-! ## Statements -/

section Loops

variable {guard : Run Bool} {body : Run Flow} {step : Run Unit} {m₁ m₂ m₃ : Machine}

/-- What is left of a round after its body. -/
theorem loop_rest_steady (hguard : guard.Steady) (hbody : body.Steady) (hstep : step.Steady)
    (rounds : Nat) (flow : Flow) : Run.Steady (match flow with
      | .normal => do
        step
        Run.loop guard body step rounds
      | .brk => return .normal
      | .ret v => return .ret v : Run Flow) := by
  cases flow with
  | normal => exact hstep.bind fun _ => Run.loop_steady hguard hbody hstep rounds
  | brk => exact (Run.Immediate.value _).steady
  | ret v => exact (Run.Immediate.value _).steady

theorem guard_carries (hguard : guard.Steady) (hbody : body.Steady) (hstep : step.Steady)
    (rounds : Nat) (m : Machine) : (guard m).Carries (Run.loop guard body step (rounds + 1) m) := by
  rw [Run.loop]
  refine Run.bind_carries fun b => ?_
  cases b with
  | true => exact hbody.bind fun flow => loop_rest_steady hguard hbody hstep rounds flow
  | false => exact (Run.Immediate.value _).steady

theorem round_carries (hguard : guard.Steady) (hbody : body.Steady) (hstep : step.Steady)
    (rounds : Nat) (holds : guard m = .value true m₁) :
    (body m₁).Carries (Run.loop guard body step (rounds + 1) m) := by
  rw [Run.loop, Run.bind_value holds]
  exact Run.bind_carries fun flow => loop_rest_steady hguard hbody hstep rounds flow

theorem step_carries (hguard : guard.Steady) (hbody : body.Steady) (hstep : step.Steady)
    (rounds : Nat) (holds : guard m = .value true m₁) (executed : body m₁ = .value .normal m₂) :
    (step m₂).Carries (Run.loop guard body step (rounds + 1) m) := by
  rw [Run.loop, Run.bind_value holds]
  refine Eq.subst (motive := Outcome.Carries (step m₂)) (Run.bind_value executed).symm ?_
  exact Run.bind_carries fun _ => Run.loop_steady hguard hbody hstep rounds

theorem loop_again (rounds : Nat) (holds : guard m = .value true m₁)
    (executed : body m₁ = .value .normal m₂) (stepped : step m₂ = .value () m₃) :
    Run.loop guard body step (rounds + 1) m = Run.loop guard body step rounds m₃ := by
  rw [Run.loop, Run.bind_value holds]
  exact (Run.bind_value executed).trans (Run.bind_value stepped)

end Loops

theorem Enters.loop_carries {cond step : Option Expr} {body : Stmt}
    (hs : Enters p ctx ⟨c, r, .loop cond step body, m⟩ y) (hy : y.ComesTo ctx o) :
    ctx.Eventually (fun call fuel => Run.loop (Run.guard call cond) (Run.exec call fuel body)
      (Run.effect call step) fuel) m o.Carries := by
  have hguard : ∀ fuel, (Run.guard (ctx.calls fuel) cond).Steady :=
    fun fuel => Run.guard_steady (ctx.calls_steady fuel) cond
  have hbody : ∀ fuel, (Run.exec (ctx.calls fuel) fuel body).Steady :=
    fun fuel => Run.exec_steady (ctx.calls_steady fuel) fuel body
  have hstep : ∀ fuel, (Run.effect (ctx.calls fuel) step).Steady :=
    fun fuel => Run.effect_steady (ctx.calls_steady fuel) step
  cases hs with
  | @guard _ _ e =>
    have hcond : ctx.Eventually (fun call _ => Run.condition call e) m o.Carries :=
      (Eventually.of_discard hy).bind fun _ v => (Run.truth_plain v e.pos).immediate.steady
    exact hcond.carried fun fuel => guard_carries (hguard _) (hbody _) (hstep _) fuel m
  | round holds =>
    exact holds.carried (fun h _ => Run.guard_mono h cond) (Eventually.of_discard hy) fun fuel hholds =>
      round_carries (hguard _) (hbody _) (hstep _) fuel hholds
  | @step _ _ _ e _ _ m₁ m₂ holds executed =>
    have heffect : ctx.Eventually (fun call _ => Run.effect call (some e)) m₂ o.Carries :=
      (Eventually.of_discard hy).bind fun _ _ => (Run.Immediate.value _).steady
    obtain ⟨n₁, h₁⟩ := holds.eventually fun h _ => Run.guard_mono h cond
    obtain ⟨n₂, h₂⟩ := executed.eventually fun h hf => Run.exec_mono h hf body
    obtain ⟨n₃, h₃⟩ := heffect
    refine ⟨n₁ + n₂ + n₃ + 1, fun fuel hfuel => ?_⟩
    obtain ⟨k, rfl⟩ : ∃ k, fuel = k + 1 := ⟨fuel - 1, by omega⟩
    exact (h₃ _ (by omega)).trans (step_carries (hguard _) (hbody _) (hstep _) k (h₁ _ (by omega))
      (h₂ _ (by omega)))
  | @again _ _ _ _ _ _ m₁ m₂ m₃ holds executed stepped =>
    obtain ⟨n₁, h₁⟩ := holds.eventually fun h _ => Run.guard_mono h cond
    obtain ⟨n₂, h₂⟩ := executed.eventually fun h hf => Run.exec_mono h hf body
    obtain ⟨n₃, h₃⟩ := stepped.eventually fun h _ => Run.effect_mono h step
    obtain ⟨n₄, h₄⟩ := hy
    refine ⟨n₁ + n₂ + n₃ + n₄ + 1, fun fuel hfuel => ?_⟩
    obtain ⟨k, rfl⟩ : ∃ k, fuel = k + 1 := ⟨fuel - 1, by omega⟩
    have hagain := loop_again k (h₁ (k + 1) (by omega)) (h₂ (k + 1) (by omega))
      (h₃ (k + 1) (by omega))
    -- the rounds that are left have one unit of fuel less than the loop, but not their bodies
    have hrounds : (Functor.discard (Run.loop (Run.guard (ctx.calls (k + 1)) cond)
        (Run.exec (ctx.calls (k + 1)) (k + 1) body) (Run.effect (ctx.calls (k + 1)) step) k) :
          Run Unit) m₃ = o := by
      have hmono : ∀ {i j i' j' : Nat}, i ≤ i' → j ≤ j' → Run.Le
          (Functor.discard (Run.loop (Run.guard (ctx.calls i) cond) (Run.exec (ctx.calls i) i body)
            (Run.effect (ctx.calls i) step) j) : Run Unit)
          (Functor.discard (Run.loop (Run.guard (ctx.calls i') cond) (Run.exec (ctx.calls i') i' body)
            (Run.effect (ctx.calls i') step) j')) := by
        intro i j i' j' hi hj
        have hcalls := ctx.calls_mono hi
        exact Run.bind_mono (Run.loop_mono (Run.guard_mono hcalls cond) (Run.exec_mono hcalls hi body)
          (Run.effect_mono hcalls step) hj) fun _ => .refl _
      exact (hmono (Nat.le_succ k) (Nat.le_refl k) m₃).squeeze
        (hmono (Nat.le_refl (k + 1)) (Nat.le_succ k) m₃) (h₄ k (by omega)) (h₄ (k + 1) (by omega))
    show o.Carries (Run.loop _ _ _ (k + 1) m)
    rw [hagain]
    exact Run.carries_of_discard hrounds

theorem Enters.groups_carries {start : Nat} {gs : List CaseGroup}
    (hs : Enters p ctx ⟨c, r, .groups start gs, m⟩ y) (hy : y.ComesTo ctx o) :
    ctx.Eventually (fun call fuel => Run.execFrom call fuel start gs) m o.Carries := by
  cases hs with
  | skip => exact Eventually.of_discard hy
  | @group _ _ label body pos gs =>
    refine (Eventually.of_discard hy).bind fun fuel flow => ?_
    cases flow with
    | normal => exact Run.execFrom_steady (ctx.calls_steady fuel) fuel 0 gs
    | brk => exact (Run.Immediate.value _).steady
    | ret v => exact (Run.Immediate.value _).steady
  | @fallThrough _ _ label body pos gs _ m' executed =>
    exact executed.carried (fun h hf => Run.execAll_mono h hf body) (Eventually.of_discard hy)
      fun _ hbody => .of_eq (Run.bind_value hbody)

theorem Enters.stmts_carries {body : List Stmt} (hs : Enters p ctx ⟨c, r, .stmts body, m⟩ y)
    (hy : y.ComesTo ctx o) : ctx.Eventually (fun call fuel => Run.execAll call fuel body) m o.Carries := by
  cases hs with
  | @head _ _ s rest =>
    refine (Eventually.of_discard hy).bind fun fuel flow => ?_
    cases flow with
    | normal => exact Run.execAll_steady (ctx.calls_steady fuel) fuel rest
    | brk => exact (Run.Immediate.value _).steady
    | ret v => exact (Run.Immediate.value _).steady
  | @tail _ _ s rest _ m' executed =>
    exact executed.carried (fun h hf => Run.exec_mono h hf s) (Eventually.of_discard hy)
      fun _ hhead => .of_eq (Run.bind_value hhead)

theorem Enters.stmt_carries {s : Stmt} (hs : Enters p ctx ⟨c, r, .stmt s, m⟩ y)
    (hy : y.ComesTo ctx o) : ctx.Eventually (fun call fuel => Run.exec call fuel s) m o.Carries := by
  have hexec : ∀ fuel s, (Run.exec (ctx.calls fuel) fuel s).Steady :=
    fun fuel s => Run.exec_steady (ctx.calls_steady fuel) fuel s
  have hvalue : ∀ flow : Flow, Run.Steady (pure flow) := fun flow => (Run.Immediate.value flow).steady
  cases hs with
  | declare => exact (Eventually.refl hy).bind fun _ _ => hvalue _
  | eval => exact (Eventually.of_discard hy).bind fun _ _ => hvalue _
  | block => exact (Eventually.of_discard hy).inScope
  | @condition _ _ e s s? pos =>
    have hcond : ctx.Eventually (fun call _ => Run.condition call e) m o.Carries :=
      (Eventually.of_discard hy).bind fun _ v => (Run.truth_plain v e.pos).immediate.steady
    -- the rest of the branch is not yet reached: whichever part it takes, it is steady
    cases s? with
    | none =>
      refine hcond.bind fun fuel b => ?_
      cases b with
      | true => exact hexec fuel s
      | false => exact hvalue _
    | some s' =>
      refine hcond.bind fun fuel b => ?_
      cases b with
      | true => exact hexec fuel s
      | false => exact hexec fuel s'
  | @onTrue _ _ e s s? pos _ m' holds =>
    refine holds.carried (fun h _ => Run.condition_mono h e) (Eventually.of_discard hy) fun _ hholds => ?_
    cases s? with
    | none => exact .of_eq (Run.bind_value hholds)
    | some s' => exact .of_eq (Run.bind_value hholds)
  | @onFalse _ _ e s s' pos _ m' fails =>
    exact fails.carried (fun h _ => Run.condition_mono h e) (Eventually.of_discard hy)
      fun _ hfails => .of_eq (Run.bind_value hfails)
  | whileLoop => exact Eventually.of_discard hy
  | @forDeclare _ _ d cond step s pos =>
    refine Eventually.inScope ((Eventually.refl hy).bind fun fuel _ => ?_)
    exact Run.loop_steady (Run.guard_steady (ctx.calls_steady fuel) cond) (hexec fuel s)
      (Run.effect_steady (ctx.calls_steady fuel) step) fuel
  | @forEval _ _ e cond step s pos =>
    have heval : ctx.Eventually (fun call _ => Run.forInit call (some (.eval e))) m.pushScope o.Carries :=
      (Eventually.of_discard hy).bind fun _ _ => (Run.Immediate.value _).steady
    refine Eventually.inScope (heval.bind fun fuel _ => ?_)
    exact Run.loop_steady (Run.guard_steady (ctx.calls_steady fuel) cond) (hexec fuel s)
      (Run.effect_steady (ctx.calls_steady fuel) step) fuel
  | @forLoop _ _ init cond step s pos _ m' initialised =>
    exact Eventually.inScope (initialised.carried (fun h _ => Run.forInit_mono h init)
      (Eventually.of_discard hy) fun _ hinit => .of_eq (Run.bind_value hinit))
  | @scrutinee _ _ e gs pos =>
    refine (Eventually.of_discard hy).bind fun fuel v => ?_
    refine (Run.orFail_immediate _ _).steady.bind fun key => ?_
    cases Run.startOf? key gs with
    | none => exact hvalue _
    | some start => exact Run.execFrom_steady (ctx.calls_steady fuel) fuel start gs
  | @switch _ _ e gs pos _ m' v key start evaluated integer found =>
    refine evaluated.carried (fun h _ => Run.eval_mono h e) (Eventually.of_discard hy) fun _ hv => .of_eq ?_
    -- the value was found to be an integer on the way, so the key exists for all fuel
    have hkey : Run.switchKey v e.pos m' = .value key m' := by
      rw [Run.switchKey, integer]
      rfl
    refine (Run.bind_value hv).trans ((Run.bind_value hkey).trans ?_)
    rw [found]
  | returned => exact (Eventually.of_discard hy).bind fun _ _ => hvalue _

/-- What a part comes to shows in the piece around it. -/
theorem Enters.carries {x : Point} {o' : Outcome Unit} (hs : Enters p ctx x y) (hy : y.ComesTo ctx o)
    (hx : x.ComesTo ctx o') : o.Carries o' := by
  have h : ctx.Eventually (fun call fuel => x.task.run call fuel) x.machine o.Carries := by
    obtain ⟨c, r, task, m⟩ := x
    cases task with
    | expr e => exact (hs.expr_carries hy).discard
    | exprs es => exact (hs.exprs_carries hy).discard
    | declare d => exact hs.declare_carries hy
    | stmt s => exact (hs.stmt_carries hy).discard
    | stmts body => exact (hs.stmts_carries hy).discard
    | loop cond step body => exact (hs.loop_carries hy).discard
    | groups start gs => exact (hs.groups_carries hy).discard
  obtain ⟨n₁, h₁⟩ := h
  obtain ⟨n₂, h₂⟩ := hx
  rw [← h₂ (max n₁ n₂) (Nat.le_max_right n₁ n₂)]
  exact h₁ (max n₁ n₂) (Nat.le_max_left n₁ n₂)

/-- The same for any number of steps. -/
theorem carries_of_enters {x : Point} (hsteps : Relation.ReflTransGen (Enters p ctx) x y)
    (hy : y.ComesTo ctx o) : ∃ o', x.ComesTo ctx o' ∧ o.Carries o' := by
  induction hsteps generalizing o with
  | refl => exact ⟨o, hy, .of_eq rfl⟩
  | @tail y z _ hstep ih =>
    obtain ⟨o₁, h₁⟩ := y.exists_comesTo ctx
    obtain ⟨o', hx, hcarries⟩ := ih h₁
    exact ⟨o', hx, (hstep.carries hy h₁).trans hcarries⟩

end Point

/-! ## Runs -/

theorem Run.declareAll_append {call : Call} {bs : List VarDecl} {m' : Machine} :
    ∀ {as : List VarDecl} {m : Machine}, declareAll call as m = .value () m' →
      declareAll call (as ++ bs) m = declareAll call bs m'
  | [], m, h => by
    cases h
    rfl
  | a :: as, m, h => by
    obtain ⟨_, m₁, ha, has⟩ := bind_eq_value h
    exact (bind_value ha).trans (declareAll_append has)

namespace Program

variable {p : Program} {ctx : Context} {done : List Item} {x : Point} {o : Outcome Unit}

/-- The points at which a run begins, in the run. -/
theorem Starts.carries (hs : p.Starts ctx done x) (hx : x.ComesTo ctx o) :
    ∃ n, ∀ fuel, n ≤ fuel → o.Carries (p.execute ctx fuel .fresh) := by
  cases hs with
  | @global _ rest d m item initialised =>
    obtain ⟨n₁, hbefore⟩ := initialised.eventually fun h _ => Run.declareAll_mono h _
    obtain ⟨n₂, hd⟩ := Context.Eventually.refl hx
    -- the global that is being initialised splits the list of all globals
    have hglobals : p.globals = Item.globals done ++ d :: Item.globals rest := by
      rw [show p.globals = Item.globals p.items from rfl, item]
      simp [Item.globals]
    refine ⟨n₁ + n₂, fun fuel hfuel => (hd fuel (by omega)).trans ?_⟩
    have hdeclare : (Run.declare (ctx.calls fuel) d m).Carries
        (Run.declareAll (ctx.calls fuel) p.globals .fresh) := by
      rw [hglobals, Run.declareAll_append (hbefore fuel (by omega))]
      exact Run.bind_carries fun _ => Run.declareAll_steady (ctx.calls_steady fuel) _
    exact hdeclare.trans (Run.bind_carries fun _ => p.callMain_steady ctx fuel)
  | @main before rest f m m' initialised meant noParams item entered =>
    obtain ⟨n₁, hglobals⟩ := initialised.eventually fun h _ => Run.declareAll_mono h _
    obtain ⟨n₂, hcall⟩ := Point.body_carries entered hx
    refine ⟨n₁ + n₂, fun fuel hfuel => (hcall fuel (by omega)).trans ?_⟩
    have hmain : p.callMain ctx fuel = ctx.call fuel f [] f.pos >>= fun v =>
        Run.record (.returned v) >>= fun _ => Run.flush ctx.sink f.pos := by
      rw [callMain, meant]
      exact if_pos noParams
    rw [execute, Run.bind_value (hglobals fuel (by omega)), hmain]
    exact Run.bind_carries fun v => (Run.record_steady _).bind fun _ => Run.flush_steady ctx.sink f.pos

/-- What a run does at a point that it comes to shows in what the run comes to. -/
theorem Reaches.carries (hr : p.Reaches ctx done x) (hx : x.ComesTo ctx o) :
    ∃ n, ∀ fuel, n ≤ fuel → o.Carries (p.execute ctx fuel .fresh) := by
  obtain ⟨start, hstart, hsteps⟩ := hr
  obtain ⟨o', hcomes, hcarries⟩ := Point.carries_of_enters hsteps hx
  obtain ⟨n, hn⟩ := hstart.carries hcomes
  exact ⟨n, fun fuel hfuel => hcarries.trans (hn fuel hfuel)⟩

end Program

/-! ## Errors -/

/-- With enough fuel the computation stops with an error. -/
def Context.Errs (ctx : Context) (x : Call → Nat → Run α) (m : Machine) (e : RuntimeError) : Prop :=
  ∃ fuel m', x (ctx.calls fuel) fuel m = .error e m'

theorem Context.errs_discard {ctx : Context} {x : Call → Nat → Run α} {m : Machine}
    {e : RuntimeError} : ctx.Errs (fun call fuel => Functor.discard (x call fuel)) m e ↔
      ctx.Errs x m e := by
  constructor
  · rintro ⟨fuel, m', h⟩
    rcases Run.bind_eq_error h with hx | ⟨a, m₁, -, hpure⟩
    · exact ⟨fuel, m', hx⟩
    · cases hpure
  · rintro ⟨fuel, m', h⟩
    exact ⟨fuel, m', Run.bind_error h⟩

/-- With enough fuel, what a run does at the point stops with the error. -/
def Point.Fails (ctx : Context) (err : RuntimeError) (x : Point) : Prop :=
  ctx.Errs (fun call fuel => x.task.run call fuel) x.machine err

/-- An error at a point that a run comes to is an error of the run. -/
theorem Program.Reaches.fails {p : Program} {ctx : Context} {done : List Item} {x : Point}
    {err : RuntimeError} (hr : p.Reaches ctx done x) (hx : x.Fails ctx err) :
    ∃ fuel m, p.execute ctx fuel .fresh = .error err m := by
  obtain ⟨fuel, m', herror⟩ := hx
  have hcomes : x.ComesTo ctx (.error err m') :=
    Context.eventually_of_ne_pending (fun h hf => Task.run_mono h hf x.task) herror nofun
  obtain ⟨n, hn⟩ := hr.carries hcomes
  obtain ⟨m, hm, -⟩ := hn n (Nat.le_refl n)
  exact ⟨n, m, hm⟩

end Primer
