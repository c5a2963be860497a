import Primer.Proofs.Machine.Call
import Primer.Proofs.Machine.Congruence

/-!
# Fuel

Fuel only decides whether a computation ends in time. With more of it a pending computation may come
to something; one that came to something comes to the same thing.

- `Outcome.Le` and `Run.Le` order outcomes and computations by this.
- `Run.le_congruence`: the order is kept by execution, so the order of calls is handed on to whatever
  calls; `Context.call_mono` says that more fuel is more.
- `Program.run_mono` is the statement for whole runs.
-/

namespace Primer

variable {α β : Type}

/-- `o'` is `o`, unless `o` is pending. -/
def Outcome.Le (o o' : Outcome α) : Prop :=
  o = .pending ∨ o = o'

/-- Something that was come to stays. -/
theorem Outcome.Le.eq {o o' : Outcome α} (h : o.Le o') (ho : o ≠ .pending) : o' = o := by
  rcases h with hp | he
  · exact absurd hp ho
  · exact he.symm

theorem Outcome.ne_pending_of_machine? {o : Outcome α} {m : Machine} (h : o.machine? = some m) :
    o ≠ .pending := by
  rintro rfl
  cases h

/-- What is between two equal outcomes is equal to them. -/
theorem Outcome.Le.squeeze {o₁ o₂ o₃ o : Outcome α} (h₁₂ : o₁.Le o₂) (h₂₃ : o₂.Le o₃) (h₁ : o₁ = o)
    (h₃ : o₃ = o) : o₂ = o := by
  rcases h₁₂ with hp | he
  · rcases h₂₃ with hp' | he'
    · rw [hp', ← hp, h₁]
    · rw [he', h₃]
  · rw [← he, h₁]

/-- `y` comes to whatever `x` comes to. -/
def Run.Le (x y : Run α) : Prop :=
  ∀ m, (x m).Le (y m)

/-- The same for calls. -/
def Call.Le (call call' : Call) : Prop :=
  ∀ name args pos, Run.Le (call name args pos) (call' name args pos)

namespace Run

theorem Le.refl (x : Run α) : Le x x := fun _ => .inr rfl

theorem pending_le (x : Run α) : Le pending x := fun _ => .inl rfl

theorem Le.value {x y : Run α} (h : Le x y) {m m' : Machine} {a : α} (hx : x m = .value a m') :
    y m = .value a m' := by
  rcases h m with hp | he
  · rw [hx] at hp
    exact nomatch hp
  · exact he.symm.trans hx

theorem bind_mono {x y : Run α} {f g : α → Run β} (hx : Le x y) (hf : ∀ a, Le (f a) (g a)) :
    Le (x >>= f) (y >>= g) := by
  intro m
  rw [bind_apply, bind_apply]
  rcases hx m with hp | he
  · rw [hp]
    exact .inl rfl
  · rw [← he]
    cases x m with
    | value a m' => exact hf a m'
    | error e m' => exact .inr rfl
    | pending => exact .inl rfl

theorem closing_mono {close : Environment → Environment} {x y : Run α} (h : Le x y) :
    Le (closing close x) (closing close y) := by
  intro m
  unfold closing
  rcases h m with hp | he
  · rw [hp]
    exact .inl rfl
  · rw [he]
    exact .inr rfl

theorem inScope_mono {x y : Run α} (h : Le x y) : Le (inScope x) (inScope y) :=
  bind_mono (.refl _) fun _ => closing_mono h

theorem inFrame_mono {x y : Run α} (h : Le x y) : Le (inFrame x) (inFrame y) :=
  bind_mono (.refl _) fun _ => closing_mono h

/-- Coming to more is kept by execution. -/
theorem le_congruence : Congruence @Le where
  plain _ := .refl _
  read _ _ := .refl _
  assign _ _ _ := .refl _
  define _ _ _ := .refl _
  seq := bind_mono
  scope := inScope_mono

theorem loops_mono : ∀ {fuel fuel' : Nat}, fuel ≤ fuel' → Congruence.Loops @Le fuel fuel'
  | 0, _, _ => by
    intro guard guard' body body' step step' _ _ _
    exact pending_le _
  | fuel + 1, 0, h => absurd h (Nat.not_succ_le_zero fuel)
  | _ + 1, _ + 1, h => le_congruence.loops_succ (loops_mono (Nat.le_of_succ_le_succ h))

/-- A loop whose parts come to more, and that may be repeated more often, comes to more. -/
theorem loop_mono {guard guard' : Run Bool} {body body' : Run Flow} {step step' : Run Unit}
    (hguard : Le guard guard') (hbody : Le body body') (hstep : Le step step') {fuel fuel' : Nat}
    (h : fuel ≤ fuel') : Le (loop guard body step fuel) (loop guard' body' step' fuel') :=
  loops_mono h hguard hbody hstep

section

variable {call call' : Call} (h : call.Le call')

include h

theorem eval_mono (e : Expr) : Le (eval call e) (eval call' e) :=
  le_congruence.eval h e

theorem evalAll_mono (es : List Expr) : Le (evalAll call es) (evalAll call' es) :=
  le_congruence.evalAll h es

theorem condition_mono (e : Expr) : Le (condition call e) (condition call' e) :=
  le_congruence.condition h e

theorem guard_mono (e? : Option Expr) : Le (guard call e?) (guard call' e?) :=
  le_congruence.guard h e?

theorem effect_mono (e? : Option Expr) : Le (effect call e?) (effect call' e?) :=
  le_congruence.effect h e?

theorem declare_mono (d : VarDecl) : Le (declare call d) (declare call' d) :=
  le_congruence.declare h d

theorem declareAll_mono (ds : List VarDecl) : Le (declareAll call ds) (declareAll call' ds) :=
  le_congruence.declareAll h ds

theorem forInit_mono (init : Option ForInit) : Le (forInit call init) (forInit call' init) :=
  le_congruence.forInit h init

variable {fuel fuel' : Nat} (hf : fuel ≤ fuel')

include hf

theorem exec_mono (s : Stmt) : Le (exec call fuel s) (exec call' fuel' s) :=
  le_congruence.exec h (loops_mono hf) s

theorem execAll_mono (body : List Stmt) : Le (execAll call fuel body) (execAll call' fuel' body) :=
  le_congruence.execAll h (loops_mono hf) body

theorem execFrom_mono (start : Nat) (groups : List CaseGroup) :
    Le (execFrom call fuel start groups) (execFrom call' fuel' start groups) :=
  le_congruence.execFrom h (loops_mono hf) start groups

end

end Run

namespace Context

variable (ctx : Context)

theorem dispatch_mono {enter enter' : FunctionDef → List Value → Position → Run Value}
    (h : ∀ f args pos, Run.Le (enter f args pos) (enter' f args pos)) :
    (ctx.dispatch enter).Le (ctx.dispatch enter') :=
  Run.le_congruence.dispatch rfl (fun _ _ => .refl _) h

theorem call_mono : ∀ {fuel fuel' : Nat}, fuel ≤ fuel' → ∀ f args pos,
    Run.Le (ctx.call fuel f args pos) (ctx.call fuel' f args pos)
  | 0, _, _, _, _, _ => Run.pending_le _
  | fuel + 1, 0, h, _, _, _ => absurd h (Nat.not_succ_le_zero fuel)
  | fuel + 1, fuel' + 1, h, f, args, pos => by
    rw [call, call]
    refine Run.bind_mono (.refl _) fun env => ?_
    split
    · exact .refl _
    · split
      · exact .refl _
      · refine Run.bind_mono (.refl _) fun stored => Run.bind_mono (Run.inFrame_mono ?_) fun flow =>
          .refl _
        -- both the calls in the body and its loops have more fuel on the right
        have hcalls := ctx.dispatch_mono (call_mono (Nat.le_of_succ_le_succ h))
        exact Run.bind_mono (.refl _) fun env => Run.bind_mono (.refl _) fun _ =>
          Run.bind_mono (.refl _) fun _ => Run.execAll_mono hcalls h f.body

theorem calls_mono {fuel fuel' : Nat} (h : fuel ≤ fuel') : (ctx.calls fuel).Le (ctx.calls fuel') :=
  ctx.dispatch_mono (ctx.call_mono h)

end Context

namespace Program

variable (p : Program)

theorem callMain_mono (ctx : Context) {fuel fuel' : Nat} (h : fuel ≤ fuel') :
    Run.Le (p.callMain ctx fuel) (p.callMain ctx fuel') := by
  rcases p.callMain_cases with ⟨e, -, hfail⟩ | ⟨f, -, -, hmain⟩
  · rw [hfail, hfail]
    exact .refl _
  · rw [hmain, hmain]
    exact Run.bind_mono (ctx.call_mono h f [] f.pos) fun v => .refl _

theorem execute_mono (ctx : Context) {fuel fuel' : Nat} (h : fuel ≤ fuel') :
    Run.Le (p.execute ctx fuel) (p.execute ctx fuel') :=
  Run.bind_mono (Run.declareAll_mono (ctx.calls_mono h) p.globals) fun _ => p.callMain_mono ctx h

/-- A run that came to something comes to the same with more fuel. -/
theorem run_mono (config : Config) (sink : Sink) {fuel fuel' : Nat} (h : fuel ≤ fuel') :
    (p.run config sink fuel).Le (p.run config sink fuel') := by
  unfold run
  cases config.refusal? with
  | some reason => exact .inr rfl
  | none => exact p.execute_mono _ h .fresh

end Program

end Primer
