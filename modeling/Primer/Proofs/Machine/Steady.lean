import Primer.Proofs.Machine.Call
import Primer.Proofs.Machine.Congruence
import Primer.Proofs.Machine.Environment

/-!
# What every computation leaves alone

Whatever a computation does, and whether it ends with a value or an error, the calls below the one in
progress stay as they are, and what was recorded stays recorded: the transcript only grows.

- `Transcript.Before` says that one transcript goes on from another, so that its output does too.
- `Machine.Follows` is the relation between the machines before and after a computation;
  `Outcome.GoesOn` is its part about the transcript, for one outcome.
- `Run.steady_congruence` and `Context.calls_steady`: all of execution respects it.
- `Context.call_resumes`: a call leaves all frames as they were.
-/

namespace Primer

/-! ## Growing transcripts -/

/-- The second transcript goes on from the first. -/
def Transcript.Before (t t' : Transcript) : Prop :=
  t.events <:+ t'.events

namespace Transcript

theorem Before.refl (t : Transcript) : t.Before t := List.suffix_refl _

theorem Before.trans {t t' t'' : Transcript} (h : t.Before t') (h' : t'.Before t'') : t.Before t'' :=
  List.IsSuffix.trans h h'

theorem before_record (t : Transcript) (e : Event) : t.Before (t.record e) :=
  List.suffix_cons e t.events

/-- What was printed stays printed. -/
theorem Before.output {t t' : Transcript} (h : t.Before t') : ∃ more, t'.output = t.output ++ more := by
  obtain ⟨later, hlater⟩ := h
  refine ⟨String.join (later.reverse.map Event.text), ?_⟩
  unfold Transcript.output history
  rw [← hlater, List.reverse_append, List.map_append, String.join_append]

end Transcript

/-! ## Machines before and after -/

/-- What a computation leaves alone: the calls below the one in progress, and what was recorded. -/
structure Machine.Follows (m m' : Machine) : Prop where
  callers : m.env.SameCallers m'.env
  transcript : m.transcript.Before m'.transcript

namespace Machine

theorem Follows.refl (m : Machine) : m.Follows m := ⟨.refl _, .refl _⟩

theorem Follows.trans {m m' m'' : Machine} (h : m.Follows m') (h' : m'.Follows m'') : m.Follows m'' :=
  ⟨h.callers.trans h'.callers, h.transcript.trans h'.transcript⟩

theorem Follows.depth {m m' : Machine} (h : m.Follows m') : m'.env.depth = m.env.depth :=
  h.callers.depth

end Machine

/-- A frame was opened on the frames of `m`. -/
structure Machine.Opens (m m' : Machine) : Prop where
  callers : m'.env.frames.tail = m.env.frames
  depth : m'.env.depth = m.env.depth + 1
  transcript : m.transcript.Before m'.transcript

/-- All frames are as they were on `m`. -/
structure Machine.Resumes (m m' : Machine) : Prop where
  frames : m'.env.frames = m.env.frames
  transcript : m.transcript.Before m'.transcript

theorem Machine.Resumes.refl (m : Machine) : m.Resumes m := ⟨rfl, .refl _⟩

theorem Machine.Resumes.follows {m m' : Machine} (h : m.Resumes m') : m.Follows m' :=
  ⟨.of_frames h.frames, h.transcript⟩

/-- The machine that is left behind, if there is one, follows `m`. -/
def Outcome.Follows {α : Type} (m : Machine) (o : Outcome α) : Prop :=
  o.Satisfies (fun _ m' => m.Follows m') (fun _ m' => m.Follows m')

/-- Whatever is recorded in `t` is recorded on the machine that is left behind. -/
def Outcome.GoesOn {α : Type} (t : Transcript) (o : Outcome α) : Prop :=
  o.Satisfies (fun _ m => t.Before m.transcript) (fun _ m => t.Before m.transcript)

namespace Outcome

variable {α : Type} {o : Outcome α} {t t' : Transcript}

theorem GoesOn.before {m : Machine} (h : o.GoesOn t) (hm : o.machine? = some m) :
    t.Before m.transcript :=
  Satisfies.machine h hm

theorem GoesOn.of_before (ht : t.Before t') (h : o.GoesOn t') : o.GoesOn t :=
  h.imp (fun _ _ hm => ht.trans hm) fun _ _ hm => ht.trans hm

end Outcome

namespace Run

variable {α β : Type}

/-- Every machine that the computation leaves behind follows the one it started on. -/
def Steady (x : Run α) : Prop :=
  ∀ m, (x m).Follows m

theorem Immediate.unchanged {x : Run α} (h : Immediate x) (m : Machine) :
    (x m).Satisfies (fun _ m' => m' = m) (fun _ m' => m' = m) := by
  cases h with
  | value a => rfl
  | error e => rfl

theorem Immediate.steady {x : Run α} (h : Immediate x) : Steady x := by
  intro m
  refine (h.unchanged m).imp ?_ ?_
  · rintro a _ rfl
    exact Machine.Follows.refl _
  · rintro e _ rfl
    exact Machine.Follows.refl _

theorem Steady.bind {x : Run α} {f : α → Run β} (hx : Steady x) (hf : ∀ a, Steady (f a)) :
    Steady (x >>= f) := by
  intro m
  refine bind_satisfies (hx m) fun a m₁ h₁ => ?_
  exact (hf a m₁).imp (fun _ _ h => h₁.trans h) fun _ _ h => h₁.trans h

theorem Steady.goesOn {x : Run α} (h : Steady x) (m : Machine) : (x m).GoesOn m.transcript :=
  (h m).imp (fun _ _ h => h.transcript) fun _ _ h => h.transcript

theorem bind_goesOn {x : Run α} {f : α → Run β} {t : Transcript} {m : Machine} (hx : (x m).GoesOn t)
    (hf : ∀ a m, (f a m).GoesOn m.transcript) : ((x >>= f) m).GoesOn t :=
  bind_satisfies hx fun a m₁ h₁ => (hf a m₁).of_before h₁

theorem env_steady : Steady env := fun m => Machine.Follows.refl m

theorem modifyEnv_steady {f : Environment → Environment} (h : ∀ env : Environment, env.SameCallers (f env)) :
    Steady (modifyEnv f) :=
  fun m => ⟨h m.env, .refl _⟩

theorem record_steady (e : Event) : Steady (record e) :=
  fun m => ⟨.refl _, m.transcript.before_record e⟩

theorem write_steady (sink : Sink) (text : String) (pos : Position) : Steady (write sink text pos) := by
  intro m
  unfold write
  split
  · exact Machine.Follows.refl m
  · exact ⟨.refl _, m.transcript.before_record _⟩

theorem flush_steady (sink : Sink) (pos : Position) : Steady (flush sink pos) := by
  intro m
  unfold flush
  split
  · exact Machine.Follows.refl m
  · exact Machine.Follows.refl m

/-- The scope that is opened is closed again. -/
theorem Steady.inScope {x : Run α} (hx : Steady x) : Steady (inScope x) := by
  intro m
  have hclose : ∀ m' : Machine, Machine.Follows { m with env := m.env.pushScope } m' →
      m.Follows { m' with env := m'.env.popScope } := by
    intro m' h
    exact ⟨Environment.pushScope_popScope_sameCallers h.callers, h.transcript⟩
  exact inScope_satisfies ((hx _).imp (fun _ => hclose) fun _ => hclose)

/-- All of execution is steady, if calls are. -/
theorem steady_congruence : Congruence fun {α : Type} (_ x : Run α) => Steady x where
  plain h := h.immediate.steady
  read name pos := env_steady.bind fun _ => (orFail_immediate _ _).steady
  assign name v pos := by
    refine env_steady.bind fun _ => (orFail_immediate _ _).steady.bind fun type => ?_
    refine (coerce_plain v type pos).immediate.steady.bind fun stored => ?_
    refine (modifyEnv_steady fun env => ?_).bind fun _ => (Immediate.value _).steady
    exact env.assign_sameCallers name stored
  define name type v := modifyEnv_steady fun env => env.define_sameCallers name type v
  seq hx hf := hx.bind hf
  scope hx := hx.inScope

theorem steady_loops (fuel : Nat) :
    Congruence.Loops (fun {α : Type} (_ x : Run α) => Steady x) fuel fuel :=
  steady_congruence.loops (fun _ => trivial) fuel

theorem loop_steady {guard : Run Bool} {body : Run Flow} {step : Run Unit} (hguard : Steady guard)
    (hbody : Steady body) (hstep : Steady step) (fuel : Nat) : Steady (loop guard body step fuel) :=
  @steady_loops fuel guard guard body body step step hguard hbody hstep

section

variable {call : Call} (h : ∀ name args pos, Steady (call name args pos))

include h

theorem eval_steady (e : Expr) : Steady (eval call e) :=
  @EvalCongruence.eval _ call call steady_congruence.toEvalCongruence h e

theorem evalAll_steady (es : List Expr) : Steady (evalAll call es) :=
  @EvalCongruence.evalAll _ call call steady_congruence.toEvalCongruence h es

theorem condition_steady (e : Expr) : Steady (condition call e) :=
  @EvalCongruence.condition _ call call steady_congruence.toEvalCongruence h e

theorem guard_steady (e? : Option Expr) : Steady (guard call e?) :=
  @EvalCongruence.guard _ call call steady_congruence.toEvalCongruence h e?

theorem effect_steady (e? : Option Expr) : Steady (effect call e?) :=
  @EvalCongruence.effect _ call call steady_congruence.toEvalCongruence h e?

theorem declare_steady (d : VarDecl) : Steady (declare call d) :=
  @Congruence.declare _ call call steady_congruence h d

theorem declareAll_steady (ds : List VarDecl) : Steady (declareAll call ds) :=
  @Congruence.declareAll _ call call steady_congruence h ds

theorem forInit_steady (init : Option ForInit) : Steady (forInit call init) :=
  @Congruence.forInit _ call call steady_congruence h init

theorem exec_steady (fuel : Nat) (s : Stmt) : Steady (exec call fuel s) :=
  @Congruence.exec _ call call steady_congruence h _ _ (steady_loops fuel) s

theorem execAll_steady (fuel : Nat) (body : List Stmt) : Steady (execAll call fuel body) :=
  @Congruence.execAll _ call call steady_congruence h _ _ (steady_loops fuel) body

theorem execFrom_steady (fuel start : Nat) (groups : List CaseGroup) :
    Steady (execFrom call fuel start groups) :=
  @Congruence.execFrom _ call call steady_congruence h _ _ (steady_loops fuel) start groups

end

end Run

namespace Context

variable (ctx : Context)

theorem dispatch_steady {enter : FunctionDef → List Value → Position → Run Value}
    (h : ∀ f args pos, (enter f args pos).Steady) (name : String) (args : List Value)
    (pos : Position) : (ctx.dispatch enter name args pos).Steady :=
  @Run.EvalCongruence.dispatch _ Run.steady_congruence.toEvalCongruence ctx ctx enter enter rfl
    (Run.write_steady ctx.sink) h name args pos

/-- Entering a function opens one frame on those that are there, if the limit allows it; an attempt
that fails changes nothing. -/
theorem enter_satisfies (f : FunctionDef) (args : List Value) (pos : Position) (m : Machine) :
    (ctx.enter f args pos m).Satisfies (fun _ m' => m.env.depth < ctx.maxDepth ∧ m.Opens m')
      (fun _ m' => m' = m) := by
  rw [enter, Run.env_bind_apply]
  by_cases hdepth : ctx.maxDepth ≤ m.env.depth
  · rw [if_pos hdepth]
    rfl
  · rw [if_neg hdepth]
    split
    · rfl
    · refine Run.bind_satisfies ((Run.coerceArgs_plain pos f.params args).immediate.unchanged m) ?_
      rintro stored m₁ rfl
      -- the frame is open; declaring the parameters changes only what is in it
      have hparams := Run.steady_congruence.bindParams f.params stored
        ⟨m₁.env.pushFrame, m₁.transcript.record (.called f.name m₁.env.pushFrame.depth)⟩
      obtain ⟨env, henv⟩ := Run.bindParams_eq f.params stored
        ⟨m₁.env.pushFrame, m₁.transcript.record (.called f.name m₁.env.pushFrame.depth)⟩
      show (Run.bindParams f.params stored _).Satisfies _ _
      rw [henv] at hparams ⊢
      refine ⟨Nat.lt_of_not_le hdepth, hparams.callers.callers, hparams.callers.depth, ?_⟩
      exact (m₁.transcript.before_record _).trans hparams.transcript

theorem enter_goesOn (f : FunctionDef) (args : List Value) (pos : Position) (m : Machine) :
    (ctx.enter f args pos m).GoesOn m.transcript := by
  refine (ctx.enter_satisfies f args pos m).imp (fun _ _ h => h.2.transcript) ?_
  rintro e _ rfl
  exact .refl _

theorem enter_value {f : FunctionDef} {args : List Value} {pos : Position} {m m' : Machine}
    (h : ctx.enter f args pos m = .value () m') : m.env.depth < ctx.maxDepth ∧ m.Opens m' := by
  have henter := ctx.enter_satisfies f args pos m
  rw [h] at henter
  exact henter

/-- A call leaves all frames as they were: the one it opens is closed again, also after an error. -/
theorem call_resumes {fuel : Nat} {f : FunctionDef}
    (hbody : (Run.execAll (ctx.calls fuel) (fuel + 1) f.body).Steady) (args : List Value)
    (pos : Position) (m : Machine) :
    (ctx.call (fuel + 1) f args pos m).Satisfies (fun _ m' => m.Resumes m')
      (fun _ m' => m.Resumes m') := by
  rw [call_succ]
  have henter := ctx.enter_satisfies f args pos m
  refine Run.bind_satisfies (henter.imp (fun _ _ h => h.2) ?_) fun _ m₁ hopens => ?_
  · rintro e m₁ rfl
    exact .refl m₁
  -- the body leaves the frames below its own alone, so closing that one brings back those of `m`
  · have hclose : ∀ m' : Machine, m₁.Follows m' → m.Resumes { m' with env := m'.env.popFrame } := by
      intro m' h
      exact ⟨h.callers.callers.trans hopens.callers, hopens.transcript.trans h.transcript⟩
    have hclosed : (Run.closing .popFrame (Run.execAll (ctx.calls fuel) (fuel + 1) f.body) m₁).Satisfies
        (fun _ m' => m.Resumes m') (fun _ m' => m.Resumes m') :=
      Run.closing_satisfies ((hbody m₁).imp (fun _ => hclose) fun _ => hclose)
    refine Run.bind_satisfies hclosed fun flow m₂ h₂ => ?_
    refine ((Run.result_immediate f flow pos).unchanged m₂).imp ?_ ?_
    · rintro v m' rfl
      exact h₂
    · rintro e m' rfl
      exact h₂

/-- Calls leave the machine steady, with any amount of fuel. -/
theorem call_steady : ∀ (fuel : Nat) (f : FunctionDef) (args : List Value) (pos : Position),
    (ctx.call fuel f args pos).Steady
  | 0, _, _, _ => fun _ => trivial
  | fuel + 1, f, args, pos => by
    intro m
    have hbody : (Run.execAll (ctx.calls fuel) (fuel + 1) f.body).Steady :=
      Run.execAll_steady (ctx.dispatch_steady (call_steady fuel)) (fuel + 1) f.body
    exact (ctx.call_resumes hbody args pos m).imp (fun _ _ h => h.follows) fun _ _ h => h.follows

theorem calls_steady (fuel : Nat) (name : String) (args : List Value) (pos : Position) :
    (ctx.calls fuel name args pos).Steady :=
  ctx.dispatch_steady (ctx.call_steady fuel) name args pos

end Context

namespace Program

theorem callMain_steady (p : Program) (ctx : Context) (fuel : Nat) : (p.callMain ctx fuel).Steady := by
  rcases p.callMain_cases with ⟨e, -, hfail⟩ | ⟨f, -, -, hmain⟩
  · rw [hfail]
    exact (Run.Immediate.error e).steady
  · rw [hmain]
    refine (ctx.call_steady fuel f [] f.pos).bind fun v => (Run.record_steady _).bind fun _ => ?_
    exact Run.flush_steady ctx.sink f.pos

theorem execute_steady (p : Program) (ctx : Context) (fuel : Nat) : (p.execute ctx fuel).Steady :=
  (Run.declareAll_steady (ctx.calls_steady fuel) p.globals).bind fun _ => p.callMain_steady ctx fuel

end Program

end Primer
