import Primer.Proofs.Machine.Cut
import Primer.Proofs.Soundness.Checked
import Primer.Proofs.Soundness.Parts

/-!
# The limit on nested calls

A run under a limit is cut short by it, and nothing else: up to the call that is refused, it does what
it does under any larger limit. A refused call stops the run, because no construct catches an error.

- `Outcome.CutAt` compares an outcome under a limit with the outcome under a larger one;
  `Context.call_cuts` shows that calls are cut short in this way, and so are runs.
- `Point.Enters.moves` says what a step inwards does to the frames, and `Program.Reaches.depth_le`
  that no point of a run has more frames than the limit.
- `Program.Limited` puts the statements about whole runs together.
-/

namespace Primer

variable {α β : Type}

/-! ## Runs under two limits -/

/-- `o'` is `o`, unless `o` is a call refused at the limit; then `o'` went on from there. -/
def Outcome.CutAt (limit : Nat) (o o' : Outcome α) : Prop :=
  o = o' ∨ ∃ pos m, o = .error (.stackOverflow limit pos) m ∧ o'.GoesOn m.transcript

/-- A call refused at the limit cuts a run short; where it is not refused, the run goes on. -/
def RuntimeError.refusedCall (limit : Nat) : CutRule :=
  fun e t t' => (∃ pos, e = .stackOverflow limit pos) ∧ t' = t

theorem Outcome.CutShort.cutAt {limit : Nat} {o o' : Outcome α}
    (h : o.CutShort (RuntimeError.refusedCall limit) o') : o.CutAt limit o' := by
  rcases h with hsame | ⟨e, m, t, hcut, ⟨⟨pos, rfl⟩, rfl⟩, hon⟩
  · exact .inl hsame
  · exact .inr ⟨pos, m, hcut, hon⟩

namespace Context

variable (ctx : Context) {limit : Nat}

/-- The same context with another limit. -/
def withLimit (limit : Nat) : Context :=
  { ctx with maxDepth := limit }

/-- A call at the limit is refused. -/
theorem enter_refused {f : FunctionDef} {args : List Value} {pos : Position} {m : Machine}
    (h : ctx.maxDepth ≤ m.env.depth) :
    ctx.enter f args pos m = .error (.stackOverflow ctx.maxDepth pos) m := by
  rw [enter, Run.env_bind_apply, if_pos h]
  rfl

/-- Below the limit, entering a function does not depend on it. -/
theorem enter_withLimit {f : FunctionDef} {args : List Value} {pos : Position} {m : Machine}
    (h : ¬ ctx.maxDepth ≤ m.env.depth) (hlimit : ctx.maxDepth ≤ limit) :
    (ctx.withLimit limit).enter f args pos m = ctx.enter f args pos m := by
  have h' : ¬ (ctx.withLimit limit).maxDepth ≤ m.env.depth :=
    fun hle => h (Nat.le_trans hlimit hle)
  rw [enter, enter, Run.env_bind_apply, Run.env_bind_apply, if_neg h, if_neg h']

/-- Calls by name, if calls of functions are cut short. -/
theorem calls_cuts_of {d fuel : Nat} (h : ∀ f args pos, Run.Cuts (RuntimeError.refusedCall d)
      (ctx.call fuel f args pos) ((ctx.withLimit limit).call fuel f args pos)) :
    Run.Congruence.Calls (Run.Cuts (RuntimeError.refusedCall d)) (ctx.calls fuel)
      ((ctx.withLimit limit).calls fuel) :=
  (Run.cuts_congruence _).dispatch rfl (fun text pos => (Run.write_steady ctx.sink text pos).cuts) h

/-- Calls under a limit are calls under a larger one, cut short. -/
theorem call_cuts (hlimit : ctx.maxDepth ≤ limit) :
    ∀ (fuel : Nat) (f : FunctionDef) (args : List Value) (pos : Position),
      Run.Cuts (RuntimeError.refusedCall ctx.maxDepth) (ctx.call fuel f args pos)
        ((ctx.withLimit limit).call fuel f args pos)
  | 0, _, _, _ => Run.Steady.cuts fun _ => trivial
  | fuel + 1, f, args, pos => by
    refine ⟨fun m => ?_, ((ctx.withLimit limit).call_steady _ f args pos).goesOn⟩
    rw [call_succ, Run.bind_apply]
    by_cases hdepth : ctx.maxDepth ≤ m.env.depth
    -- this call is refused, while the larger limit goes on from the same machine
    · rw [ctx.enter_refused hdepth]
      refine .inr ⟨_, m, m.transcript, rfl, ⟨⟨pos, rfl⟩, rfl⟩, ?_⟩
      exact ((ctx.withLimit limit).call_steady _ f args pos).goesOn m
    · rw [call_succ, Run.bind_apply, ctx.enter_withLimit hdepth hlimit]
      cases ctx.enter f args pos m with
      | value _ m₁ => exact (body_cuts (ctx.calls_cuts_of (call_cuts hlimit fuel)) f pos).cut m₁
      | error e m₁ => exact .inl rfl
      | pending => exact .inl rfl

end Context

/-- A whole run under a limit is the run under a larger one, cut short. -/
theorem Program.execute_cuts (p : Program) (ctx : Context) {limit : Nat} (hlimit : ctx.maxDepth ≤ limit)
    (fuel : Nat) : Run.Cuts (RuntimeError.refusedCall ctx.maxDepth) (p.execute ctx fuel)
      (p.execute (ctx.withLimit limit) fuel) :=
  p.execute_cuts_of (ctx.calls_cuts_of (ctx.call_cuts hlimit fuel)) (ctx.call_cuts hlimit fuel)
    fun pos => (Run.flush_steady ctx.sink pos).cuts

/-! ## Frames at the points of a run -/

/-- A computation with enough fuel leaves a machine that follows the one it started on. -/
theorem Context.Gives.follows {ctx : Context} {x : Call → Nat → Run α} {m m' : Machine} {a : α}
    (h : ctx.Gives x m a m') (hx : ∀ fuel, (x (ctx.calls fuel) fuel).Steady) : m.Follows m' := by
  obtain ⟨fuel, hvalue⟩ := h
  have hsteady := hx fuel m
  rw [hvalue] at hsteady
  exact hsteady

theorem Machine.follows_pushScope (m : Machine) : m.Follows m.pushScope :=
  ⟨Environment.pushScope_sameCallers, .refl _⟩

namespace Point

variable {p : Program} {ctx : Context} {x y : Point}

/-- A step of a run stays in the call in progress, or enters one more call below the limit. -/
theorem Enters.moves (h : Enters p ctx x y) : x.machine.Follows y.machine ∨
    ∃ m, x.machine.Follows m ∧ m.env.depth < ctx.maxDepth ∧ m.Opens y.machine := by
  cases h with
  -- a call is the only step that opens a frame, and it does so after its arguments
  | call evaluated _ _ entered _ =>
    have hargs := evaluated.follows fun fuel => Run.evalAll_steady (ctx.calls_steady fuel) _
    exact .inr ⟨_, hargs, ctx.enter_value entered⟩
  | block | forDeclare | forEval => exact .inl (Machine.follows_pushScope _)
  | forLoop initialised =>
    have hinit := initialised.follows fun fuel => Run.forInit_steady (ctx.calls_steady fuel) _
    exact .inl ((Machine.follows_pushScope _).trans hinit)
  | right evaluated | others evaluated | switch evaluated =>
    exact .inl (evaluated.follows fun fuel => Run.eval_steady (ctx.calls_steady fuel) _)
  | onTrue evaluated | onFalse evaluated =>
    exact .inl (evaluated.follows fun fuel => Run.condition_steady (ctx.calls_steady fuel) _)
  | round holds =>
    exact .inl (holds.follows fun fuel => Run.guard_steady (ctx.calls_steady fuel) _)
  | step holds executed =>
    have hguard := holds.follows fun fuel => Run.guard_steady (ctx.calls_steady fuel) _
    exact .inl (hguard.trans (executed.follows fun fuel => Run.exec_steady (ctx.calls_steady fuel) _ _))
  | again holds executed stepped =>
    have hguard := holds.follows fun fuel => Run.guard_steady (ctx.calls_steady fuel) _
    have hbody := executed.follows fun fuel => Run.exec_steady (ctx.calls_steady fuel) _ _
    have hstep := stepped.follows fun fuel => Run.effect_steady (ctx.calls_steady fuel) _
    exact .inl (hguard.trans (hbody.trans hstep))
  | fallThrough executed =>
    exact .inl (executed.follows fun fuel => Run.execAll_steady (ctx.calls_steady fuel) _ _)
  | tail executed =>
    exact .inl (executed.follows fun fuel => Run.exec_steady (ctx.calls_steady fuel) _ _)
  -- the part is the first to be evaluated, on the machine as it is
  | _ => exact .inl (.refl _)

/-- A step of a run keeps within the limit. -/
theorem Enters.depth_le (h : Enters p ctx x y) (hx : x.machine.env.depth ≤ ctx.maxDepth) :
    y.machine.env.depth ≤ ctx.maxDepth := by
  rcases h.moves with hfollows | ⟨m, -, hbelow, hopens⟩
  · rw [hfollows.depth]
    exact hx
  · rw [hopens.depth]
    exact hbelow

end Point

theorem Program.Starts.depth_le {p : Program} {ctx : Context} {done : List Item} {x : Point}
    (h : p.Starts ctx done x) : x.machine.env.depth ≤ ctx.maxDepth := by
  cases h with
  | global _ initialised =>
    have hglobals := initialised.follows fun fuel => Run.declareAll_steady (ctx.calls_steady fuel) _
    exact Nat.le_trans (Nat.le_of_eq hglobals.depth) (Nat.zero_le _)
  | main _ _ _ _ entered =>
    obtain ⟨hbelow, hopens⟩ := ctx.enter_value entered
    rw [hopens.depth]
    exact hbelow

/-- No point of a run has more calls in progress than the limit allows. -/
theorem Program.Reaches.depth_le {p : Program} {ctx : Context} {done : List Item} {x : Point}
    (h : p.Reaches ctx done x) : x.machine.env.depth ≤ ctx.maxDepth := by
  obtain ⟨start, hstart, hpath⟩ := h
  induction hpath with
  | refl => exact hstart.depth_le
  | tail _ hstep ih => exact hstep.depth_le ih

/-! ## Whole runs -/

theorem Run.Steady.depth_eq {x : Run α} (h : Run.Steady x) {m m' : Machine}
    (hx : (x m).machine? = some m') : m'.env.depth = m.env.depth :=
  (Outcome.Satisfies.machine (h m) hx).depth

/-- What a smaller limit, in `c₁`, does to the runs of a program under a larger one, in `c₂`. -/
structure Program.Limited (p : Program) (sink : Sink) (c₁ c₂ : Config) : Prop where
  /-- No point of a run has more frames than the limit allows … -/
  reached : ∀ done x, p.Reaches (.ofProgram p c₁.maxDepth sink) done x →
    x.machine.env.depth ≤ c₁.maxDepth
  /-- … and whatever is executed there leaves as many frames behind, also after an error. -/
  left : ∀ done x, p.Reaches (.ofProgram p c₁.maxDepth sink) done x → ∀ fuel m,
    (x.task.run ((Context.ofProgram p c₁.maxDepth sink).calls fuel) fuel x.machine).machine? = some m →
      m.env.depth = x.machine.env.depth
  ended : ∀ fuel m, (p.run c₁ sink fuel).machine? = some m → m.env.depth = 0
  /-- A run that is not refused a call is the same run under the larger limit. -/
  same : ∀ fuel, (∀ limit pos m, p.run c₁ sink fuel ≠ .error (.stackOverflow limit pos) m) →
    p.run c₂ sink fuel = p.run c₁ sink fuel
  /-- A run that is refused one has printed what the run under the larger limit prints first. -/
  cut : ∀ fuel limit pos m, p.run c₁ sink fuel = .error (.stackOverflow limit pos) m →
    ∀ fuel' m', (p.run c₂ sink fuel').machine? = some m' →
      ∃ more, m'.transcript.output = m.transcript.output ++ more

namespace Program

variable {p : Program} {sink : Sink} {c₁ c₂ : Config}

/-- The run under the smaller limit is the run under the larger one, cut short. -/
theorem run_cutAt (h : c₁.maxDepth ≤ c₂.maxDepth) (h₁ : c₁.refusal? = none)
    (h₂ : c₂.refusal? = none) (fuel : Nat) :
    (p.run c₁ sink fuel).CutAt c₁.maxDepth (p.run c₂ sink fuel) := by
  rw [run_of_stack h₁, run_of_stack h₂]
  exact ((p.execute_cuts (.ofProgram p c₁.maxDepth sink) h fuel).cut .fresh).cutAt

/-- If the host grants both stacks, the limit on nested calls only cuts runs short. -/
theorem limited_of_maxDepth_le (h : c₁.maxDepth ≤ c₂.maxDepth) (h₁ : c₁.refusal? = none)
    (h₂ : c₂.refusal? = none) : p.Limited sink c₁ c₂ := by
  constructor
  case reached =>
    intro done x hr
    exact hr.depth_le
  case left =>
    intro done x _ fuel m hm
    exact (Task.run_steady (Context.calls_steady _ fuel) fuel x.task).depth_eq hm
  case ended =>
    intro fuel m hm
    rw [run_of_stack h₁] at hm
    exact (p.execute_steady _ fuel).depth_eq hm
  case same =>
    intro fuel hnot
    rcases run_cutAt h h₁ h₂ fuel with hsame | ⟨pos, m, hcut, -⟩
    · exact hsame.symm
    · exact absurd hcut (hnot _ pos m)
  case cut =>
    intro fuel limit pos m hover fuel' m' hend
    -- give both runs the fuel of the longer one: neither changes
    have hover' := (p.run_mono c₁ sink (Nat.le_max_left fuel fuel')).eq (by rw [hover]; nofun)
    have hend' := (p.run_mono c₂ sink (Nat.le_max_right fuel fuel')).eq
      (Outcome.ne_pending_of_machine? hend)
    rw [hover] at hover'
    rw [← hend'] at hend
    rcases run_cutAt h h₁ h₂ (max fuel fuel') with hsame | ⟨pos', m₁, hcut, hon⟩
    · rw [← hsame, hover'] at hend
      cases hend
      exact ⟨"", by simp⟩
    · rw [hover'] at hcut
      cases hcut
      exact (hon.before hend).output

end Program

/-- A function that prints its argument and calls itself with the argument less one, down to zero. -/
def countDown : Program :=
  let n : Expr := .var "n" .start
  let one : Expr := .literal (.int 1) .start
  let body : List Stmt :=
    [.eval (.call printName [.literal (.string "%d") .start, n] .start) .start,
      .branch n (.ret (some (.call "down" [.binary .sub n one .start] .start)) .start) none .start,
      .ret (some n) .start]
  ⟨"p",
    [.function
      { name := "down", params := [⟨"n", .int, .start⟩], returns := .int, body, bodyPos := .start,
        pos := .start },
      .function
      { name := mainName, params := [], returns := .int,
        body := [.ret (some (.call "down" [.literal (.int 3) .start] .start)) .start],
        bodyPos := .start, pos := .start }],
    .start⟩

/-- With three calls allowed, `main` and two of the calls that it leads to, the run is cut short. -/
theorem countDown_limited :
    (countDown.run ⟨3, none, .generous⟩ .unbounded 9).machine?.map (fun m => m.transcript.output) =
      some "32" ∧
    (countDown.run ⟨5, none, .generous⟩ .unbounded 9).machine?.map (fun m => m.transcript.output) =
      some "3210" ∧
    countDown.Limited .unbounded ⟨3, none, .generous⟩ ⟨5, none, .generous⟩ := by
  refine ⟨by decide +kernel, by decide +kernel, ?_⟩
  exact Program.limited_of_maxDepth_le (by decide) (by decide) (by decide)

end Primer
