import Primer.Proofs.Machine.Fuel
import Primer.Proofs.Machine.Shape

/-!
# Programs without loops

Only two things can keep a run going: a loop that goes round, and a call that leads to another call. Each
call opens a frame, and frames are limited, so a program without loops comes to an end however its
functions call each other. Bodies do not get smaller along a chain of calls; what gets smaller is the
number of frames that may still be opened, and between two calls only the syntax counts.

- `Run.EndsAt` says that a computation comes to an end when a given number of calls is in progress;
  `Run.endsAt_congruence`: execution keeps that.
- `Context.call_endsAt`: a call ends, if its fuel exceeds the number of frames that are left.
- `Program.execute_ends_of_loopFree` is the statement about runs.
-/

namespace Primer

variable {α β : Type} {depth : Nat}

/-- The outcome is a value or an error, and `depth` calls are in progress. -/
def Outcome.EndsAt (depth : Nat) : Outcome α → Prop
  | .value _ m => m.env.depth = depth
  | .error _ m => m.env.depth = depth
  | .pending => False

theorem Outcome.EndsAt.ne_pending {o : Outcome α} (h : o.EndsAt depth) : o ≠ .pending := by
  rintro rfl
  exact h

namespace Run

/-- With `depth` calls in progress the computation comes to an end, with as many calls in progress. -/
def EndsAt (depth : Nat) (x : Run α) : Prop :=
  ∀ m, m.env.depth = depth → (x m).EndsAt depth

theorem bind_endsAt {x : Run α} {f : α → Run β} {m : Machine} (hx : (x m).EndsAt depth)
    (hf : ∀ a, EndsAt depth (f a)) : ((x >>= f) m).EndsAt depth := by
  rw [bind_apply]
  cases hxm : x m with
  | value a m₁ =>
    rw [hxm] at hx
    exact hf a m₁ hx
  | error e m₁ =>
    rw [hxm] at hx
    exact hx
  | pending =>
    rw [hxm] at hx
    exact hx

theorem EndsAt.bind {x : Run α} {f : α → Run β} (hx : EndsAt depth x) (hf : ∀ a, EndsAt depth (f a)) :
    EndsAt depth (x >>= f) :=
  fun m hm => bind_endsAt (hx m hm) hf

/-- What is closed afterwards may change the number of calls in progress. -/
theorem closing_endsAt {close : Environment → Environment} {depth' : Nat} {x : Run α} {m : Machine}
    (hx : (x m).EndsAt depth)
    (hclose : ∀ env : Environment, env.depth = depth → (close env).depth = depth') :
    (closing close x m).EndsAt depth' := by
  unfold closing
  cases hxm : x m with
  | value a m₁ =>
    rw [hxm] at hx
    exact hclose m₁.env hx
  | error e m₁ =>
    rw [hxm] at hx
    exact hclose m₁.env hx
  | pending =>
    rw [hxm] at hx
    exact hx

theorem EndsAt.inScope {x : Run α} (hx : EndsAt depth x) : EndsAt depth (inScope x) := by
  intro m hm
  have hpush : m.env.pushScope.depth = depth := m.env.pushScope_sameCallers.depth.trans hm
  exact closing_endsAt (hx { m with env := m.env.pushScope } hpush) fun env henv =>
    env.depth_popScope.trans henv

theorem Immediate.endsAt {x : Run α} (h : Immediate x) : EndsAt depth x := by
  intro m hm
  cases h with
  | value a => exact hm
  | error e => exact hm

theorem env_endsAt : EndsAt depth env := fun _ hm => hm

theorem modifyEnv_endsAt {f : Environment → Environment}
    (h : ∀ env : Environment, (f env).depth = env.depth) : EndsAt depth (modifyEnv f) :=
  fun m hm => (h m.env).trans hm

theorem record_endsAt (e : Event) : EndsAt depth (record e) := fun _ hm => hm

theorem write_endsAt (sink : Sink) (text : String) (pos : Position) :
    EndsAt depth (write sink text pos) := by
  intro m hm
  unfold write
  split
  · exact hm
  · exact hm

theorem flush_endsAt (sink : Sink) (pos : Position) : EndsAt depth (flush sink pos) := by
  intro m hm
  unfold flush
  split
  · exact hm
  · exact hm

/-- Whatever is executed without a loop comes to an end, if calls do. -/
theorem endsAt_congruence (depth : Nat) : Congruence fun {α : Type} (_ x : Run α) => EndsAt depth x where
  plain h := h.immediate.endsAt
  read name pos := env_endsAt.bind fun _ => (orFail_immediate _ _).endsAt
  assign name v pos := by
    refine env_endsAt.bind fun _ => (orFail_immediate _ _).endsAt.bind fun type => ?_
    refine (coerce_plain v type pos).immediate.endsAt.bind fun stored => ?_
    refine (modifyEnv_endsAt fun env => ?_).bind fun _ => (Immediate.value stored).endsAt
    exact (env.assign_sameCallers name stored).depth
  define name type v := modifyEnv_endsAt fun env => (env.define_sameCallers name type v).depth
  seq hx hf := hx.bind hf
  scope hx := hx.inScope

end Run

/-! ## Calls -/

namespace Context

variable {ctx : Context} {fuel : Nat}

/-- Calls by name end, if calls of the functions that they mean do. -/
theorem calls_endsAt (h : ∀ f ∈ ctx.functions, ∀ args pos, (ctx.call fuel f args pos).EndsAt depth) :
    ∀ name args pos, (ctx.calls fuel name args pos).EndsAt depth :=
  @Run.EvalCongruence.dispatch_of_mem _ (Run.endsAt_congruence depth).toEvalCongruence ctx ctx
    (ctx.call fuel) (ctx.call fuel) rfl (Run.write_endsAt ctx.sink) h

/-- A body without loops ends, if calls do. -/
theorem body_endsAt {f : FunctionDef} (hf : Stmt.listHasLoop f.body = false)
    (hcalls : ∀ name args pos, (ctx.calls fuel name args pos).EndsAt depth) :
    (Run.execAll (ctx.calls fuel) (fuel + 1) f.body).EndsAt depth := by
  refine @Run.Congruence.execAll_of_loops _ (ctx.calls fuel) (ctx.calls fuel)
    (Run.endsAt_congruence depth) hcalls (fuel + 1) (fuel + 1) f.body fun hloop => ?_
  rw [hf] at hloop
  cases hloop

/-- A call ends, if neither its body nor the functions of the program hold a loop and the fuel exceeds
the number of frames that may still be opened. -/
theorem call_endsAt (hctx : ∀ f ∈ ctx.functions, Stmt.listHasLoop f.body = false) :
    ∀ (fuel depth : Nat), ctx.maxDepth - depth < fuel → ∀ f : FunctionDef,
      Stmt.listHasLoop f.body = false → ∀ args pos, (ctx.call fuel f args pos).EndsAt depth := by
  intro fuel
  induction fuel with
  | zero =>
    intro depth hfuel
    exact absurd hfuel (Nat.not_lt_zero _)
  | succ fuel ih =>
    intro depth hfuel f hf args pos m hm
    rw [call_succ]
    rcases ctx.enter_cases f args pos depth with ⟨e, herror⟩ | ⟨D, hvalue⟩
    · rw [Run.bind_error (herror m hm)]
      exact hm
    -- a frame was opened, so one less is left for the calls of the body
    have hbelow : depth < ctx.maxDepth := hm ▸ (ctx.enter_value (hvalue m hm)).1
    have hfewer : ctx.maxDepth - (depth + 1) < fuel := by omega
    have hbody := body_endsAt hf (calls_endsAt fun g hg => ih (depth + 1) hfewer g (hctx g hg))
    have hopened : (m.openFrame f.name D).env.depth = depth + 1 := congrArg (· + 1) hm
    rw [Run.bind_value (hvalue m hm)]
    refine Run.bind_endsAt (Run.closing_endsAt (hbody _ hopened) fun env henv => ?_) fun flow =>
      (Run.result_immediate f flow pos).endsAt
    show env.frames.tail.length = depth
    rw [List.length_tail]
    exact Nat.sub_eq_of_eq_add henv

end Context

/-! ## Runs -/

namespace Program

variable {p : Program}

theorem LoopFree.functions (h : p.LoopFree) (maxDepth : Nat) (sink : Sink) :
    ∀ f ∈ (Context.ofProgram p maxDepth sink).functions, Stmt.listHasLoop f.body = false :=
  fun f hf => h f (List.mem_reverse.mp hf)

theorem execute_endsAt (h : p.LoopFree) {maxDepth fuel : Nat} (sink : Sink) (hfuel : maxDepth < fuel) :
    (p.execute (.ofProgram p maxDepth sink) fuel).EndsAt depth := by
  let ctx := Context.ofProgram p maxDepth sink
  have hctx : ∀ f ∈ ctx.functions, Stmt.listHasLoop f.body = false := h.functions maxDepth sink
  have hleft : ctx.maxDepth - depth < fuel := Nat.lt_of_le_of_lt (Nat.sub_le maxDepth depth) hfuel
  have hcall := Context.call_endsAt hctx fuel depth hleft
  have hcalls := Context.calls_endsAt fun f hf => hcall f (hctx f hf)
  have hglobals : (Run.declareAll (ctx.calls fuel) p.globals).EndsAt depth :=
    @Run.Congruence.declareAll _ (ctx.calls fuel) (ctx.calls fuel) (Run.endsAt_congruence depth) hcalls
      p.globals
  refine hglobals.bind fun _ => ?_
  rcases p.callMain_cases with ⟨e, -, hfail⟩ | ⟨f, hf, -, hmain⟩
  · rw [hfail]
    exact (Run.Immediate.error e).endsAt
  · rw [hmain]
    have hmem : f ∈ p.functions := List.mem_of_find?_eq_some hf
    refine (hcall f (h f hmem) [] f.pos).bind fun v => (Run.record_endsAt _).bind fun _ => ?_
    exact Run.flush_endsAt sink f.pos

/-- A program without loops comes to an end, with success or with an error, whatever the limit on nested
calls and the sink: from one unit of fuel more than the limit on, more fuel changes nothing. -/
theorem execute_ends_of_loopFree (h : p.LoopFree) (maxDepth : Nat) (sink : Sink) (m : Machine) :
    ∃ o : Outcome Unit, o ≠ .pending ∧
      ∀ fuel, maxDepth < fuel → p.execute (.ofProgram p maxDepth sink) fuel m = o := by
  have hends : (p.execute (.ofProgram p maxDepth sink) (maxDepth + 1) m).EndsAt m.env.depth :=
    execute_endsAt h sink (Nat.lt_succ_self maxDepth) m rfl
  refine ⟨_, hends.ne_pending, fun fuel hfuel => ?_⟩
  exact (p.execute_mono _ hfuel m).eq hends.ne_pending

end Program

/-- A program without loops. Its global is initialised by `f`, which calls itself in a condition and in an
argument, and `main` calls itself for ever. -/
def endlessCalls : Program :=
  let n : Expr := .var "n" .start
  let one : Expr := .literal (.int 1) .start
  let f (e : Expr) : Expr := .call "f" [e] .start
  let lower : Expr := .binary .sub n one .start
  ⟨"p",
    [.global ⟨.int, "g", some (f (.literal (.int 2) .start)), .start⟩,
      .function
      { name := "f", params := [⟨"n", .int, .start⟩], returns := .int,
        body := [.switch n [.mk (some (.int 0)) [.ret (some one) .start] .start,
          .mk none [.branch (f lower) (.ret (some (f (.binary .sub (f lower) one .start))) .start) none
            .start] .start] .start],
        bodyPos := .start, pos := .start },
      .function
      { name := mainName, params := [], returns := .int,
        body := [.ret (some (f (.call mainName [] .start))) .start], bodyPos := .start, pos := .start }],
    .start⟩

/-- The global gets its value; then the run ends with the call that the limit does not allow. -/
theorem endlessCalls_ends : endlessCalls.LoopFree ∧ ∃ o, o ≠ .pending ∧
    (∀ fuel, 5 < fuel → endlessCalls.execute (.ofProgram endlessCalls 5 .unbounded) fuel .fresh = o) ∧
    ∃ m, o = .error (.stackOverflow 5 .start) m ∧ m.env.globals = [("g", ⟨.int, .int 1⟩)] := by
  have hfree : endlessCalls.LoopFree := by decide
  have hrun : (match endlessCalls.execute (.ofProgram endlessCalls 5 .unbounded) 6 .fresh with
      | .error e m => some (e, m.env.globals)
      | _ => none) = some (.stackOverflow 5 .start, [("g", ⟨.int, .int 1⟩)]) := by decide +kernel
  obtain ⟨o, hpending, ho⟩ := Program.execute_ends_of_loopFree hfree 5 .unbounded .fresh
  refine ⟨hfree, o, hpending, ho, ?_⟩
  rw [ho 6 (by decide)] at hrun
  cases o with
  | error e m =>
    obtain ⟨rfl, hglobals⟩ := Prod.mk.inj (Option.some.inj hrun)
    exact ⟨m, rfl, hglobals⟩
  | value _ m => cases hrun
  | pending => cases hrun

end Primer
