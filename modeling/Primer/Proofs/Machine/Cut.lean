import Primer.Proofs.Machine.Steady

/-!
# Runs that are cut short

Two runs of a program may differ in one thing only: the one stops with an error at a point where the
other goes on. No construct catches an error, so a part that is cut short cuts short whatever is around
it, and up to that point the two runs do the same.

- `Outcome.CutShort` compares the outcomes of two such runs. What the errors are that cut a run short,
  and what the other run has recorded when it goes on, is a parameter.
- `Run.cuts_congruence`: this is kept by execution, so only calls have to be looked at.
- `Program.execute_cuts_of`: the rule for whole runs.
-/

namespace Primer

variable {α β : Type}

/-- Which errors cut a run short. `stop e t t'` says that the run may stop with `e` when it has recorded
`t`, and that the other run goes on from `t'` there. -/
abbrev CutRule := RuntimeError → Transcript → Transcript → Prop

/-- `o` is `o'`, unless `o` is an error that cuts it short; then `o'` went on. -/
def Outcome.CutShort (stop : CutRule) (o o' : Outcome α) : Prop :=
  o = o' ∨ ∃ e m t, o = .error e m ∧ stop e m.transcript t ∧ o'.GoesOn t

namespace Run

variable {stop : CutRule}

/-- `x` is `y`, cut short; `y` only adds to the transcript. -/
structure Cuts (stop : CutRule) (x y : Run α) : Prop where
  cut : ∀ m, (x m).CutShort stop (y m)
  grows : ∀ m, (y m).GoesOn m.transcript

theorem Steady.cuts {x : Run α} (h : Steady x) : Cuts stop x x :=
  ⟨fun _ => .inl rfl, h.goesOn⟩

theorem Cuts.bind {x y : Run α} {f g : α → Run β} (hx : Cuts stop x y)
    (hf : ∀ a, Cuts stop (f a) (g a)) : Cuts stop (x >>= f) (y >>= g) := by
  refine ⟨fun m => ?_, fun m => bind_goesOn (hx.grows m) fun a => (hf a).grows⟩
  rcases hx.cut m with hsame | ⟨e, m₁, t, hcut, hstop, hon⟩
  · rw [bind_apply, bind_apply, hsame]
    cases y m with
    | value a m₁ => exact (hf a).cut m₁
    | error e m₁ => exact .inl rfl
    | pending => exact .inl rfl
  · -- the second part is never reached, and in `y` it only adds to the transcript
    exact .inr ⟨e, m₁, t, bind_error hcut, hstop, bind_goesOn hon fun a => (hf a).grows⟩

theorem Cuts.closing {close : Environment → Environment} {x y : Run α} (h : Cuts stop x y) :
    Cuts stop (closing close x) (closing close y) := by
  refine ⟨fun m => ?_, fun m => closing_satisfies (h.grows m)⟩
  rcases h.cut m with hsame | ⟨e, m₁, t, hcut, hstop, hon⟩
  · exact .inl (closing_congr hsame)
  · exact .inr ⟨e, _, t, closing_error hcut, hstop, closing_satisfies hon⟩

theorem cuts_congruence (stop : CutRule) : Congruence (Cuts stop) where
  plain h := h.immediate.steady.cuts
  read name pos := (steady_congruence.read name pos).cuts
  assign name v pos := (steady_congruence.assign name v pos).cuts
  define name type v := (steady_congruence.define name type v).cuts
  seq hx hf := hx.bind hf
  scope hx := ⟨fun _ => hx.closing.cut _, fun m => hx.closing.grows { m with env := m.env.pushScope }⟩

theorem cuts_loops (stop : CutRule) (fuel : Nat) : Congruence.Loops (Cuts stop) fuel fuel :=
  (cuts_congruence stop).loops (Steady.cuts fun _ => trivial) fuel

end Run

namespace Context

variable {stop : CutRule} {ctx ctx' : Context}

/-- The part of a call that comes after entering the function. -/
theorem body_cuts {fuel : Nat}
    (hcalls : Run.Congruence.Calls (Run.Cuts stop) (ctx.calls fuel) (ctx'.calls fuel))
    (f : FunctionDef) (pos : Position) :
    Run.Cuts stop
      (Run.closing .popFrame (Run.execAll (ctx.calls fuel) (fuel + 1) f.body) >>= fun flow =>
        Run.result f flow pos)
      (Run.closing .popFrame (Run.execAll (ctx'.calls fuel) (fuel + 1) f.body) >>= fun flow =>
        Run.result f flow pos) := by
  have hbody := (Run.cuts_congruence stop).execAll hcalls (Run.cuts_loops stop (fuel + 1)) f.body
  exact hbody.closing.bind fun flow => (Run.result_immediate f flow pos).steady.cuts

end Context

namespace Program

variable {stop : CutRule} {ctx ctx' : Context} {fuel : Nat}

/-- Whole runs in two contexts: the globals, the call of `main` and the end of the sink. -/
theorem execute_cuts_of (p : Program)
    (hcalls : Run.Congruence.Calls (Run.Cuts stop) (ctx.calls fuel) (ctx'.calls fuel))
    (hcall : ∀ f args pos, Run.Cuts stop (ctx.call fuel f args pos) (ctx'.call fuel f args pos))
    (hflush : ∀ pos, Run.Cuts stop (Run.flush ctx.sink pos) (Run.flush ctx'.sink pos)) :
    Run.Cuts stop (p.execute ctx fuel) (p.execute ctx' fuel) := by
  refine ((Run.cuts_congruence stop).declareAll hcalls p.globals).bind fun _ => ?_
  rcases p.callMain_cases with ⟨e, -, hfail⟩ | ⟨f, -, -, hmain⟩
  · rw [hfail, hfail]
    exact (Run.Immediate.error e).steady.cuts
  · rw [hmain, hmain]
    exact (hcall f [] f.pos).bind fun v => (Run.record_steady _).cuts.bind fun _ => hflush f.pos

end Program

end Primer
