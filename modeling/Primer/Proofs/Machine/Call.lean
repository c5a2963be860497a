import Primer.Machine.Run
import Primer.Proofs.Machine.Outcome

/-!
# The two halves of a call

A call first enters the function: it checks its arguments, opens a frame and declares the parameters.
Then it executes the body and closes the frame again, also after an error.

- `Context.enter` is the first half.
- `Context.call_succ` puts the halves together.
- `Program.callMain_cases` is about the one call that a run makes by itself.
-/

namespace Primer

namespace Run

/-- Declaring parameters always succeeds. -/
theorem bindParams_eq : ∀ (params : List Param) (args : List Value) (m : Machine),
    ∃ env, bindParams params args m = .value () { m with env := env }
  | [], _, m => ⟨m.env, rfl⟩
  | _ :: _, [], m => ⟨m.env, rfl⟩
  | p :: params, v :: args, m => by
    obtain ⟨env, h⟩ := bindParams_eq params args { m with env := m.env.define p.name p.type v }
    exact ⟨env, h⟩

end Run

namespace Context

variable (ctx : Context)

/-- Starts a call: opens a frame and declares the parameters in it. -/
def enter (f : FunctionDef) (args : List Value) (pos : Position) : Run Unit := do
  if ctx.maxDepth ≤ (← Run.env).depth then Run.fail (.stackOverflow ctx.maxDepth pos)
  else if args.length ≠ f.params.length then
    Run.fail (.argumentCount f.name f.params.length args.length pos)
  else
    let stored ← Run.coerceArgs pos f.params args
    Run.modifyEnv .pushFrame
    Run.record (.called f.name (← Run.env).depth)
    Run.bindParams f.params stored

/-- A call is its first half, the body in the frame that was opened, and the result. -/
theorem call_succ (fuel : Nat) (f : FunctionDef) (args : List Value) (pos : Position) :
    ctx.call (fuel + 1) f args pos = (do
      ctx.enter f args pos
      let flow ← Run.closing .popFrame (Run.execAll (ctx.calls fuel) (fuel + 1) f.body)
      Run.result f flow pos) := by
  funext m
  rw [call, enter, Run.env_bind_apply, Run.bind_apply (x := _ >>= _), Run.env_bind_apply]
  split
  · rfl
  · split
    · rfl
    · rw [Run.bind_apply, Run.bind_apply]
      cases Run.coerceArgs pos f.params args m with
      | error e m₁ => rfl
      | pending => rfl
      | value stored m₁ =>
        -- declaring the parameters cannot fail, so the frame is closed after the body only
        let m₂ : Machine := ⟨m₁.env.pushFrame,
          m₁.transcript.record (.called f.name m₁.env.pushFrame.depth)⟩
        obtain ⟨env, henv⟩ := Run.bindParams_eq f.params stored m₂
        have hbody : Run.inFrame (do
              Run.record (.called f.name (← Run.env).depth)
              Run.bindParams f.params stored
              Run.execAll (ctx.dispatch (ctx.call fuel)) (fuel + 1) f.body) m₁ =
            Run.closing .popFrame (Run.execAll (ctx.calls fuel) (fuel + 1) f.body)
              { m₂ with env := env } :=
          Run.closing_congr (m := { m₁ with env := m₁.env.pushFrame }) (Run.bind_value henv)
        have henter : (Run.modifyEnv .pushFrame >>= fun _ => Run.env >>= fun env =>
            Run.record (.called f.name env.depth) >>= fun _ => Run.bindParams f.params stored) m₁ =
            .value () { m₂ with env := env } := henv
        dsimp only
        rw [Run.bind_apply, hbody, henter]
        rfl

end Context

/-- The last part of a run: there is no `main` to call, or it is called and the sink is brought to an
end. -/
theorem Program.callMain_cases (p : Program) :
    (∃ e, (e = .missingMain p.name ∨ ∃ pos, e = .mainParameters pos) ∧
      ∀ ctx fuel, p.callMain ctx fuel = Run.fail e) ∨
    ∃ f, p.function? mainName = some f ∧ f.params.isEmpty = true ∧
      ∀ ctx fuel, p.callMain ctx fuel = ctx.call fuel f [] f.pos >>= fun v =>
        Run.record (.returned v) >>= fun _ => Run.flush ctx.sink f.pos := by
  cases hf : p.function? mainName with
  | none =>
    refine .inl ⟨_, .inl rfl, fun ctx fuel => ?_⟩
    rw [callMain, hf]
  | some f =>
    by_cases hparams : f.params.isEmpty = true
    · refine .inr ⟨f, rfl, hparams, fun ctx fuel => ?_⟩
      rw [callMain, hf]
      exact if_pos hparams
    · refine .inl ⟨.mainParameters f.pos, .inr ⟨f.pos, rfl⟩, fun ctx fuel => ?_⟩
      rw [callMain, hf]
      exact if_neg hparams

theorem Program.run_of_stack {p : Program} {config : Config} {sink : Sink} (h : config.refusal? = none)
    (fuel : Nat) : p.run config sink fuel = p.execute (.ofProgram p config.maxDepth sink) fuel .fresh := by
  unfold run
  rw [h]

end Primer
