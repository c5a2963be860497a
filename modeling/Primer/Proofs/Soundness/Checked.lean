import Primer.Proofs.Grammar.Sound
import Primer.Proofs.Soundness.Reach
import Primer.Proofs.Stages

/-!
# Type soundness

A source text that is accepted runs without the errors that the static rules exclude, whatever the
configuration and the sink.

- `Program.Safe` states what holds of all runs of a program.
- `checkSource_safe`: it holds of every program that is accepted.
-/

namespace Primer

/-- Errors that the static rules exclude altogether: a call of an unknown function, a wrong number of
arguments, a value of a wrong type. -/
def RuntimeError.isStatic : RuntimeError → Bool
  | .unknownFunction _ _ | .argumentCount _ _ _ _ | .type _ _ => true
  | _ => false

/-- The error is a variable that is not there. -/
def RuntimeError.isUnknownVariable : RuntimeError → Bool
  | .unknownVariable _ _ => true
  | _ => false

/-- All variables: the globals and those of every call in progress. -/
def Environment.slots (env : Environment) : List Slot :=
  (env.globals ++ env.frames.flatten.flatten).map Prod.snd

/-- No variable has the type `void`. -/
def Machine.NoVoid (m : Machine) : Prop :=
  ∀ s ∈ m.env.slots, s.type ≠ .void

/-- What holds of all runs of a program. -/
structure Program.Safe (p : Program) (config : Config) (sink : Sink) : Prop where
  /-- No run fails with an error that the static rules exclude. -/
  noStaticError : ∀ fuel e m, p.run config sink fuel = .error e m → e.isStatic = false
  /-- Once all globals are initialised, every variable is there. -/
  noUnknownVariable : ∀ fuel m, Run.declareAll ((Context.ofProgram p config.maxDepth sink).calls fuel)
    p.globals .fresh = .value () m → ∀ fuel' e m',
      p.callMain (.ofProgram p config.maxDepth sink) fuel' m = .error e m' →
        e.isUnknownVariable = false
  /-- Wherever a run evaluates an expression, the checker gave it a type there, and every value that
  it evaluates to is of that type. -/
  typed : ∀ done c r e m, p.Reaches (.ofProgram p config.maxDepth sink) done ⟨c, r, .expr e, m⟩ →
    ∃ t, ((Check.expr e).run c).1 = some t ∧ ∀ fuel v m',
      Run.eval ((Context.ofProgram p config.maxDepth sink).calls fuel) e m = .value v m' → v.type = t
  /-- No variable has the type `void` at any point of a run … -/
  noVoid : ∀ done x, p.Reaches (.ofProgram p config.maxDepth sink) done x → x.machine.NoVoid
  /-- … nor on any machine that is left behind there, or at the end of the run. -/
  noVoidAfter : ∀ done x, p.Reaches (.ofProgram p config.maxDepth sink) done x → ∀ fuel m,
    (x.task.run ((Context.ofProgram p config.maxDepth sink).calls fuel) fuel x.machine).machine? =
      some m → m.NoVoid
  noVoidAtEnd : ∀ fuel m, (p.run config sink fuel).machine? = some m → m.NoVoid

/-- What holds of all variables, scope by scope, holds of each. -/
theorem Environment.All.slots {P : Slot → Prop} {env : Environment} (h : env.All P) :
    ∀ s ∈ env.slots, P s := by
  intro s hs
  simp only [Environment.slots, List.map_append, List.mem_append, List.mem_map,
    List.mem_flatten] at hs
  rcases hs with ⟨b, hb, rfl⟩ | ⟨b, ⟨D, ⟨F, hF, hD⟩, hb⟩, rfl⟩
  · exact h.globals b hb
  · exact h.frames F hF D hD b hb

theorem Environment.Ok.noVoid {m : Machine} (h : m.env.Ok) : m.NoVoid :=
  fun s hs => ((Environment.ok_iff.mp h).slots s hs).2

theorem Outcome.Satisfies.noVoid {α : Type} {o : Outcome α} {m : Machine}
    (h : o.Satisfies (fun _ m' => m'.env.Ok) (fun _ m' => m'.env.Ok)) (hm : o.machine? = some m) :
    m.NoVoid := by
  cases o with
  | value a m' =>
    cases hm
    exact Environment.Ok.noVoid h
  | error e m' =>
    cases hm
    exact Environment.Ok.noVoid h
  | pending => cases hm

theorem RuntimeError.Allowed.isStatic {G I : TypeScope} {e : RuntimeError} (h : e.Allowed G I) :
    e.isStatic = false := by
  cases e <;> first | rfl | cases h

/-- With all globals initialised no variable is missing. -/
theorem RuntimeError.Allowed.isUnknownVariable {G : TypeScope} {e : RuntimeError}
    (h : e.Allowed G G) : e.isUnknownVariable = false := by
  cases e with
  | unknownVariable name pos =>
    obtain ⟨hnone, hsome⟩ := h
    rw [hnone] at hsome
    cases hsome
  | _ => rfl

namespace Program

variable {p : Program} {G : TypeScope}

/-- A whole run: it ends with slots that are in order, and its errors are allowed while some of the
globals are initialised. -/
theorem run_sound (hp : p.Ok) (hitems : Item.ListOk p.signatures [] p.items G) (config : Config)
    (sink : Sink) (fuel : Nat) :
    (p.run config sink fuel).Satisfies (fun _ m => m.env.Ok) (fun e m => ∃ I, Stops G I e m) := by
  have hctx := Context.ofProgram_ok hp.distinct hitems config.maxDepth sink
  have hmeant := Context.function?_ofProgram hp.distinct config.maxDepth sink
  unfold run
  split
  · exact ⟨[], trivial, (Environment.atGlobals_empty G).sound.ok⟩
  · refine Run.bind_satisfies (globals_sound hctx hitems fuel) fun _ m hm => ?_
    exact (callMain_sound hctx hmeant fuel hm).imp (fun _ m' h => h.sound.ok)
      fun e m' h => ⟨G, h⟩

/-- A program that keeps the static rules is safe. -/
theorem Ok.safe (hp : p.Ok) (config : Config) (sink : Sink) : p.Safe config sink := by
  obtain ⟨G, hitems⟩ := hp.items
  have hctx := Context.ofProgram_ok hp.distinct hitems config.maxDepth sink
  have hmeant := Context.function?_ofProgram hp.distinct config.maxDepth sink
  -- the three facts about points share one: every point that a run comes to is well typed
  have hreach : ∀ {done : List Item} {x : Point},
      p.Reaches (.ofProgram p config.maxDepth sink) done x → ∃ I, x.Ok p.signatures G I := by
    intro done x hr
    obtain ⟨I, -, hx⟩ := hr.ok hp hitems hctx
    exact ⟨I, hx⟩
  constructor
  case noStaticError =>
    intro fuel e m he
    have hrun := run_sound hp hitems config sink fuel
    rw [he] at hrun
    obtain ⟨I, hstops⟩ := hrun
    exact hstops.allowed.isStatic
  case noUnknownVariable =>
    intro fuel m hinit fuel' e m' he
    have hglobals := globals_sound hctx hitems fuel
    rw [hinit] at hglobals
    have hmain := callMain_sound hctx hmeant fuel' hglobals
    rw [he] at hmain
    exact hmain.allowed.isUnknownVariable
  case typed =>
    intro done c r e m hr
    obtain ⟨I, hx⟩ := hreach hr
    obtain ⟨t, typed⟩ := hx.task
    -- the type of the rules is the one that the checker gives in its own state
    obtain ⟨-, -, ht, -⟩ := Check.expr_accepts hx.valid typed
    refine ⟨t, ht, fun fuel v m' hv => ?_⟩
    have heval := Run.eval_sound (Point.calls_sound_at hctx hx fuel) typed hx.agrees
    rw [hv] at heval
    exact heval.1
  case noVoid =>
    intro done x hr
    obtain ⟨I, hx⟩ := hreach hr
    exact hx.agrees.sound.ok.noVoid
  case noVoidAfter =>
    intro done x hr fuel m hm
    obtain ⟨I, hx⟩ := hreach hr
    exact ((hx.run_ok hctx fuel).imp (fun _ _ h => h) fun _ _ h => h.ok).noVoid hm
  case noVoidAtEnd =>
    intro fuel m hm
    exact ((run_sound hp hitems config sink fuel).imp (fun _ _ h => h)
      fun _ _ ⟨_, h⟩ => h.ok).noVoid hm

end Program

/-! ## Source texts -/

/-- The program of an accepted source text keeps the static rules. -/
theorem ok_of_checkSource {source : String} {checked : CheckedProgram}
    (h : checkSource source = .ok checked) : checked.program.Ok := by
  obtain ⟨tokens, -, hparse, hcheck⟩ := checkSource_eq_ok h
  obtain ⟨rest, hreads, -⟩ := reads_of_parse hparse
  exact Program.ok_of_check hreads.closed hcheck

/-- Type soundness: the runs of an accepted source text are safe, for every configuration and every
sink. -/
theorem checkSource_safe {source : String} {checked : CheckedProgram}
    (h : checkSource source = .ok checked) (config : Config) (sink : Sink) :
    checked.program.Safe config sink :=
  (ok_of_checkSource h).safe config sink

/-- A text whose first global calls a function that stands behind it. -/
def forwardCall : String :=
  "Program p; int n = twice(4); int twice(int x) { return x + x; } int main() { return n; }"

theorem forwardCall_safe :
    ∃ checked, checkSource forwardCall = .ok checked ∧
      ∀ config sink, checked.program.Safe config sink := by
  have haccepted : (checkSource forwardCall).isOk = true := by decide +kernel
  cases h : checkSource forwardCall with
  | ok checked => exact ⟨checked, rfl, fun config sink => checkSource_safe h config sink⟩
  | error e =>
    rw [h] at haccepted
    cases haccepted

end Primer
