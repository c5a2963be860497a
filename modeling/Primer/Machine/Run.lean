import Primer.Machine.Config
import Primer.Machine.Execution

/-!
# Running programs

A run initialises the globals in source order, then calls `main` and brings the sink to an end.
Globals come first: a program without `main` still evaluates their initial values.

- `Program.execute` is a run on a given machine.
- `Program.run` is a run from the start, if the host gives it a stack.
-/

namespace Primer

/-- What stays the same during a run of a program. -/
def Context.ofProgram (p : Program) (maxDepth : Nat) (sink : Sink) : Context :=
  ⟨p.functions.reverse, maxDepth, sink⟩

namespace Run

/-- Brings the sink to an end. -/
def flush (sink : Sink) (pos : Position) : Run Unit :=
  fun m =>
    match sink.flushRefusal? m.transcript with
    | some reason => .error (.output reason pos) m
    | none => .value () m

/-- Declares variables in order. -/
def declareAll (call : Call) : List VarDecl → Run Unit
  | [] => return ()
  | d :: rest => do
    declare call d
    declareAll call rest

end Run

namespace Program

/-- Calls `main` and brings the sink to an end. -/
def callMain (p : Program) (ctx : Context) (fuel : Nat) : Run Unit :=
  match p.function? mainName with
  | none => Run.fail (.missingMain p.name)
  | some f =>
    if f.params.isEmpty then do
      let v ← ctx.call fuel f [] f.pos
      Run.record (.returned v)
      Run.flush ctx.sink f.pos
    else Run.fail (.mainParameters f.pos)

/-- Initialises the globals and calls `main`. -/
def execute (p : Program) (ctx : Context) (fuel : Nat) : Run Unit := do
  Run.declareAll (ctx.calls fuel) p.globals
  p.callMain ctx fuel

/-- Runs a program from the start. -/
def run (p : Program) (config : Config) (sink : Sink) (fuel : Nat) : Outcome Unit :=
  match config.refusal? with
  | some reason => .error (.stackRefused config.evaluationStack reason) .fresh
  | none => p.execute (.ofProgram p config.maxDepth sink) fuel .fresh

end Program

end Primer
