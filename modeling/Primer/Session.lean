import Primer.Interpreter

/-!
# Sessions

A session works on one machine step by step: it evaluates expressions, executes statements, calls
functions of its program and looks at variables. The program is read but not checked, and its globals
exist only once a step declares them. An error ends its step, not the session.
-/

namespace Primer

namespace Session

/-- A request to a session. -/
inductive Step where
  /-- Declare the globals of the program. -/
  | globals
  | eval (source : String)
  | exec (source : String)
  | call (name : String) (args : List Value)
  | get (name : String)
  | pushFrame
  | popFrame
  deriving DecidableEq, Repr

/-- The answer to a request. -/
inductive Answer where
  /-- There is nothing to tell. -/
  | silent
  /-- The globals are declared. -/
  | declared
  | value (v : Value)
  | flow (f : Flow)
  | variable_ (v : Option Value)
  /-- There is no function of this name. -/
  | noFunction
  | failed (e : Failure)
  /-- The fuel was used up. -/
  | pending
  deriving DecidableEq, Repr

/-- The position that stands for a call that no source text makes. -/
def callPos : Position := ⟨99, 7⟩

/-- The answer for what a computation comes to, and the machine it leaves. After a computation that
is pending the machine is as before it. -/
def settle {α : Type} (answer : α → Answer) (before : Machine) : Outcome α → Answer × Machine
  | .value a m => (answer a, m)
  | .error e m => (.failed (.runtime e), m)
  | .pending => (.pending, before)

/-- Performs a request. -/
def perform (p : Program) (ctx : Context) (fuel : Nat) (m : Machine) : Step → Answer × Machine
  | .globals => settle (fun _ => .declared) m (Run.declareAll (ctx.calls fuel) p.globals m)
  | .eval source =>
    match parseExpression source with
    -- what stands behind the expression is not looked at
    | .ok (e, _) => settle .value m (Run.eval (ctx.calls fuel) e m)
    | .error e => (.failed e, m)
  | .exec source =>
    match parseBlockItem source with
    | .ok (s, _) => settle .flow m (Run.exec (ctx.calls fuel) fuel s m)
    | .error e => (.failed e, m)
  | .call name args =>
    match p.function? name with
    | some f => settle .value m (ctx.call fuel f args callPos m)
    | none => (.noFunction, m)
  | .get name => (.variable_ (m.env.value? name), m)
  | .pushFrame => (.silent, { m with env := m.env.pushFrame })
  | .popFrame => (.silent, { m with env := m.env.popFrame })

/-- What a step of a session shows. -/
structure Shown where
  answer : Answer
  /-- The number of calls in progress after the step. -/
  depth : Nat
  /-- What was printed during the step. -/
  output : String
  deriving DecidableEq, Repr

/-- Performs requests one after the other. -/
def performAll (p : Program) (ctx : Context) (fuel : Nat) : Machine → List Step → List Shown
  | _, [] => []
  | m, step :: steps =>
    let (answer, after) := perform p ctx fuel m step
    let shown : Shown :=
      ⟨answer, after.env.depth, (after.transcript.since m.transcript).output⟩
    shown :: performAll p ctx fuel after steps

/-- A session on the program that `source` spells. -/
def run (source : String) (maxDepth : Nat) (sink : Sink) (fuel : Nat) (steps : List Step) :
    Except Failure (List Shown) := do
  let p ← parseSource source
  return performAll p (.ofProgram p maxDepth sink) fuel .fresh steps

end Session

end Primer
