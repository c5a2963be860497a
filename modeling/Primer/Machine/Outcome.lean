import Primer.Machine.Environment
import Primer.Machine.Error
import Primer.Machine.Transcript

/-!
# Computations on a machine

The state of a run is a `Machine`: its variables and its transcript. A computation either gives a
value, stops with an error, or is still pending when its fuel is used up. Values and errors come with
the machine they leave behind: an error undoes nothing but the scopes and frames it passes through.

- `Outcome` is what a computation comes to, and `Run` is the monad of computations.
- `Run.inScope` and `Run.inFrame` close what they open on the way out, also after an error.
-/

namespace Primer

/-- The state of a run. -/
structure Machine where
  env : Environment
  transcript : Transcript
  deriving DecidableEq, Repr

/-- A machine on which nothing has run. -/
def Machine.fresh : Machine := ⟨.empty, .empty⟩

/-- What a computation comes to. -/
inductive Outcome (α : Type) where
  | value (a : α) (m : Machine)
  | error (e : RuntimeError) (m : Machine)
  /-- The fuel was used up first. -/
  | pending
  deriving DecidableEq, Repr

/-- A computation on a machine. -/
def Run (α : Type) : Type :=
  Machine → Outcome α

namespace Run

variable {α β : Type}

/-- Gives a value and leaves the machine alone. -/
@[inline] protected def pure (a : α) : Run α :=
  fun m => .value a m

/-- Runs `x`, and then `f` of its value. -/
@[inline] protected def bind (x : Run α) (f : α → Run β) : Run β :=
  fun m =>
    match x m with
    | .value a m => f a m
    | .error e m => .error e m
    | .pending => .pending

instance : Monad Run where
  pure := Run.pure
  bind := Run.bind

/-- Stops with an error. -/
def fail (e : RuntimeError) : Run α :=
  fun m => .error e m

/-- Has no fuel left. -/
def pending : Run α :=
  fun _ => .pending

/-- The value, if there is one, and `e` otherwise. -/
def orFail (a? : Option α) (e : RuntimeError) : Run α :=
  match a? with
  | some a => pure a
  | none => fail e

/-- The variables of the machine. -/
def env : Run Environment :=
  fun m => .value m.env m

/-- Changes the variables of the machine. -/
def modifyEnv (f : Environment → Environment) : Run Unit :=
  fun m => .value () { m with env := f m.env }

/-- Adds an event to the transcript. -/
def record (e : Event) : Run Unit :=
  fun m => .value () { m with transcript := m.transcript.record e }

/-- Runs `x` and then changes the variables with `close`, whether `x` gives a value or an error. -/
def closing (close : Environment → Environment) (x : Run α) : Run α :=
  fun m =>
    match x m with
    | .value a m => .value a { m with env := close m.env }
    | .error e m => .error e { m with env := close m.env }
    | .pending => .pending

/-- Runs `x` in a scope of its own. -/
def inScope (x : Run α) : Run α := do
  modifyEnv .pushScope
  closing .popScope x

/-- Runs `x` in a frame of its own. -/
def inFrame (x : Run α) : Run α := do
  modifyEnv .pushFrame
  closing .popFrame x

/-- Hands a text to the sink. -/
def write (sink : Sink) (text : String) (pos : Position) : Run Unit :=
  fun m =>
    match sink.write? m.transcript text with
    | some reason => .error (.output reason pos) m
    | none => .value () { m with transcript := m.transcript.record (.printed text pos) }

end Run

end Primer
