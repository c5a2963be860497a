import Primer.Value.Basic

/-!
# Environments

The variables of a run: the globals, and a stack of frames, one for each call in progress. A frame is
a stack of scopes. Names are looked up in the scopes of the top frame from the inside out and then
among the globals, so a call never sees the variables of its callers.

Without a frame, or in a frame whose scopes are all closed, declarations go to the globals.
-/

namespace Primer

/-- A variable: its declared type and its value. -/
structure Slot where
  type : Ty
  value : Value
  deriving DecidableEq, Repr

/-- The variables declared in one scope. -/
abbrev Scope := List (String × Slot)

namespace Scope

/-- Declares a variable, in place of one of the same name. -/
def insert (name : String) (slot : Slot) : Scope → Scope
  | [] => [(name, slot)]
  | (n, s) :: rest => if n = name then (name, slot) :: rest else (n, s) :: insert name slot rest

/-- Gives a variable another value. -/
def assign (name : String) (value : Value) : Scope → Scope
  | [] => []
  | (n, s) :: rest =>
    if n = name then (n, { s with value := value }) :: rest else (n, s) :: assign name value rest

/-- Gives a variable another value and says its declared type, if there is one of the given name. -/
def assign? (name : String) (value : Value) : Scope → Option (Ty × Scope)
  | [] => none
  | (n, s) :: rest =>
    if n = name then some (s.type, (n, { s with value := value }) :: rest)
    else (assign? name value rest).map fun (type, rest) => (type, (n, s) :: rest)

end Scope

/-- The scopes of one call, the innermost first. -/
abbrev Frame := List Scope

namespace Frame

/-- The innermost variable of the given name. -/
def lookup? (frame : Frame) (name : String) : Option Slot :=
  frame.findSome? fun scope => scope.lookup name

/-- Gives the innermost variable of the given name another value. -/
def assign (name : String) (value : Value) : Frame → Frame
  | [] => []
  | scope :: outer =>
    if (scope.lookup name).isSome then scope.assign name value :: outer
    else scope :: assign name value outer

/-- Gives the innermost variable of the given name another value and says its declared type, if there
is one. -/
def assign? (name : String) (value : Value) : Frame → Option (Ty × Frame)
  | [] => none
  | scope :: outer =>
    match scope.assign? name value with
    | some (type, scope) => some (type, scope :: outer)
    | none => (assign? name value outer).map fun (type, outer) => (type, scope :: outer)

end Frame

/-- The variables of a run. -/
structure Environment where
  globals : Scope
  /-- The frames of the calls in progress, the latest first. -/
  frames : List Frame
  deriving DecidableEq, Repr

namespace Environment

/-- No variables and no calls. -/
def empty : Environment := ⟨[], []⟩

/-- The number of calls in progress. -/
def depth (env : Environment) : Nat :=
  env.frames.length

/-- Opens a frame with one scope. -/
def pushFrame (env : Environment) : Environment :=
  { env with frames := [[]] :: env.frames }

/-- Closes the top frame. -/
def popFrame (env : Environment) : Environment :=
  { env with frames := env.frames.tail }

/-- Opens a scope in the top frame. -/
def pushScope (env : Environment) : Environment :=
  match env.frames with
  | [] => env
  | frame :: callers => { env with frames := ([] :: frame) :: callers }

/-- Closes the innermost scope of the top frame. -/
def popScope (env : Environment) : Environment :=
  match env.frames with
  | [] => env
  | frame :: callers => { env with frames := frame.tail :: callers }

/-- Declares a variable in the innermost scope. -/
def define (env : Environment) (name : String) (type : Ty) (value : Value) : Environment :=
  match env.frames with
  | (scope :: outer) :: callers =>
    { env with frames := (scope.insert name ⟨type, value⟩ :: outer) :: callers }
  | _ => { env with globals := env.globals.insert name ⟨type, value⟩ }

/-- The scopes of the top frame. -/
def locals (env : Environment) : Frame :=
  env.frames.headD []

/-- The variable that a name means. -/
def lookup? (env : Environment) (name : String) : Option Slot :=
  (env.locals.lookup? name).or (env.globals.lookup name)

/-- The value of the variable that a name means. -/
def value? (env : Environment) (name : String) : Option Value :=
  (env.lookup? name).map Slot.value

/-- The declared type of the variable that a name means. -/
def type? (env : Environment) (name : String) : Option Ty :=
  (env.lookup? name).map Slot.type

/-- Gives the variable that a name means another value; nothing changes if there is none. -/
def assign (env : Environment) (name : String) (value : Value) : Environment :=
  if (env.locals.lookup? name).isSome then
    match env.frames with
    | [] => env
    | frame :: callers => { env with frames := frame.assign name value :: callers }
  else { env with globals := env.globals.assign name value }

/-- Gives the global variable of the given name another value and says its declared type. -/
def assignGlobal? (env : Environment) (name : String) (value : Value) : Option (Ty × Environment) :=
  (env.globals.assign? name value).map fun (type, globals) => (type, { env with globals })

/-- Gives the variable that a name means another value and says its declared type, if there is one. -/
def assign? (env : Environment) (name : String) (value : Value) : Option (Ty × Environment) :=
  match env.frames with
  | [] => env.assignGlobal? name value
  | frame :: callers =>
    match frame.assign? name value with
    | some (type, frame) => some (type, { env with frames := frame :: callers })
    | none => env.assignGlobal? name value

end Environment

end Primer
