import Primer.Typing.Expression

/-!
# Checking statements

`Check.stmt` checks a statement and says how control leaves it. The answer is what decides whether
the statements after it can be reached, and with that whether a `return` counts for its function.
-/

namespace Primer

/-- How control leaves a statement. -/
inductive Exit where
  /-- Control may go on to the next statement. -/
  | continues
  /-- Control always leaves the function, unless it stays inside for ever. -/
  | returns
  /-- Control always leaves the enclosing loop or switch. -/
  | breaks
  deriving DecidableEq, Repr

namespace Exit

/-- The exit of a statement list from that of its first statement and that of the others. -/
def andThen (first rest : Exit) : Exit :=
  if first = .continues then rest else first

/-- The exit of a branch from those of its two sides. -/
def join (onTrue onFalse : Exit) : Exit :=
  if onTrue = .returns ∧ onFalse = .returns then .returns else .continues

end Exit

namespace Check

/-- Checks a declaration. The variable is not in scope in its own initial value. -/
def varDecl (d : VarDecl) : Check Unit := do
  reportIf (d.type == .void) (.voidVariable d.name) d.pos
  match d.init with
  | some e =>
    let found ← value e
    -- a variable of type `void` was refused already, whatever its initial value is
    if d.type ≠ .void then requireType d.type found e.pos
  | none => pure ()
  modify fun c => c.declare d.name .variable_ d.type d.pos

/-- Checks the first clause of a `for` header. -/
def forInit : Option ForInit → Check Unit
  | some (.declare decl) => varDecl decl
  | some (.eval e) => do
    let _ ← expr e
  | none => pure ()

/-- Checks an expression whose value is not used. -/
def effect : Option Expr → Check Unit
  | some e => do
    let _ ← expr e
  | none => pure ()

/-- Notes that the current function has a `return` with a value that control can reach. -/
def markReturn : Check Unit :=
  modify fun c => { c with function := c.function.map fun f => { f with hasReturn := true } }

/-- Checks a `return` statement against the current function. -/
def ret (returnValue : Option Expr) (pos : Position) (reachable : Bool) : Check Unit := do
  match returnValue with
  | some e =>
    let found ← value e
    match (← get).function with
    | some f =>
      if f.returns = .void then report (.unexpectedReturnValue f.name) pos
      else
        if reachable then markReturn
        requireType f.returns found e.pos
    | none => pure ()
  | none =>
    match (← get).function with
    | some f => reportIf (f.returns != .void) (.missingReturnValue f.name f.returns) pos
    | none => pure ()

/-- Checks the labels of a switch: constants of the type of its scrutinee, all different, and at most
one default. -/
def labels (scrutinee : Option Ty) : (seen : List CaseLabel) → (hasDefault : Bool) →
    List CaseGroup → Check Unit
  | _, _, [] => pure ()
  | seen, hasDefault, group :: groups =>
    match group.label with
    | some label => do
      match scrutinee with
      | some type =>
        reportIf (type.isIntegral && label.type != type) (.typeMismatch type label.type) group.pos
      | none => pure ()
      reportIf (seen.contains label) (.duplicateCase label) group.pos
      labels scrutinee (label :: seen) hasDefault groups
    | none => do
      reportIf hasDefault .duplicateDefault group.pos
      labels scrutinee seen true groups

/-- Checks the scrutinee of a switch. -/
def scrutinee (e : Expr) : Check (Option Ty) := do
  let found ← value e
  match found with
  | some type => reportIf (!type.isIntegral) (.invalidSwitchType type) e.pos
  | none => pure ()
  return found

mutual

/-- Checks a statement that control can reach if `reachable` holds. -/
def stmt (reachable : Bool) : Stmt → Check Exit
  | .declare decl => do
    varDecl decl
    return .continues
  | .eval e _ => do
    let _ ← expr e
    return .continues
  | .block body _ => inScope (stmts reachable body)
  | .branch cond onTrue none _ => do
    condition cond
    let _ ← stmt reachable onTrue
    return .continues
  | .branch cond onTrue (some onFalse) _ => do
    condition cond
    let trueExit ← stmt reachable onTrue
    let falseExit ← stmt reachable onFalse
    return trueExit.join falseExit
  | .whileLoop cond body _ => do
    condition cond
    let _ ← insideLoop (stmt reachable body)
    -- the condition may fail at once, so control goes on whatever the body does
    return .continues
  | .forLoop init cond step body _ => inScope do
    forInit init
    match cond with
    | some e => condition e
    | none => pure ()
    effect step
    let _ ← insideLoop (stmt reachable body)
    return .continues
  | .switch e cases _ => do
    let type ← scrutinee e
    labels type [] false cases
    insideLoop (groups reachable cases)
    -- a switch may match no label, and a `break` in it ends here
    return .continues
  | .ret returnValue pos => do
    ret returnValue pos reachable
    return .returns
  | .brk pos => do
    reportIf ((← get).breakable == 0) .breakOutsideLoop pos
    return .breaks

/-- Checks a statement list. What follows a statement that does not continue is unreachable. -/
def stmts (reachable : Bool) : List Stmt → Check Exit
  | [] => return .continues
  | s :: rest => do
    let first ← stmt reachable s
    let others ← stmts (reachable && first == .continues) rest
    return first.andThen others

/-- Checks case groups. Every label can be jumped to, so each group is as reachable as the switch. -/
def groups (reachable : Bool) : List CaseGroup → Check Unit
  | [] => pure ()
  | .mk _ body _ :: rest => do
    let _ ← stmts reachable body
    groups reachable rest

end

end Check

end Primer
