import Primer.Typing.Statement

/-!
# Checking programs

Functions may be used before they are defined, so all of them are registered first. Then the items
are checked in source order: a global is in scope in what follows it.

- `Checker.ofProgram` is the state after a whole program.
- `check` accepts a program without errors and gives its cross-reference table.
-/

namespace Primer

namespace Check

/-- Registers a function, unless its name is taken. -/
def register (f : FunctionDef) : Check Unit := do
  if isBuiltin f.name then report (.builtinRedefined f.name) f.pos
  else if ((← get).functions.lookup f.name).isSome then
    report (.functionAlreadyDefined f.name) f.pos
  else modify fun c => c.declareFunction f

/-- Checks a parameter and declares it. -/
def param (p : Param) : Check Unit := do
  reportIf (p.type == .void) (.voidVariable p.name) p.pos
  modify fun c => c.declare p.name .parameter p.type p.pos

/-- Refuses a function that has to return a value and never does. -/
def requireReturn (f : FunctionDef) : Check Unit := do
  match (← get).function with
  | some current =>
    reportIf (current.returns != .void && current.name != mainName && !current.hasReturn)
      (.missingReturn current.name current.returns) f.pos
  | none => pure ()

/-- Checks a function. Its parameters and the declarations at the top of its body share a scope. -/
def functionDef (f : FunctionDef) : Check Unit := do
  modify fun c => c.enterRoutine f.name
  inScope do
    f.params.forM param
    modify fun c => { c with function := some ⟨f.name, f.returns, false⟩ }
    let _ ← stmts true f.body
    requireReturn f
    modify fun c => { c with function := none }
  modify Checker.leaveRoutine

/-- Checks a top-level item. -/
def item : Item → Check Unit
  | .global decl => varDecl decl
  | .function f => functionDef f

/-- Checks a program. -/
def program (p : Program) : Check Unit := do
  p.functions.forM register
  p.items.forM item

end Check

/-- The state after checking a program. -/
def Checker.ofProgram (p : Program) : Checker :=
  ((Check.program p).run (Checker.new p.name)).2

/-- The cross-reference table of a program that keeps the static rules, or all its violations. -/
def check (p : Program) : Except (List SemanticError) CrossReference :=
  let checked := Checker.ofProgram p
  if checked.errors.isEmpty then .ok checked.crossReference else .error checked.errors

end Primer
