import Primer.Typing.Checker

/-!
# Checking expressions

`Check.expr` gives the type of an expression, or `none` if it has none because of an error that was
reported. Later rules are silent about expressions without a type, so one mistake is reported once.

Parts are checked in the order of evaluation: the value of an assignment before its target, the
arguments of a call before the function.
-/

namespace Primer

namespace Check

/-- The name that messages give to an expression without a value: that of the function if it is a
call. -/
def valueName : Expr → String
  | .call name _ _ => name
  | e => e.text

/-- Refuses an expression of type `void` as a value. -/
def requireValue (e : Expr) (found : Option Ty) : Check (Option Ty) :=
  if found = some .void then do
    report (.voidValue (valueName e)) e.pos
    return none
  else return found

/-- Refuses a value that `expected` does not accept. -/
def requireType (expected : Ty) (found : Option Ty) (pos : Position) : Check Unit :=
  match found with
  | some found => reportIf (!expected.accepts found) (.typeMismatch expected found) pos
  | none => pure ()

/-- Refuses an operand that is not an integer. -/
def requireIntegral (operator : Operator) (operand : Option Ty) (pos : Position) : Check Unit :=
  match operand with
  | some type => reportIf (!type.isIntegral) (.invalidOperand operator type) pos
  | none => pure ()

/-- Compares arguments with the types of the parameters, from left to right. -/
def requireTypes : (args : List Expr) → (found : List (Option Ty)) → (params : List Ty) →
    Check Unit
  | arg :: args, found :: rest, param :: params => do
    requireType param found arg.pos
    requireTypes args rest params
  | _, _, _ => pure ()

/-- Compares a call with the signature of its function. -/
def requireSignature (signature : Signature) (name : String) (args : List Expr)
    (found : List (Option Ty)) (pos : Position) : Check Unit :=
  if signature.params.length = args.length then requireTypes args found signature.params
  else report (.argumentCount name signature.params.length args.length) pos

mutual

/-- The type of an expression. -/
def expr : Expr → Check (Option Ty)
  | .literal value _ => return some value.type
  | .var name pos => resolve name pos
  | .assign name value pos => do
    let found ← requireValue value (← expr value)
    match ← resolve name pos with
    | some expected =>
      requireType expected found value.pos
      return some expected
    -- without a target there is no type to compare the value with
    | none => return none
  | .unary op operand _ => do
    let found ← requireValue operand (← expr operand)
    requireIntegral (.unary op) found operand.pos
    return some .int
  | .binary op left right _ => do
    let leftType ← requireValue left (← expr left)
    let rightType ← requireValue right (← expr right)
    -- the operands are refused after both of them were checked
    requireIntegral (.binary op) leftType left.pos
    requireIntegral (.binary op) rightType right.pos
    return some .int
  | .call name args pos =>
    if name = printName then do
      printArgs pos args
      return some .void
    else do
      let found ← values args
      match ← resolveFunction name pos with
      | some signature =>
        requireSignature signature name args found pos
        return some signature.returns
      | none => return none

/-- The types of expressions used as values, from left to right. -/
def values : List Expr → Check (List (Option Ty))
  | [] => return []
  | e :: es => do
    let found ← requireValue e (← expr e)
    let rest ← values es
    return found :: rest

/-- Checks the arguments of `print`: a string and any values after it. -/
def printArgs (pos : Position) : List Expr → Check Unit
  | [] => report .missingFormatString pos
  | format :: rest => do
    let found ← requireValue format (← expr format)
    match found with
    | some type => reportIf (type != .string) (.typeMismatch .string type) format.pos
    | none => pure ()
    let _ ← values rest

end

/-- The type of an expression used as a value. -/
def value (e : Expr) : Check (Option Ty) := do
  requireValue e (← expr e)

/-- Checks the condition of a branch or loop. -/
def condition (e : Expr) : Check Unit := do
  match ← value e with
  | some type => reportIf (!type.isIntegral) (.invalidCondition type) e.pos
  | none => pure ()

end Check

end Primer
