import Primer.Tree.Printer

/-!
# Violations of the static rules

Checking a program does not stop at the first violation, so there is a list of them. Each has a
cause, from which its wording follows, and the position it points at.
-/

namespace Primer

/-- An operator of either kind. -/
inductive Operator where
  | unary (op : UnaryOp)
  | binary (op : BinaryOp)
  deriving DecidableEq, Repr

/-- The spelling of an operator. -/
def Operator.text : Operator → String
  | .unary op => op.text
  | .binary op => op.text

/-- The ways to break a static rule. -/
inductive Violation where
  | unknownVariable (name : String)
  | unknownFunction (name : String)
  | argumentCount (name : String) (expected found : Nat)
  | redeclared (name : String)
  | functionAlreadyDefined (name : String)
  | builtinRedefined (name : String)
  | missingReturn (name : String) (returns : Ty)
  | missingReturnValue (name : String) (expected : Ty)
  | unexpectedReturnValue (name : String)
  | breakOutsideLoop
  | typeMismatch (expected found : Ty)
  | invalidOperand (operator : Operator) (operand : Ty)
  | invalidCondition (found : Ty)
  | voidValue (name : String)
  | voidVariable (name : String)
  | invalidSwitchType (found : Ty)
  | duplicateCase (label : CaseLabel)
  | duplicateDefault
  | missingFormatString
  deriving DecidableEq, Repr

/-- The wording of a violation. -/
def Violation.text : Violation → String
  | .unknownVariable name => s!"Unknown variable '{name}'"
  | .unknownFunction name => s!"Unknown function '{name}'"
  | .argumentCount name expected found =>
    s!"Function '{name}' expects {expected} argument(s) but {found} were supplied"
  | .redeclared name => s!"'{name}' is already declared in this scope"
  | .functionAlreadyDefined name => s!"Function '{name}' is already defined"
  | .builtinRedefined name => s!"Cannot redefine built-in function '{name}'"
  | .missingReturn name returns =>
    s!"Function '{name}' returns {returns.text} but has no reachable return statement"
  | .missingReturnValue name expected =>
    s!"Function '{name}' returns {expected.text} but this return statement has no value"
  | .unexpectedReturnValue name => s!"Void function '{name}' cannot return a value"
  | .breakOutsideLoop => "'break' outside of a loop or switch"
  | .typeMismatch expected found =>
    s!"Type mismatch: expected {expected.text}, found {found.text}"
  | .invalidOperand operator operand =>
    s!"Operator '{operator.text}' cannot be applied to {operand.text}"
  | .invalidCondition found => s!"Condition must be int or char, found {found.text}"
  | .voidValue name => s!"Function '{name}' returns void and cannot be used as a value"
  | .voidVariable name => s!"Variable '{name}' cannot have type void"
  | .invalidSwitchType found => s!"Switch expression must be int or char, found {found.text}"
  | .duplicateCase label => s!"Duplicate case label {label.text}"
  | .duplicateDefault => "Multiple default labels in one switch"
  | .missingFormatString => "'print' requires a format string as its first argument"

/-- A violation with the position it points at. -/
structure SemanticError where
  violation : Violation
  pos : Position
  deriving DecidableEq, Repr

namespace SemanticError

/-- The wording of the error. -/
def message (e : SemanticError) : String :=
  s!"Error at {e.pos.text}: {e.violation.text}."

/-- The wording of a list of errors, one to a line. -/
def messages (es : List SemanticError) : String :=
  "\n".intercalate (es.map message)

end SemanticError

end Primer
