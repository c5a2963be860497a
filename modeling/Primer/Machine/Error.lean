import Primer.Value.Arithmetic
import Primer.Value.Format

/-!
# Errors of a run

A run stops at its first error. All but two kinds point at a position of the program; a program
without `main` and a refused evaluation stack have none.
-/

namespace Primer

/-- Why a value is of the wrong type. -/
inductive TypeFault where
  | mismatch (expected found : Ty)
  | operands (op : BinaryOp) (left right : Ty)
  | operand (op : UnaryOp) (found : Ty)
  | condition (found : Ty)
  | scrutinee (found : Ty)
  | printFormat (found : Ty)
  deriving DecidableEq, Repr

/-- The wording of a type fault. -/
def TypeFault.text : TypeFault → String
  | .mismatch expected found => s!"expected {expected.text}, found {found.text}"
  | .operands op left right =>
    s!"operator '{op.text}' cannot be applied to {left.text} and {right.text}"
  | .operand op found => s!"operator '{op.text}' cannot be applied to {found.text}"
  | .condition found => s!"condition must be int or char, found {found.text}"
  | .scrutinee found => s!"switch on {found.text}"
  | .printFormat found => s!"print expects a string format, found {found.text}"

/-- The wording of an arithmetic fault. -/
def ArithmeticFault.text : ArithmeticFault → String
  | .divisionByZero => "Division by zero"
  | .overflow => "Integer overflow while trying to compute result"

/-- The wording of a format fault. -/
def FormatFault.text : FormatFault → String
  | .missingArgument verb => s!"Format verb '%{verb}' has no matching argument"
  | .typeMismatch verb expected found =>
    s!"Format verb '%{verb}' expects {expected.text}, found {found.text}"
  | .unknownVerb verb => s!"Unknown format verb '%{verb}'"
  | .danglingPercent => "Format string ends with a lone '%'"
  | .unusedArguments count => s!"{count} argument(s) left over after formatting"

/-- What stops a run. -/
inductive RuntimeError where
  | unknownVariable (name : String) (pos : Position)
  | unknownFunction (name : String) (pos : Position)
  | argumentCount (name : String) (expected found : Nat) (pos : Position)
  | type (fault : TypeFault) (pos : Position)
  | arithmetic (fault : ArithmeticFault) (pos : Position)
  | stackOverflow (limit : Nat) (pos : Position)
  | missingMain (program : String)
  | mainParameters (pos : Position)
  | missingReturnValue (name : String) (pos : Position)
  | format (fault : FormatFault) (pos : Position)
  | output (reason : String) (pos : Position)
  /-- The host did not give the evaluator a stack of this many bytes. -/
  | stackRefused (bytes : Nat) (reason : String)
  deriving DecidableEq, Repr

namespace RuntimeError

/-- Where the error points, if it points anywhere. -/
def pos? : RuntimeError → Option Position
  | .unknownVariable _ pos => some pos
  | .unknownFunction _ pos => some pos
  | .argumentCount _ _ _ pos => some pos
  | .type _ pos => some pos
  | .arithmetic _ pos => some pos
  | .stackOverflow _ pos => some pos
  | .missingMain _ => none
  | .mainParameters pos => some pos
  | .missingReturnValue _ pos => some pos
  | .format _ pos => some pos
  | .output _ pos => some pos
  | .stackRefused _ _ => none

/-- What went wrong, without the place. -/
def text : RuntimeError → String
  | .unknownVariable name _ => s!"Unknown variable '{name}'"
  | .unknownFunction name _ => s!"Unknown function '{name}'"
  | .argumentCount name expected found _ =>
    s!"Function '{name}' expects {expected} argument(s) but {found} were supplied"
  | .type fault _ => s!"Type error: {fault.text}"
  | .arithmetic fault _ => fault.text
  | .stackOverflow limit _ => s!"Stack overflow, call depth exceeded {limit}"
  | .missingMain program => s!"Program '{program}' has no 'main' function"
  | .mainParameters _ => "'main' must not take parameters"
  | .missingReturnValue name _ => s!"Function '{name}' ended without returning a value"
  | .format fault _ => fault.text
  | .output reason _ => s!"Failed to write output: {reason}"
  | .stackRefused bytes reason =>
    s!"Failed to start the evaluator thread with a {bytes} byte stack: {reason}"

/-- The wording of the error. -/
def message (e : RuntimeError) : String :=
  match e.pos? with
  | some pos => s!"Error at {pos.text}: {e.text}."
  | none => s!"Error: {e.text}."

end RuntimeError

end Primer
