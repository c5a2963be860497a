/-!
# Types

The language has four types. A `char` may stand where an `int` is wanted; nothing else converts.
-/

namespace Primer

/-- The types of values, variables and functions. -/
inductive Ty where
  | int
  | char
  | string
  | void
  deriving DecidableEq, Repr

namespace Ty

/-- A value of type `found` may be stored where `expected` is declared. -/
def accepts (expected found : Ty) : Bool :=
  expected == found || (expected == .int && found == .char)

/-- Types whose values have an integer behind them. -/
def isIntegral : Ty → Bool
  | .int | .char => true
  | .string | .void => false

/-- The keyword that names the type. -/
def text : Ty → String
  | .int => "int"
  | .char => "char"
  | .string => "string"
  | .void => "void"

end Ty

end Primer
