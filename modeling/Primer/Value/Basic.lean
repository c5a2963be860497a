import Primer.Tree.Basic

/-!
# Values

A value is a 64-bit integer, a character code, a text, or the absence of a value. Characters are
integers too: `Value.integer?` is what arithmetic and conditions see of a value, and `Value.coerce?`
turns a character into an integer where one is declared.
-/

namespace Primer

/-- The values that expressions evaluate to. -/
inductive Value where
  | int (n : Int64)
  | char (c : UInt8)
  | string (s : String)
  | void
  deriving DecidableEq, Repr

namespace Value

/-- The type of a value. -/
def type : Value → Ty
  | .int _ => .int
  | .char _ => .char
  | .string _ => .string
  | .void => .void

/-- The value of a constant. -/
def ofLiteral : Literal → Value
  | .int n => .int n
  | .char c => .char c
  | .string s => .string s

/-- The value of a variable that is declared without an initial value. -/
def default : Ty → Value
  | .int => .int 0
  | .char => .char 35
  | .string => .string "#"
  | .void => .void

theorem default_type (t : Ty) : (default t).type = t := by
  cases t <;> rfl

/-- Truth as an integer. -/
def ofBool (b : Bool) : Value :=
  .int (if b then 1 else 0)

/-- The code of a character as an integer. -/
def codeOf (c : UInt8) : Int64 :=
  Int64.ofNat c.toNat

theorem toInt_codeOf (c : UInt8) : (codeOf c).toInt = c.toNat := by
  have hc := c.toNat_lt
  exact Int64.toInt_ofNat_of_lt (by omega)

/-- The integer behind a value. -/
def integer? : Value → Option Int64
  | .int n => some n
  | .char c => some (codeOf c)
  | .string _ => none
  | .void => none

/-- The value as a value of type `target`: itself, or the code of a character. -/
def coerce? (v : Value) (target : Ty) : Option Value :=
  match v, target with
  | .char c, .int => some (.int (codeOf c))
  | v, target => if v.type = target then some v else none

/-- The text of a value when it is printed. -/
def text : Value → String
  | .int n => toString n.toInt
  | .char c => String.ofList [Escape.charOfByte c]
  | .string s => s
  | .void => "void"

end Value

/-- The integer that a case constant matches. -/
def CaseLabel.integer : CaseLabel → Int64
  | .int n => n
  | .char c => Value.codeOf c

end Primer
