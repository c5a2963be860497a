import Primer.Value.Basic

/-!
# Arithmetic

Operators work on 64-bit signed integers and never wrap: a result outside the range is an overflow.
Division truncates toward zero. A remainder is taken only where the quotient itself is in range, so
the least integer has neither a quotient nor a remainder by minus one.
-/

namespace Primer

/-- Why an operation on integers has no result. -/
inductive ArithmeticFault where
  | divisionByZero
  | overflow
  deriving DecidableEq, Repr

namespace Arithmetic

/-- The integer as a 64-bit word, if it is one. -/
def fit (n : Int) : Except ArithmeticFault Int64 :=
  if Int64.minValue.toInt ≤ n ∧ n ≤ Int64.maxValue.toInt then .ok (Int64.ofInt n)
  else .error .overflow

/-- Truth as a word. -/
def truth (b : Bool) : Except ArithmeticFault Int64 :=
  .ok (if b then 1 else 0)

/-- The quotient, truncated toward zero. -/
def divide (a b : Int64) : Except ArithmeticFault Int64 :=
  if b = 0 then .error .divisionByZero else fit (a.toInt.tdiv b.toInt)

/-- The remainder that belongs to the truncated quotient. -/
def remainder (a b : Int64) : Except ArithmeticFault Int64 := do
  let _ ← divide a b
  fit (a.toInt.tmod b.toInt)

end Arithmetic

open Arithmetic in
/-- The result of an infix operator on two integers. -/
def BinaryOp.compute (op : BinaryOp) (a b : Int64) : Except ArithmeticFault Int64 :=
  match op with
  | .add => fit (a.toInt + b.toInt)
  | .sub => fit (a.toInt - b.toInt)
  | .mul => fit (a.toInt * b.toInt)
  | .div => divide a b
  | .mod => remainder a b
  | .less => truth (a.toInt < b.toInt)
  | .greater => truth (b.toInt < a.toInt)
  | .lessEqual => truth (a.toInt ≤ b.toInt)
  | .greaterEqual => truth (b.toInt ≤ a.toInt)
  | .equal => truth (a.toInt = b.toInt)
  | .notEqual => truth (a.toInt ≠ b.toInt)
  | .and => truth (a ≠ 0 ∧ b ≠ 0)
  | .or => truth (a ≠ 0 ∨ b ≠ 0)

open Arithmetic in
/-- The result of a prefix operator on an integer. -/
def UnaryOp.compute (op : UnaryOp) (a : Int64) : Except ArithmeticFault Int64 :=
  match op with
  | .negate => fit (-a.toInt)
  | .not => truth (a = 0)

end Primer
