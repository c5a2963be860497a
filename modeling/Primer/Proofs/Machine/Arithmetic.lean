import Mathlib.Algebra.Group.Int.Defs
import Primer.Proofs.Machine.Outcome

/-!
# Arithmetic is exact or an error

Operators see a value as an integer: an integer as itself and a character as its code. What they give
is compared here with the integers of mathematics.

- `Value.view?` is the integer that a value stands for.
- `Outcome.Exact` says that an operation gives its exact result, or an overflow if this does not fit
  in 64 bits.
- `Arithmetic.Faithful` collects what holds of two values that stand for integers.
- `arithmetic_exact` is the statement about all values.
-/

namespace Primer

/-- The integer that a value stands for. -/
def Value.view? : Value → Option Int
  | .int n => some n.toInt
  | .char c => some c.toNat
  | .string _ => none
  | .void => none

theorem Value.integer?_of_view? {v : Value} {a : Int} (h : v.view? = some a) :
    ∃ n, v.integer? = some n ∧ n.toInt = a := by
  cases v with
  | int n => exact ⟨n, rfl, Option.some.inj h⟩
  | char c => exact ⟨codeOf c, rfl, (toInt_codeOf c).trans (Option.some.inj h)⟩
  | string s => cases h
  | void => cases h

theorem Value.integer?_eq_none {v : Value} :
    v.integer? = none ↔ v.type = .string ∨ v.type = .void := by
  cases v <;> simp [integer?, type]

namespace Outcome

/-- The outcome of an operation whose exact result is `r`: this integer if it fits in 64 bits, and an
overflow otherwise. -/
def Exact (o : Outcome Value) (r : Int) (pos : Position) (m : Machine) : Prop :=
  if -2 ^ 63 ≤ r ∧ r ≤ 2 ^ 63 - 1 then ∃ n, o = .value (.int n) m ∧ n.toInt = r
  else o = .error (.arithmetic .overflow pos) m

/-- The operation was not defined for the types of its operands. -/
def IsTypeError (o : Outcome Value) : Prop :=
  ∃ fault pos m, o = .error (.type fault pos) m

end Outcome

/-! ## Results that fit -/

namespace Arithmetic

theorem fit_of_le {r : Int} (h : -2 ^ 63 ≤ r ∧ r ≤ 2 ^ 63 - 1) : fit r = .ok (Int64.ofInt r) :=
  if_pos h

theorem fit_of_not_le {r : Int} (h : ¬(-2 ^ 63 ≤ r ∧ r ≤ 2 ^ 63 - 1)) : fit r = .error .overflow :=
  if_neg h

theorem toInt_of_fit {r : Int} {n : Int64} (h : fit r = .ok n) : n.toInt = r := by
  by_cases hr : -2 ^ 63 ≤ r ∧ r ≤ 2 ^ 63 - 1
  · rw [fit_of_le hr] at h
    cases h
    exact Int64.toInt_ofInt_of_le hr.1 (by omega)
  · rw [fit_of_not_le hr] at h
    cases h

/-- The quotient is a fit of the exact one, unless the divisor is zero. -/
theorem divide_eq {x y : Int64} (h : y.toInt ≠ 0) : divide x y = fit (x.toInt.tdiv y.toInt) := by
  refine if_neg fun hy => h ?_
  rw [hy]
  rfl

theorem divide_zero {x y : Int64} (h : y.toInt = 0) : divide x y = .error .divisionByZero :=
  if_pos (Int64.toInt_inj.mp h)

/-- A quotient and a remainder that there are belong together. -/
theorem divide_remainder {x y q r : Int64} (hq : divide x y = .ok q) (hr : remainder x y = .ok r) :
    y.toInt ≠ 0 ∧ q.toInt = x.toInt.tdiv y.toInt ∧ r.toInt = x.toInt.tmod y.toInt := by
  have hy : y.toInt ≠ 0 := by
    intro hy
    rw [divide_zero hy] at hq
    cases hq
  rw [remainder, hq] at hr
  rw [divide_eq hy] at hq
  exact ⟨hy, toInt_of_fit hq, toInt_of_fit hr⟩

end Arithmetic

namespace Run

variable {v w : Value} {x y : Int64}

theorem arithmetic_eq_value {result : Except ArithmeticFault Int64} {pos : Position} {m : Machine}
    {n : Int64} (h : arithmetic result pos m = .value (.int n) m) : result = .ok n := by
  cases result with
  | ok n' =>
    cases h
    rfl
  | error fault => cases h

theorem arithmetic_fit (r : Int) (pos : Position) (m : Machine) :
    (arithmetic (Arithmetic.fit r) pos m).Exact r pos m := by
  by_cases hr : -2 ^ 63 ≤ r ∧ r ≤ 2 ^ 63 - 1
  · rw [Outcome.Exact, if_pos hr, Arithmetic.fit_of_le hr]
    exact ⟨_, rfl, Arithmetic.toInt_of_fit (Arithmetic.fit_of_le hr)⟩
  · rw [Outcome.Exact, if_neg hr, Arithmetic.fit_of_not_le hr]
    rfl

theorem arithmetic_not_isTypeError (result : Except ArithmeticFault Int64) (pos : Position)
    (m : Machine) : ¬(arithmetic result pos m).IsTypeError := by
  rintro ⟨fault, pos', m', h⟩
  cases result with
  | ok n => cases h
  | error fault' => cases h

theorem binary_of_integers (hv : v.integer? = some x) (hw : w.integer? = some y) (op : BinaryOp)
    (pos : Position) : binary op v w pos = arithmetic (op.compute x y) pos := by
  simp only [binary, hv, hw]

theorem unary_of_integer (hv : v.integer? = some x) (op : UnaryOp) (pos : Position) :
    unary op v pos = arithmetic (op.compute x) pos := by
  simp only [unary, hv]

/-! ## Type errors -/

theorem binary_isTypeError (op : BinaryOp) (v w : Value) (pos : Position) (m : Machine) :
    (binary op v w pos m).IsTypeError ↔ v.integer? = none ∨ w.integer? = none := by
  cases hv : v.integer? with
  | none => exact ⟨fun _ => .inl rfl, fun _ => ⟨_, _, _, by simp only [binary, hv]; rfl⟩⟩
  | some x =>
    cases hw : w.integer? with
    | none => exact ⟨fun _ => .inr rfl, fun _ => ⟨_, _, _, by simp only [binary, hv, hw]; rfl⟩⟩
    | some y =>
      rw [binary_of_integers hv hw]
      simp [arithmetic_not_isTypeError]

theorem unary_isTypeError (op : UnaryOp) (v : Value) (pos : Position) (m : Machine) :
    (unary op v pos m).IsTypeError ↔ v.integer? = none := by
  cases hv : v.integer? with
  | none => exact ⟨fun _ => rfl, fun _ => ⟨_, _, _, by simp only [unary, hv]; rfl⟩⟩
  | some x =>
    rw [unary_of_integer hv]
    simp [arithmetic_not_isTypeError]

end Run

/-! ## Values that stand for integers -/

/-- What the operators do with two values that stand for the integers `a` and `b`. -/
structure Arithmetic.Faithful (v w : Value) (a b : Int) (pos : Position) (m : Machine) : Prop where
  add : (Run.binary .add v w pos m).Exact (a + b) pos m
  sub : (Run.binary .sub v w pos m).Exact (a - b) pos m
  mul : (Run.binary .mul v w pos m).Exact (a * b) pos m
  divByZero : b = 0 → Run.binary .div v w pos m = .error (.arithmetic .divisionByZero pos) m
  div : b ≠ 0 → (Run.binary .div v w pos m).Exact (a.tdiv b) pos m
  less : Run.binary .less v w pos m = .value (.ofBool (a < b)) m
  greater : Run.binary .greater v w pos m = .value (.ofBool (a > b)) m
  lessEqual : Run.binary .lessEqual v w pos m = .value (.ofBool (a ≤ b)) m
  greaterEqual : Run.binary .greaterEqual v w pos m = .value (.ofBool (a ≥ b)) m
  equal : Run.binary .equal v w pos m = .value (.ofBool (a = b)) m
  notEqual : Run.binary .notEqual v w pos m = .value (.ofBool (a ≠ b)) m
  /-- The remainder completes the quotient, is smaller than the divisor, and goes with the dividend. -/
  mod : ∀ q r, Run.binary .div v w pos m = .value (.int q) m →
    Run.binary .mod v w pos m = .value (.int r) m →
    a = q.toInt * b + r.toInt ∧ r.toInt.natAbs < b.natAbs ∧ (r.toInt = 0 ∨ r.toInt.sign = a.sign)

theorem Arithmetic.faithful {v w : Value} {a b : Int} (hv : v.view? = some a) (hw : w.view? = some b)
    (pos : Position) (m : Machine) : Faithful v w a b pos m := by
  obtain ⟨x, hx, rfl⟩ := Value.integer?_of_view? hv
  obtain ⟨y, hy, rfl⟩ := Value.integer?_of_view? hw
  -- operators see nothing of the values but these two words
  have hbinary := fun op => Run.binary_of_integers hx hy op pos
  constructor
  case add | sub | mul =>
    rw [hbinary]
    exact Run.arithmetic_fit _ pos m
  case divByZero =>
    intro hzero
    rw [hbinary, BinaryOp.compute, divide_zero hzero]
    rfl
  case div =>
    intro hzero
    rw [hbinary, BinaryOp.compute, divide_eq hzero]
    exact Run.arithmetic_fit _ pos m
  case mod =>
    intro q r hq hr
    rw [hbinary] at hq hr
    obtain ⟨hzero, hq, hr⟩ :=
      divide_remainder (Run.arithmetic_eq_value hq) (Run.arithmetic_eq_value hr)
    refine ⟨?_, ?_, ?_⟩
    · rw [hq, hr, Int.tdiv_mul_add_tmod]
    · rw [hr, Int.natAbs_tmod]
      exact Nat.mod_lt _ (Int.natAbs_pos.mpr hzero)
    · rw [hr, Int.sign_tmod]
      by_cases hdvd : y.toInt ∣ x.toInt
      · exact .inl (Int.tmod_eq_zero_of_dvd hdvd)
      · exact .inr (if_neg hdvd)
  -- what is left are the comparisons
  all_goals
    rw [hbinary]
    rfl

/-- Arithmetic is exact or an error. On values that stand for integers the operators give the exact
result if it fits in 64 bits, division by zero is refused, comparisons follow the order of the integers,
and quotients and remainders belong together. A type error arises exactly if an operand is a text or no
value. -/
theorem arithmetic_exact (v w : Value) (pos : Position) (m : Machine) :
    (∀ a b, v.view? = some a → w.view? = some b → Arithmetic.Faithful v w a b pos m) ∧
      (∀ a, v.view? = some a → (Run.unary .negate v pos m).Exact (-a) pos m) ∧
      (∀ op, (Run.binary op v w pos m).IsTypeError ↔
        (v.type = .string ∨ v.type = .void) ∨ (w.type = .string ∨ w.type = .void)) ∧
      (∀ op, (Run.unary op v pos m).IsTypeError ↔ v.type = .string ∨ v.type = .void) := by
  refine ⟨fun a b hv hw => Arithmetic.faithful hv hw pos m, fun a hv => ?_, fun op => ?_, fun op => ?_⟩
  · obtain ⟨x, hx, rfl⟩ := Value.integer?_of_view? hv
    rw [Run.unary_of_integer hx]
    exact Run.arithmetic_fit _ pos m
  · rw [Run.binary_isTypeError, Value.integer?_eq_none, Value.integer?_eq_none]
  · rw [Run.unary_isTypeError, Value.integer?_eq_none]

/-- The least integer has no quotient by minus one, and the remainder of a negative integer by a
character is not positive. -/
theorem arithmetic_exact_edges :
    Run.binary .div (.int Int64.minValue) (.int (-1)) .start .fresh =
        .error (.arithmetic .overflow .start) .fresh ∧
      Arithmetic.Faithful (.int (-7)) (.char 2) (-7) 2 .start .fresh ∧
      Run.binary .div (.int (-7)) (.char 2) .start .fresh = .value (.int (-3)) .fresh ∧
      Run.binary .mod (.int (-7)) (.char 2) .start .fresh = .value (.int (-1)) .fresh := by
  have hleast := (arithmetic_exact (.int Int64.minValue) (.int (-1)) .start .fresh).1 (-2 ^ 63) (-1)
    rfl rfl
  have hdiv := hleast.div (by decide)
  rw [Outcome.Exact, if_neg (by decide)] at hdiv
  exact ⟨hdiv, (arithmetic_exact (.int (-7)) (.char 2) .start .fresh).1 (-7) 2 rfl rfl, rfl, rfl⟩

end Primer
