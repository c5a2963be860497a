import Primer.Proofs.Machine.Arithmetic

/-!
# Which remainders there are

A remainder is smaller than its divisor, so it always fits in 64 bits. It is nevertheless refused as an
overflow where the quotient is one, and this is the case for one pair of operands only.

- `Arithmetic.tmod_fits` and `Arithmetic.tdiv_fits_iff` say which remainders and which quotients fit.
- `remainder_exact_iff` says when the operator gives the exact remainder.
- `leastInteger_refused` is the pair for which it does not.
-/

namespace Primer

namespace Arithmetic

variable {a b : Int}

theorem toInt_fits (x : Int64) : -2 ^ 63 ≤ x.toInt ∧ x.toInt ≤ 2 ^ 63 - 1 :=
  ⟨x.le_toInt, Int.le_sub_one_of_lt x.toInt_lt⟩

/-- A remainder is closer to zero than its dividend. -/
theorem tmod_fits (ha : -2 ^ 63 ≤ a ∧ a ≤ 2 ^ 63 - 1) : -2 ^ 63 ≤ a.tmod b ∧ a.tmod b ≤ 2 ^ 63 - 1 := by
  have habs : (a.tmod b).natAbs ≤ a.natAbs := by
    rw [Int.natAbs_tmod]
    exact Nat.mod_le _ _
  -- a remainder has the sign of its dividend, or is zero
  by_cases hle : 0 ≤ a
  · have hsign := Int.tmod_nonneg b hle
    omega
  · have hsign : 0 ≤ (-a).tmod b := Int.tmod_nonneg b (by omega)
    rw [Int.neg_tmod] at hsign
    omega

/-- The least integer divided by minus one is the only quotient that does not fit. -/
theorem tdiv_fits_iff (ha : -2 ^ 63 ≤ a ∧ a ≤ 2 ^ 63 - 1) (hb : b ≠ 0) :
    (-2 ^ 63 ≤ a.tdiv b ∧ a.tdiv b ≤ 2 ^ 63 - 1) ↔ ¬(a = -2 ^ 63 ∧ b = -1) := by
  constructor
  · rintro hfits ⟨rfl, rfl⟩
    exact absurd hfits (by decide)
  · intro hpair
    by_cases hone : b = -1
    · rw [hone, Int.tdiv_neg, Int.tdiv_one]
      omega
    · by_cases hpos : b = 1
      · rw [hpos, Int.tdiv_one]
        exact ha
      · -- any other divisor at least halves the dividend
        have hhalf : (a.tdiv b).natAbs ≤ a.natAbs / 2 := by
          rw [Int.natAbs_tdiv]
          exact Nat.div_le_div_left (by omega) (by decide)
        omega

/-- A remainder is given exactly where the quotient fits, and then it is the exact one. -/
theorem remainder_eq {x y : Int64} (hy : y.toInt ≠ 0) :
    remainder x y =
      if x.toInt = -2 ^ 63 ∧ y.toInt = -1 then .error .overflow
      else .ok (Int64.ofInt (x.toInt.tmod y.toInt)) := by
  have hquotient := tdiv_fits_iff (toInt_fits x) hy
  rw [remainder, divide_eq hy]
  by_cases hpair : x.toInt = -2 ^ 63 ∧ y.toInt = -1
  · rw [if_pos hpair, fit_of_not_le fun hfits => hquotient.mp hfits hpair]
    rfl
  · rw [if_neg hpair, fit_of_le (hquotient.mpr hpair)]
    exact fit_of_le (tmod_fits (toInt_fits x))

end Arithmetic

/-- The remainder of two values that stand for the integers `a` and `b` always fits in 64 bits. The
operator gives it, unless the dividend is the least integer and the divisor is minus one; these two, and
no others, are refused as an overflow. -/
theorem remainder_exact_iff {v w : Value} {a b : Int} (hv : v.view? = some a) (hw : w.view? = some b)
    (hb : b ≠ 0) (pos : Position) (m : Machine) :
    (-2 ^ 63 ≤ a.tmod b ∧ a.tmod b ≤ 2 ^ 63 - 1) ∧
      ((∃ r, Run.binary .mod v w pos m = .value (.int r) m ∧ r.toInt = a.tmod b) ↔
        ¬(a = -2 ^ 63 ∧ b = -1)) ∧
      (Run.binary .mod v w pos m = .error (.arithmetic .overflow pos) m ↔ a = -2 ^ 63 ∧ b = -1) := by
  obtain ⟨x, hx, rfl⟩ := Value.integer?_of_view? hv
  obtain ⟨y, hy, rfl⟩ := Value.integer?_of_view? hw
  have hfits := Arithmetic.tmod_fits (b := y.toInt) (Arithmetic.toInt_fits x)
  rw [Run.binary_of_integers hx hy, BinaryOp.compute, Arithmetic.remainder_eq hb]
  refine ⟨hfits, ?_⟩
  by_cases hpair : x.toInt = -2 ^ 63 ∧ y.toInt = -1
  · rw [if_pos hpair]
    refine ⟨⟨?_, fun h => absurd hpair h⟩, fun _ => hpair, fun _ => rfl⟩
    rintro ⟨r, hr, -⟩
    cases hr
  · rw [if_neg hpair]
    refine ⟨⟨fun _ => hpair, fun _ => ⟨_, rfl, ?_⟩⟩, fun h => ?_, fun h => absurd h hpair⟩
    · exact Int64.toInt_ofInt_of_le hfits.1 (by omega)
    · cases h

/-- The least integer has remainders by itself and by a character. -/
theorem remainder_exact_edges :
    (∃ r, Run.binary .mod (.int Int64.minValue) (.int Int64.minValue) .start .fresh =
        .value (.int r) .fresh ∧ r.toInt = 0) ∧
      ∃ r, Run.binary .mod (.int Int64.minValue) (.char 255) .start .fresh = .value (.int r) .fresh ∧
        r.toInt = -128 := by
  have hself := remainder_exact_iff (v := .int Int64.minValue) (w := .int Int64.minValue) rfl rfl
    (by decide) .start .fresh
  have hchar := remainder_exact_iff (v := .int Int64.minValue) (w := .char 255) rfl rfl (by decide) .start
    .fresh
  exact ⟨hself.2.1.mpr (by decide), hchar.2.1.mpr (by decide)⟩

/-- The remainder of the least integer by minus one is zero, which fits, but the operator refuses it. -/
theorem leastInteger_refused :
    (Value.int Int64.minValue).view? = some (-2 ^ 63) ∧ (Value.int (-1)).view? = some (-1) ∧
      Int.tmod (-2 ^ 63) (-1) = 0 ∧
      Run.binary .mod (.int Int64.minValue) (.int (-1)) .start .fresh =
        .error (.arithmetic .overflow .start) .fresh :=
  ⟨rfl, rfl, by decide, rfl⟩

end Primer
