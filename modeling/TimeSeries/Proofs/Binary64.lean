import Mathlib.Data.EReal.Operations
import TimeSeries.Binary64.Text

/-!
# The numbers of doubles

`Binary64.number` is the real number, or the infinity, that a double stands for when it is
not NaN.  Both zeros stand for the same number.  The comparison of keys is the comparison of
these numbers, since the number that a pattern without its sign stands for grows with the
pattern, across the steps of the exponent and up to infinity.
-/

namespace TimeSeries.Binary64

/-- The size of a finite `x` in units of the smallest positive double. -/
def units (x : Binary64) : Nat := x.significand * 2 ^ (max x.exponent 1 - 1)

/-- The number of `x` without its sign. -/
noncomputable def size (x : Binary64) : EReal :=
  if x.isInfinite then ⊤ else ((x.units / 2 ^ 1074 : ℝ) : EReal)

/-- The number of `x`, which is not NaN. -/
noncomputable def number (x : Binary64) : EReal :=
  if x.isNegative then -x.size else x.size

variable {x y : Binary64}

/-! ### Sizes -/

/-- If the pattern of `x` without its sign is less than that of `y`, its exponent is no greater, as
the exponent comes first. -/
theorem exponent_le_of_magnitude_lt
    (h : x.magnitude < y.magnitude) :
  x.exponent ≤ y.exponent
  := Nat.div_le_div_right (Nat.le_of_lt h)

theorem magnitude_eq
    (x : Binary64) :
  x.magnitude = x.exponent * 2 ^ 52 + x.fraction
  := (Nat.div_add_mod' _ _).symm

theorem fraction_lt
    (x : Binary64) :
  x.fraction < 2 ^ 52
  := Nat.mod_lt _ (Nat.two_pow_pos 52)

theorem significand_lt
    (x : Binary64) :
  x.significand < 2 * 2 ^ 52
  := by
  have hfraction := x.fraction_lt
  rw [significand]
  split <;> omega

/-- The double `x` is smaller than those of the next exponent. -/
theorem units_lt
    (x : Binary64) :
  x.units < 2 ^ 52 * 2 ^ x.exponent
  := by
  rcases Nat.eq_zero_or_pos x.exponent with hzero | hpos
  · rw [units, significand, if_pos hzero, hzero]
    simpa using x.fraction_lt
  · obtain ⟨e, he⟩ := Nat.exists_eq_succ_of_ne_zero (Nat.ne_of_gt hpos)
    rw [units, he, Nat.max_eq_left (by omega), Nat.succ_sub_one]
    calc x.significand * 2 ^ e < 2 * 2 ^ 52 * 2 ^ e :=
          Nat.mul_lt_mul_of_pos_right x.significand_lt (Nat.two_pow_pos e)
      _ = 2 ^ 52 * 2 ^ (e + 1) := by ring

theorem le_units
    (h : x.exponent ≠ 0) :
  2 ^ 52 * 2 ^ (x.exponent - 1) ≤ x.units
  := by
  rw [units, significand, if_neg h, Nat.max_eq_left (by omega)]
  apply Nat.mul_le_mul_right
  apply Nat.le_add_right

/-- If the pattern of `x` without its sign is less than that of `y`, so is its size. -/
theorem units_lt_units
    (h : x.magnitude < y.magnitude) :
  x.units < y.units
  := by
  rcases Nat.eq_or_lt_of_le (exponent_le_of_magnitude_lt h) with heq | hlt
  · have hfraction : x.fraction < y.fraction := by
      rw [x.magnitude_eq, y.magnitude_eq, heq] at h
      omega
    have hsignificand : x.significand < y.significand := by
      rw [significand, significand, heq]
      split <;> omega
    rw [units, units, heq]
    apply Nat.mul_lt_mul_of_pos_right hsignificand (Nat.two_pow_pos _)
  · calc x.units < 2 ^ 52 * 2 ^ x.exponent := x.units_lt
      _ ≤ 2 ^ 52 * 2 ^ (y.exponent - 1) :=
        Nat.mul_le_mul_left _ (Nat.pow_le_pow_right (by decide) (by omega))
      _ ≤ y.units := le_units (by omega)

theorem units_lt_units_iff :
  x.units < y.units ↔ x.magnitude < y.magnitude
  := by
  constructor
  · intro h
    by_contra hle
    rcases Nat.eq_or_lt_of_le (Nat.not_lt.mp hle) with heq | hlt
    · have hexponent : y.exponent = x.exponent := congrArg (· / 2 ^ 52) heq
      have hfraction : y.fraction = x.fraction := congrArg (· % 2 ^ 52) heq
      rw [units, units, significand, significand, hexponent, hfraction] at h
      apply Nat.lt_irrefl _ h
    · have hunits := units_lt_units hlt
      omega
  · apply units_lt_units

/-- If `x` and `y` are numbers, their sizes compare as their patterns without signs do; infinity is
larger than all finite doubles. -/
theorem size_lt_size_iff
    (hx : x.isNaN = false) (hy : y.isNaN = false) :
  x.size < y.size ↔ x.magnitude < y.magnitude
  := by
  simp only [isNaN, decide_eq_false_iff_not] at hx hy
  rw [size, size]
  by_cases hinfinite : x.isInfinite
  · rw [if_pos hinfinite]
    rw [isInfinite, beq_iff_eq] at hinfinite
    have htop : ¬⊤ < if y.isInfinite then ⊤ else ((y.units / 2 ^ 1074 : ℝ) : EReal) := not_top_lt
    simp only [htop, false_iff]
    omega
  · by_cases hlimit : y.isInfinite
    · rw [if_neg hinfinite, if_pos hlimit]
      rw [isInfinite, beq_iff_eq] at hinfinite hlimit
      have hfinite : ((x.units / 2 ^ 1074 : ℝ) : EReal) < ⊤ := EReal.coe_lt_top _
      simp only [hfinite, true_iff]
      omega
    · rw [if_neg hinfinite, if_neg hlimit, EReal.coe_lt_coe_iff,
        div_lt_div_iff_of_pos_right (by positivity), Nat.cast_lt, units_lt_units_iff]

theorem size_nonneg
    (x : Binary64) :
  0 ≤ x.size
  := by
  rw [size]
  split
  · apply le_top
  · apply EReal.coe_nonneg.mpr
    positivity

theorem size_zero :
  zero.size = 0
  := by
  have hunits : zero.units = 0 := by decide
  have hfinite : zero.isInfinite = false := by decide
  rw [size, hfinite, hunits]
  simp

theorem size_pos_iff
    (hx : x.isNaN = false) :
  0 < x.size ↔ 0 < x.magnitude
  := by
  have hzero : zero.isNaN = false := by decide
  rw [← size_zero, size_lt_size_iff hzero hx]
  rfl

theorem size_eq_zero
    (hx : x.isNaN = false) (hmagnitude : x.magnitude = 0) :
  x.size = 0
  := by
  apply le_antisymm _ x.size_nonneg
  rw [← not_lt, size_pos_iff hx]
  omega

/-! ### Numbers -/

/-- If `x` and `y` are numbers, they compare as their keys do. -/
theorem number_lt_number_iff
    (hx : x.isNaN = false) (hy : y.isNaN = false) :
  x.number < y.number ↔ x.key < y.key
  := by
  rw [number, number, key, key]
  cases x.isNegative with
  | true =>
    cases y.isNegative with
    | true =>
      simp only [if_true, EReal.neg_lt_neg_iff, size_lt_size_iff hy hx]
      omega
    | false =>
      simp only [if_true, Bool.false_eq_true, if_false]
      rcases Nat.eq_zero_or_pos x.magnitude with hzero | hpos
      · rw [size_eq_zero hx hzero, neg_zero, size_pos_iff hy]
        omega
      · have hnegative : -x.size < 0 := by
          rw [EReal.neg_lt_comm, neg_zero, size_pos_iff hx]
          apply hpos
        have hlt : -x.size < y.size := lt_of_lt_of_le hnegative y.size_nonneg
        simp only [hlt, true_iff]
        omega
  | false =>
    cases y.isNegative with
    | true =>
      simp only [if_true, Bool.false_eq_true, if_false]
      have hnonpos : -y.size ≤ 0 := by
        rw [EReal.neg_le, neg_zero]
        apply y.size_nonneg
      have hle : ¬x.size < -y.size := not_lt.mpr (le_trans hnonpos x.size_nonneg)
      simp only [hle, false_iff]
      omega
    | false =>
      simp only [Bool.false_eq_true, if_false, size_lt_size_iff hx hy]
      omega

/-- The double `x` is less than `y` just when neither is NaN and the number of `x` is less than that
of `y`. -/
theorem less_iff
    (x y : Binary64) :
  x.less y = true ↔ x.isNaN = false ∧ y.isNaN = false ∧ x.number < y.number
  := by
  simp only [less, Bool.and_eq_true, Bool.not_eq_true', decide_eq_true_eq, and_assoc]
  constructor
  · rintro ⟨hx, hy, hlt⟩
    use hx, hy, (number_lt_number_iff hx hy).mpr hlt
  · rintro ⟨hx, hy, hlt⟩
    use hx, hy, (number_lt_number_iff hx hy).mp hlt

/-- If `x` and `y` are numbers, and `x` is not less than `y`, it is at least as great. -/
theorem less_eq_false_iff
    (hx : x.isNaN = false) (hy : y.isNaN = false) :
  x.less y = false ↔ y.number ≤ x.number
  := by
  rw [Bool.eq_false_iff, ne_eq, less_iff]
  simp [hx, hy]

end TimeSeries.Binary64
