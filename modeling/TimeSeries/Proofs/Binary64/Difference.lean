import Mathlib
import TimeSeries.Binary64.Nearest
import TimeSeries.Proofs.Binary64

/-!
# Differences of doubles

The difference of two numbers is a number, except for that of an infinity and itself.  A
difference is computed on signs, whole numbers and exponents: both patterns are unpacked, and
what comes out is packed.  Neither makes a NaN of what is none.
-/

namespace TimeSeries.Binary64

open Float.Model Float.Model.UnpackedFloat

variable {x y : Binary64} {u v : UnpackedFloat}

/-- Infinity with a sign. -/
def signedInfinity : Sign → Binary64
  | .positive => infinity
  | .negative => ⟨0xfff0000000000000⟩

/-- The sign of `x` with a whole number and an exponent, or what there is instead. -/
def unpacked (x : Binary64) : UnpackedFloat := UnpackedFloat.unpack .binary64 x.bits.toBitVec

/-- The pattern of `u`, which was unpacked or computed. -/
def packed (u : UnpackedFloat) : Binary64 := ⟨.ofBitVec (UnpackedFloat.pack .binary64 u)⟩

/-! ### Fields -/

theorem magnitude_eq_mod
    (x : Binary64) :
  x.magnitude = x.bits.toNat % 2 ^ 63
  := by
  rw [magnitude, UInt64.toNat_and]
  apply Nat.and_two_pow_sub_one_eq_mod _ 63

theorem toNat_unpackExponent
    (x : Binary64) :
  (@unpackExponent .binary64 x.bits.toBitVec).toNat = x.exponent
  := by
  have hfield : (@unpackExponent .binary64 x.bits.toBitVec).toNat = x.bits.toNat / 2 ^ 52 % 2 ^ 11
      := by
    simp [unpackExponent_def, BitVec.extractLsb'_toNat, Nat.shiftRight_eq_div_pow]
  rw [hfield, exponent, magnitude_eq_mod]
  omega

theorem toNat_unpackMantissa
    (x : Binary64) :
  (@unpackMantissa .binary64 x.bits.toBitVec).toNat = x.fraction
  := by
  simp [unpackMantissa_def, BitVec.extractLsb'_toNat, fraction, magnitude_eq_mod]

/-- The library takes `x` for NaN just when its exponent is full and there is a fraction, as `isNaN`
does. -/
theorem isNaNBits_bits
    (x : Binary64) :
  @isNaNBits .binary64 x.bits.toBitVec = x.isNaN
  := by
  have hmagnitude := x.magnitude_eq
  have hmod := x.magnitude_eq_mod
  have hfraction := x.fraction_lt
  have hexponent : @unpackExponent .binary64 x.bits.toBitVec = -1#_ ↔ x.exponent = 2047 := by
    rw [← BitVec.toNat_inj, toNat_unpackExponent]
    rfl
  have hmantissa : @unpackMantissa .binary64 x.bits.toBitVec = 0#_ ↔ x.fraction = 0 := by
    rw [← BitVec.toNat_inj, toNat_unpackMantissa]
    rfl
  rw [isNaNBits, isNaN, decide_eq_decide, hexponent, ne_eq, hmantissa]
  omega

/-! ### Packing -/

theorem isNaN_unpacked
    (x : Binary64) :
  x.unpacked.isNaN = x.isNaN
  := by
  rw [← isNaNBits_bits, unpacked, isNaNBits, UnpackedFloat.unpack]
  split_ifs with hfull hfraction hzero hfraction
  · exact (decide_eq_false fun h => h.2 hfraction).symm
  · exact (decide_eq_true ⟨hfull, hfraction⟩).symm
  all_goals exact (decide_eq_false fun h => hfull h.1).symm

/-- The pattern of `u` is NaN just when `u` is: too large a number is packed as infinity, another
one with an exponent that is not full. -/
theorem isNaN_packed
    (u : UnpackedFloat) :
  (packed u).isNaN = u.isNaN
  := by
  rw [← isNaNBits_bits]
  show @isNaNBits .binary64 (UnpackedFloat.pack .binary64 u) = u.isNaN
  cases u with
  | notANumber => apply isNaNBits_packedNaN
  | infinity s => cases s <;> rfl
  | zero s => cases s <;> rfl
  | finite s m e hm =>
    rw [UnpackedFloat.pack]
    dsimp only
    split_ifs with hlarge hnormal
    · cases s <;> rfl
    · rw [isNaNBits, unpackExponent_packComponents]
      apply decide_eq_false
      rintro ⟨hfull, -⟩
      have hlt : (e + 1023 + 52).toNat + 1 < 2048 := Nat.lt_of_not_le hlarge
      have htoNat := congrArg BitVec.toNat hfull
      rw [BitVec.toNat_ofNat] at htoNat
      change (e + 1023 + 52).toNat % 2048 = 2047 at htoNat
      omega
    · rw [isNaNBits, unpackExponent_packComponents]
      apply decide_eq_false
      rintro ⟨hfull, -⟩
      cases hfull

/-- If `x` is a number, it is packed again as it was. -/
theorem packed_unpacked
    (hx : x.isNaN = false) :
  packed x.unpacked = x
  := by
  rw [packed, unpacked, pack_unpack, isNaNBits_bits, hx]
  rfl

theorem unpacked_eq_infinity_iff
    (x : Binary64) (s : Sign) :
  x.unpacked = .infinity s ↔ x = signedInfinity s
  := by
  constructor
  · intro h
    have hx : x.isNaN = false := by
      rw [← isNaN_unpacked, h]
      rfl
    rw [← packed_unpacked hx, h]
    cases s <;> rfl
  · rintro rfl
    cases s <;> rfl

/-! ### Differences -/

theorem isNaN_round
    (s : Sign) (m : Nat) (e : Int) :
  (UnpackedFloat.round .binary64 s m e).isNaN = false
  := by
  unfold UnpackedFloat.round roundWithAccuracy
  dsimp only
  split_ifs <;> rfl

theorem isNaN_normalize
    (m e : Int) (s : Sign) :
  (UnpackedFloat.normalize .binary64 m e s).isNaN = false
  := by
  rw [UnpackedFloat.normalize]
  split
  · apply isNaN_round
  · rfl
  · apply isNaN_round

theorem isNaN_unpacked_sub_iff_of_number
    (h : (UnpackedFloat.sub .binary64 u v).isNaN = false)
    (hne : ∀ s, u = .infinity s → v ≠ .infinity s) :
  (UnpackedFloat.sub .binary64 u v).isNaN = true ↔ ∃ s, u = .infinity s ∧ v = .infinity s
  := by
  rw [h]
  apply iff_of_false Bool.false_ne_true
  rintro ⟨s, hu, hv⟩
  apply hne s hu hv

/-- If `u` and `v` are numbers, only equal infinities have no difference. -/
theorem isNaN_unpacked_sub_iff
    (hu : u.isNaN = false) (hv : v.isNaN = false) :
  (UnpackedFloat.sub .binary64 u v).isNaN = true ↔ ∃ s, u = .infinity s ∧ v = .infinity s
  := by
  cases u with
  | notANumber => cases hu
  | infinity s =>
    cases v with
    | notANumber => cases hv
    | infinity t =>
      cases s with
      | positive =>
        cases t with
        | positive => apply iff_of_true rfl ⟨.positive, rfl, rfl⟩
        | negative => apply isNaN_unpacked_sub_iff_of_number rfl; rintro _ ⟨⟩ ⟨⟩
      | negative =>
        cases t with
        | positive => apply isNaN_unpacked_sub_iff_of_number rfl; rintro _ ⟨⟩ ⟨⟩
        | negative => apply iff_of_true rfl ⟨.negative, rfl, rfl⟩
    | zero | finite =>
      apply isNaN_unpacked_sub_iff_of_number rfl
      rintro _ _ ⟨⟩
  | zero s =>
    cases v with
    | notANumber => cases hv
    | infinity | finite =>
      apply isNaN_unpacked_sub_iff_of_number rfl
      rintro _ ⟨⟩
    | zero t =>
      apply isNaN_unpacked_sub_iff_of_number
      · cases s <;> cases t <;> rfl
      · rintro _ ⟨⟩
  | finite =>
    cases v with
    | notANumber => cases hv
    | infinity | zero =>
      apply isNaN_unpacked_sub_iff_of_number rfl
      rintro _ ⟨⟩
    | finite =>
      apply isNaN_unpacked_sub_iff_of_number
      · apply isNaN_normalize
      · rintro _ ⟨⟩

/-- If `x` is NaN, it is still NaN when it is quiet. -/
theorem isNaN_quiet
    (h : x.isNaN = true) :
  x.quiet.isNaN = true
  := by
  rw [isNaN, decide_eq_true_eq] at *
  apply Nat.lt_of_lt_of_le h
  rw [magnitude, magnitude, quiet, UInt64.toNat_and, UInt64.toNat_and, UInt64.toNat_or,
    Nat.and_or_distrib_right]
  apply Nat.left_le_or

theorem isNaN_ofFloat
    (f : Float) :
  (ofFloat f).isNaN = f.isNaN
  := by
  have hbits : f.isNaN = Binary64.isNaN ⟨f.toBits⟩ := isNaN_unpacked ⟨f.toBits⟩
  rw [ofFloat]
  split
  · rename_i hnan
    rw [hnan]
    decide
  · exact hbits.symm

/-- If `x` and `y` are numbers, they are subtracted unpacked. -/
theorem isNaN_toFloat_sub
    (hx : x.isNaN = false) (hy : y.isNaN = false) :
  (x.toFloat - y.toFloat).isNaN = (UnpackedFloat.sub .binary64 x.unpacked y.unpacked).isNaN
  := by
  rw [← isNaN_packed, ← isNaN_unpacked]
  nth_rewrite 2 [← packed_unpacked hx]
  nth_rewrite 2 [← packed_unpacked hy]
  rfl

/-- The difference of `x` and `y` is a number unless one of them is NaN or both are the same
infinity. -/
theorem isNaN_sub_iff
    (x y : Binary64) :
  (x - y).isNaN = true ↔
    x.isNaN = true ∨ y.isNaN = true ∨ ∃ s, x = signedInfinity s ∧ y = signedInfinity s
  := by
  show (lift (· - ·) x y).isNaN = true ↔ _
  rw [lift]
  split_ifs with hx hy
  · simp only [isNaN_quiet hx, hx, true_or]
  · simp only [isNaN_quiet hy, hy, true_or, or_true]
  · rw [Bool.not_eq_true] at hx hy
    rw [isNaN_ofFloat, isNaN_toFloat_sub hx hy,
      isNaN_unpacked_sub_iff ((isNaN_unpacked x).trans hx) ((isNaN_unpacked y).trans hy)]
    simp only [unpacked_eq_infinity_iff, hx, hy, Bool.false_eq_true, false_or]

end TimeSeries.Binary64
