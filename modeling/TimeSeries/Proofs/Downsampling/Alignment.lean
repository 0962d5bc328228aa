import Mathlib.Data.Rat.Floor
import TimeSeries.Downsampling

/-!
# Where buckets start

Buckets are numbered from the one that starts at zero, and `bucketNumber` is the number of the
one that a timestamp lies in.  A bucket starts at its number of widths, or at the lower end of
time where this would be before it.  Only the lowest bucket can be cut off in this way, and it
still starts before all others, so that buckets are in the order of their numbers
(`bucketOf_lt_iff`).  All else about the starts of buckets follows from this.
-/

namespace TimeSeries

namespace Rule

/-- The number of the bucket of `t`: how many widths it is from zero, rounded down. -/
def bucketNumber (r : Rule) (t : Timestamp) : Int := ⌊(t.toInt : ℚ) / r.width.toNat⌋

/-- Where the bucket of `t` starts in time without a lower end. -/
def uncutStart (r : Rule) (t : Timestamp) : Int := r.width.toNat * r.bucketNumber t

variable {r : Rule} {t u : Timestamp}

theorem width_pos_int
    (r : Rule) :
  (0 : Int) < r.width.toNat
  := Int.natCast_pos.mpr r.width_pos

theorem bucketNumber_eq
    (r : Rule) (t : Timestamp) :
  r.bucketNumber t = t.toInt / r.width.toNat
  := Rat.floor_intCast_div_natCast _ _

/-! ### Stretches of time -/

/-- The bucket of `t` does not start after `t`. -/
theorem uncutStart_le
    (r : Rule) (t : Timestamp) :
  r.uncutStart t ≤ t.toInt
  := by
  rw [uncutStart, bucketNumber_eq]
  apply Int.mul_ediv_self_le (Int.ne_of_gt r.width_pos_int)

/-- The bucket of `t` does not end before `t` or at it. -/
theorem lt_uncutStart_add
    (r : Rule) (t : Timestamp) :
  t.toInt < r.uncutStart t + r.width.toNat
  := by
  rw [uncutStart, bucketNumber_eq]
  apply Int.lt_mul_ediv_self_add r.width_pos_int

/-- If the bucket of `u` has a greater number than that of `t`, it starts where the latter ends or
later. -/
theorem uncutStart_add_le
    (h : r.bucketNumber t < r.bucketNumber u) :
  r.uncutStart t + r.width.toNat ≤ r.uncutStart u
  := by
  rw [uncutStart, uncutStart, ← mul_add_one]
  apply Int.mul_le_mul_of_nonneg_left h (Int.le_of_lt r.width_pos_int)

/-- The bucket of `t` starts at `r.uncutStart t`, or is cut off at the lower end of time. -/
theorem toInt_bucketOf
    (r : Rule) (t : Timestamp) :
  (r.bucketOf t).toInt = max (r.uncutStart t) (-2 ^ 63)
  := by
  have hstart : t.toInt - t.toInt % r.width.toNat = r.uncutStart t := by
    rw [uncutStart, bucketNumber_eq, Int.emod_def]
    omega
  have hle := r.uncutStart_le t
  have hlower := t.le_toInt
  have hupper := t.toInt_lt
  rw [bucketOf, hstart, Int64.toInt_minValue, Int64.toInt_ofInt_of_le]
  · omega
  · omega

/-! ### Order -/

/-- If the bucket of `t` has a lower number than that of `u`, it starts first, even when it is cut
off: there is a timestamp in it, so that its end is not. -/
theorem bucketOf_lt_of_bucketNumber_lt
    (h : r.bucketNumber t < r.bucketNumber u) :
  r.bucketOf t < r.bucketOf u
  := by
  have hnext := uncutStart_add_le h
  have hend := r.lt_uncutStart_add t
  have hlower := t.le_toInt
  have hwidth := r.width_pos_int
  rw [Int64.lt_iff_toInt_lt, toInt_bucketOf, toInt_bucketOf]
  omega

theorem bucketOf_eq_of_bucketNumber_eq
    (h : r.bucketNumber t = r.bucketNumber u) :
  r.bucketOf t = r.bucketOf u
  := by
  rw [← Int64.toInt_inj, toInt_bucketOf, toInt_bucketOf, uncutStart, uncutStart, h]

/-- The buckets of `t` and `u` start in the order of their numbers. -/
theorem bucketOf_lt_iff :
  r.bucketOf t < r.bucketOf u ↔ r.bucketNumber t < r.bucketNumber u
  := by
  constructor
  · intro hlt
    rcases lt_trichotomy (r.bucketNumber t) (r.bucketNumber u) with h | h | h
    · exact h
    · rw [bucketOf_eq_of_bucketNumber_eq h] at hlt
      cases Int64.lt_irrefl hlt
    · cases Int64.lt_asymm hlt (bucketOf_lt_of_bucketNumber_lt h)
  · apply bucketOf_lt_of_bucketNumber_lt

/-- The buckets of `t` and `u` have one start just when they are one bucket. -/
theorem bucketOf_eq_iff :
  r.bucketOf t = r.bucketOf u ↔ r.bucketNumber t = r.bucketNumber u
  := by
  constructor
  · intro h
    apply le_antisymm
    · apply not_lt.mp
      rw [← bucketOf_lt_iff, h]
      apply Int64.lt_irrefl
    · apply not_lt.mp
      rw [← bucketOf_lt_iff, h]
      apply Int64.lt_irrefl
  · apply bucketOf_eq_of_bucketNumber_eq

/-- If `u` is no earlier than `t`, its bucket has no lower number. -/
theorem bucketNumber_mono
    (h : t ≤ u) :
  r.bucketNumber t ≤ r.bucketNumber u
  := by
  rw [bucketNumber_eq, bucketNumber_eq]
  apply Int.ediv_le_ediv r.width_pos_int (Int64.le_iff_toInt_le.mp h)

/-! ### Starts -/

/-- The bucket of `t` starts no later than `t`, also where it is cut off. -/
theorem bucketOf_le
    (r : Rule) (t : Timestamp) :
  r.bucketOf t ≤ t
  := by
  have hle := r.uncutStart_le t
  have hlower := t.le_toInt
  rw [Int64.le_iff_toInt_le, toInt_bucketOf]
  omega

/-- The start of a bucket is in that bucket, also where it is cut off at the lower end of time. -/
theorem bucketOf_bucketOf
    (r : Rule) (t : Timestamp) :
  r.bucketOf (r.bucketOf t) = r.bucketOf t
  := by
  rw [bucketOf_eq_iff]
  apply le_antisymm (bucketNumber_mono (r.bucketOf_le t))
  -- Before the bucket of `t` the start could only be if it were also before the uncut start.
  apply not_lt.mp
  intro hlt
  have hnext := uncutStart_add_le hlt
  have hend := r.lt_uncutStart_add (r.bucketOf t)
  rw [toInt_bucketOf] at hend
  omega

/-- The buckets of `r` divide time into stretches that are as long as its width. -/
structure Aligned (r : Rule) : Prop where
  bucketOf_le : ∀ t, (r.bucketOf t).toInt ≤ t.toInt
  sub_bucketOf_lt : ∀ t, t.toInt - (r.bucketOf t).toInt < r.width.toNat
  /-- A bucket starts at a multiple of the width, or at the lower end of time. -/
  dvd_or_eq : ∀ t, (r.width.toNat : Int) ∣ (r.bucketOf t).toInt ∨ r.bucketOf t = Int64.minValue
  mono : ∀ t u, t ≤ u → r.bucketOf t ≤ r.bucketOf u
  idempotent : ∀ t, r.bucketOf (r.bucketOf t) = r.bucketOf t
  /-- Two timestamps share a bucket just when they are as many whole widths from zero. -/
  eq_iff : ∀ t u, r.bucketOf t = r.bucketOf u
    ↔ ⌊(t.toInt : ℚ) / r.width.toNat⌋ = ⌊(u.toInt : ℚ) / r.width.toNat⌋

theorem aligned
    (r : Rule) :
  r.Aligned
  := by
  constructor
  · intro t
    apply Int64.le_iff_toInt_le.mp (r.bucketOf_le t)
  · intro t
    have hend := r.lt_uncutStart_add t
    rw [toInt_bucketOf]
    omega
  · intro t
    rw [← Int64.toInt_inj, Int64.toInt_minValue, toInt_bucketOf]
    rcases le_total (-2 ^ 63) (r.uncutStart t) with hle | hle
    · left
      rw [max_eq_left hle]
      apply dvd_mul_right
    · right
      apply max_eq_right hle
  · intro t u hle
    apply Int64.not_lt.mp
    rw [bucketOf_lt_iff, not_lt]
    apply bucketNumber_mono hle
  · apply r.bucketOf_bucketOf
  · intro t u
    apply bucketOf_eq_iff

/-- A rule can be made for every `width` up to the greatest timestamp, and its buckets are aligned
over all of time. -/
theorem exists_new_aligned
    (destination : String) {width : UInt64} (hpos : 1 ≤ width.toNat)
    (hlt : width.toNat < 2 ^ 63) (kind : AggregationKind) :
  ∃ r, new destination width kind = .ok r ∧ r.width = width ∧ r.Aligned
  := by
  apply Exists.intro
  use dif_pos ⟨hpos, hlt⟩, rfl
  apply aligned

/-- A case of `exists_new_aligned`: a width that does not divide the distance from zero to the lower
end of time, so that the lowest bucket is cut off there: it has the last eight timestamps of a
stretch of ten. -/
theorem exists_new_aligned_cut :
  1 ≤ (10 : UInt64).toNat ∧ (10 : UInt64).toNat < 2 ^ 63
    ∧ ∃ r, new "ten" 10 .sum = .ok r ∧ r.Aligned
      ∧ r.bucketOf (Int64.minValue + 7) = Int64.minValue
      ∧ r.bucketOf (Int64.minValue + 8) = Int64.minValue + 8
  := by
  obtain ⟨r, hnew, _, haligned⟩ :=
    @exists_new_aligned "ten" 10 (by decide) (by decide) .sum
  use by decide, by decide, r, hnew, haligned
  cases hnew
  decide

end Rule

end TimeSeries
