import TimeSeries.Proofs.Aggregation.Extremes
import TimeSeries.Proofs.Binary64.Difference

/-!
# The range of values

The range starts from finite bounds and lets each value replace them, while the least and the
greatest value start from the first one, whatever it is.  `exists_spans` tells the values
apart for which this makes no difference: the first one is a number, and the numbers are not
all one infinity.  For these the range is the difference of the extremes.  For others that
difference is not a number, and the range is a number all the same.
-/

namespace TimeSeries

open Binary64
open Float.Model.UnpackedFloat (Sign)

namespace Binary64

variable {x y : Binary64}

theorem natAbs_key
    (x : Binary64) :
  x.key.natAbs = x.magnitude
  := by
  rw [key]
  split <;> omega

/-- If `x` is a number, its key is between those of the infinities. -/
theorem natAbs_key_le
    (hx : x.isNaN = false) :
  x.key.natAbs ≤ 0x7ff0000000000000
  := by
  rw [isNaN, decide_eq_false_iff_not] at hx
  rw [natAbs_key]
  omega

/-- If `x` and `y` have the same key, and this is not that of the zeros, they are equal. -/
theorem eq_of_key
    (h : x.key = y.key) (hne : y.key ≠ 0) :
  x = y
  := by
  have hx := x.magnitude_eq_mod
  have hy := y.magnitude_eq_mod
  have hxlt := x.bits.toNat_lt
  have hylt := y.bits.toNat_lt
  have hnegative (z : Binary64) : z.isNegative = true ↔ 2 ^ 63 ≤ z.bits.toNat := decide_eq_true_iff
  have hbits : x.bits.toNat = y.bits.toNat := by
    simp only [key, hnegative] at h hne
    split_ifs at h hne <;> omega
  cases x
  cases y
  congr
  apply UInt64.toNat_inj.mp hbits

theorem less_iff_key :
  x.less y = true ↔ x.isNaN = false ∧ y.isNaN = false ∧ x.key < y.key
  := by
  simp only [less, Bool.and_eq_true, Bool.not_eq_true', decide_eq_true_eq, and_assoc]

end Binary64

namespace Extreme

variable {kind : Extreme} {values : List Binary64} {first m v : Binary64}

/-- The sign of the infinity that every other number is more extreme than. -/
def limit : Extreme → Sign
  | .min => .positive
  | .max => .negative

/-- The more extreme of `v` and what the range starts from. -/
def bounded (kind : Extreme) (v : Binary64) : Binary64 :=
  if kind.better v kind.bound then v else kind.bound

/-! ### Comparisons -/

theorem isNaN_bound
    (kind : Extreme) :
  kind.bound.isNaN = false
  := by
  cases kind <;> decide

/-- If `v` is more extreme than `m`, both are numbers. -/
theorem isNaN_of_better
    (h : kind.better v m = true) :
  v.isNaN = false ∧ m.isNaN = false
  := by
  cases kind with
  | min =>
    obtain ⟨hv, hm, -⟩ := (less_iff v m).mp h
    use hv, hm
  | max =>
    obtain ⟨hm, hv, -⟩ := (less_iff m v).mp h
    use hv, hm

theorem better_trans
    {w : Binary64} (hv : kind.better v m = true) (hm : kind.better m w = true) :
  kind.better v w = true
  := by
  cases kind with
  | min => apply less_trans hv hm
  | max => apply less_trans hm hv

/-- If `v` is more extreme than `w`, and the number `m` is not, then `v` is more extreme than
`m`. -/
theorem better_of_not_better
    {w : Binary64} (hv : kind.better v w = true) (hm : kind.better m w = false)
    (hnumber : m.isNaN = false) :
  kind.better v m = true
  := by
  obtain ⟨hvnumber, hwnumber⟩ := isNaN_of_better hv
  rw [better_eq_false_iff hnumber hwnumber] at hm
  by_contra hnot
  rw [Bool.not_eq_true, better_eq_false_iff hvnumber hnumber] at hnot
  have hfalse := (better_eq_false_iff hvnumber hwnumber).mpr (hm.trans hnot)
  rw [hv] at hfalse
  cases hfalse

theorem better_limit
    (kind : Extreme) (m : Binary64) :
  kind.better (signedInfinity kind.limit) m = false
  := by
  by_contra h
  rw [Bool.not_eq_false] at h
  have hm := natAbs_key_le (isNaN_of_better h).2
  cases kind with
  | min =>
    have hlt : 0x7ff0000000000000 < m.key := (less_iff_key.mp h).2.2
    omega
  | max =>
    have hlt : m.key < -0x7ff0000000000000 := (less_iff_key.mp h).2.2
    omega

/-- Every number `v` but the limit is more extreme than the limit. -/
theorem better_limit_iff :
  kind.better v (signedInfinity kind.limit) = true
    ↔ v.isNaN = false ∧ v ≠ signedInfinity kind.limit
  := by
  constructor
  · intro h
    use (isNaN_of_better h).1
    rintro rfl
    rw [better_limit] at h
    cases h
  · rintro ⟨hv, hne⟩
    have hle := natAbs_key_le hv
    by_contra h
    apply hne
    cases kind with
    | min =>
      have hlt : ¬v.key < 0x7ff0000000000000 := fun hlt => h (less_iff_key.mpr ⟨hv, rfl, hlt⟩)
      apply eq_of_key (show v.key = 0x7ff0000000000000 by omega) (by decide)
    | max =>
      have hlt : ¬-0x7ff0000000000000 < v.key := fun hlt => h (less_iff_key.mpr ⟨rfl, hv, hlt⟩)
      apply eq_of_key (show v.key = -0x7ff0000000000000 by omega) (by decide)

/-- If `m` is a number, the bound does not replace it just when `m` is not the limit: there is no
number between the two. -/
theorem bounded_eq_iff
    (hm : m.isNaN = false) :
  kind.bounded m = m ↔ m ≠ signedInfinity kind.limit
  := by
  constructor
  · rintro hbounded rfl
    rw [bounded, better_limit] at hbounded
    cases kind <;> cases hbounded
  · intro hne
    rw [bounded]
    split
    · rfl
    · rename_i h
      have hlimit := better_limit_iff.mpr ⟨hm, hne⟩
      symm
      cases kind with
      | min =>
        have hlt : m.key < 0x7ff0000000000000 := (less_iff_key.mp hlimit).2.2
        have hle : ¬m.key < 0x7fefffffffffffff := fun hlt => h (less_iff_key.mpr ⟨hm, rfl, hlt⟩)
        apply eq_of_key (show m.key = 0x7fefffffffffffff by omega) (by decide)
      | max =>
        have hlt : -0x7ff0000000000000 < m.key := (less_iff_key.mp hlimit).2.2
        have hle : ¬-0x7fefffffffffffff < m.key := fun hlt => h (less_iff_key.mpr ⟨rfl, hm, hlt⟩)
        apply eq_of_key (show m.key = -0x7fefffffffffffff by omega) (by decide)

/-! ### Picks -/

/-- If `first` is NaN, it remains. -/
theorem pick_of_isNaN
    (hfirst : first.isNaN = true) (values : List Binary64) :
  kind.pick first values = first
  := by
  induction values using List.reverseRecOn with
  | nil => rfl
  | append_singleton values v ih =>
    rw [pick_concat, ih]
    split
    · rename_i h
      rw [(isNaN_of_better h).2] at hfirst
      cases hfirst
    · rfl

/-- What remains is `first` or one of `values`. -/
theorem pick_mem
    (kind : Extreme) (first : Binary64) (values : List Binary64) :
  kind.pick first values ∈ first :: values
  := by
  induction values using List.reverseRecOn with
  | nil => apply List.mem_singleton_self
  | append_singleton values v ih =>
    rw [pick_concat]
    split
    · simp
    · rw [← List.cons_append]
      apply List.mem_append_left _ ih

theorem isNaN_pick
    (kind : Extreme) (hfirst : first.isNaN = false) (values : List Binary64) :
  (kind.pick first values).isNaN = false
  := by
  induction values using List.reverseRecOn with
  | nil => exact hfirst
  | append_singleton values v ih =>
    rw [pick_concat]
    split
    · rename_i h
      apply (isNaN_of_better h).1
    · exact ih

/-- One step: if the limit remains of `v` and `m`, then `m` is the limit, and `v` is too or is
NaN. -/
theorem replaced_eq_limit_iff :
  (if kind.better v m then v else m) = signedInfinity kind.limit
    ↔ m = signedInfinity kind.limit
      ∧ (v.isNaN = false → v = signedInfinity kind.limit)
  := by
  split
  · rename_i h
    constructor
    · rintro rfl
      rw [better_limit] at h
      cases h
    · rintro ⟨rfl, hv⟩
      apply hv (isNaN_of_better h).1
  · rename_i h
    constructor
    · rintro rfl
      rw [better_limit_iff] at h
      tauto
    · exact And.left

/-- Run: the limit remains just when it comes first and `values` have no other number. -/
theorem pick_eq_limit_iff
    (values : List Binary64) :
  kind.pick first values = signedInfinity kind.limit
    ↔ first = signedInfinity kind.limit
      ∧ ∀ v ∈ values, v.isNaN = false → v = signedInfinity kind.limit
  := by
  induction values using List.reverseRecOn with
  | nil => simp [pick]
  | append_singleton values v ih =>
    rw [pick_concat, replaced_eq_limit_iff, ih, List.forall_mem_append, List.forall_mem_singleton,
      and_assoc]

/-- One step: if `m` is a number, `v` replaces what the range remembers of `m`, unless it only
replaces what is beyond the bound. -/
theorem bounded_replaced
    (hm : m.isNaN = false) :
  kind.bounded (if kind.better v m then v else m)
    = if kind.better v (kind.bounded m) then v else kind.bounded m
  := by
  cases hbound : kind.better m kind.bound with
  | true =>
    have hbounded : kind.bounded m = m := by rw [bounded, hbound, if_pos rfl]
    rw [hbounded]
    split
    · rename_i h
      rw [bounded, better_trans h hbound, if_pos rfl]
    · exact hbounded
  | false =>
    have hbounded : kind.bounded m = kind.bound := by simp [bounded, hbound]
    rw [hbounded]
    cases hv : kind.better v kind.bound with
    | true => simp [better_of_not_better hv hbound hm, bounded, hv]
    | false =>
      split <;> simp [bounded, hbound, hv]

/-- Run: if `first` is a number, the range remembers the extreme of all, unless its own bound is
more extreme. -/
theorem pick_bounded
    (hfirst : first.isNaN = false) (values : List Binary64) :
  kind.pick (kind.bounded first) values = kind.bounded (kind.pick first values)
  := by
  induction values using List.reverseRecOn with
  | nil => rfl
  | append_singleton values v ih =>
    rw [pick_concat, pick_concat, ih, bounded_replaced (kind.isNaN_pick hfirst values)]

end Extreme

/-! ### The difference of the extremes -/

variable {values : List Binary64} {first : Binary64}

/-- The first of `values` is a number, and the numbers among them are not all one infinity. -/
structure Measured (values : List Binary64) : Prop where
  isNaN_head : ∀ v ∈ values.head?, v.isNaN = false
  exists_ne : ∀ s, ∃ v ∈ values, v.isNaN = false ∧ v ≠ signedInfinity s

/-- The results for `values`, of which there are some. -/
structure Spans (values : List Binary64) (least greatest span : Binary64) : Prop where
  min_eq : aggregate .min values = .ok least
  max_eq : aggregate .max values = .ok greatest
  range_eq : aggregate .range values = .ok span
  /-- The range is a number, also of values among which there are others. -/
  isNaN_eq : span.isNaN = false
  same_iff : (span = greatest - least ∨ span.isNaN = true ∧ (greatest - least).isNaN = true)
    ↔ Measured values
  /-- The extremes themselves are remembered. -/
  remembered_iff : values.foldl Aggregator.append (.new .range) = .range least greatest false
    ↔ Measured values

/-- What the range remembers of `values` differs by a number. -/
theorem isNaN_span
    (values : List Binary64) :
  (Extreme.max.pick Extreme.max.bound values - Extreme.min.pick Extreme.min.bound values).isNaN
    = false
  := by
  have hnumber (kind : Extreme) := kind.isNaN_pick kind.isNaN_bound values
  rw [Bool.eq_false_iff, ne_eq, isNaN_sub_iff, hnumber, hnumber]
  rintro (hnan | hnan | ⟨s, hmax, hmin⟩)
  · cases hnan
  · cases hnan
  · cases s with
    | positive =>
      obtain ⟨hbound, -⟩ := (Extreme.pick_eq_limit_iff values).mp hmin
      cases hbound
    | negative =>
      obtain ⟨hbound, -⟩ := (Extreme.pick_eq_limit_iff values).mp hmax
      cases hbound

/-- For each sign `s` the infinity of that sign is the limit of one of the extremes. -/
theorem exists_limit_eq
    (s : Sign) :
  ∃ kind : Extreme, kind.limit = s
  := by
  cases s with
  | positive => use .min; rfl
  | negative => use .max; rfl

theorem not_measured
    (hfirst : first.isNaN = true) (values : List Binary64) :
  ¬Measured (first :: values)
  := by
  intro h
  have hnumber := h.isNaN_head first rfl
  rw [hfirst] at hnumber
  cases hnumber

theorem measured_iff
    (hfirst : first.isNaN = false) (values : List Binary64) :
  Measured (first :: values) ↔ ∀ kind : Extreme, kind.pick first values ≠ signedInfinity kind.limit
  := by
  simp only [ne_eq, Extreme.pick_eq_limit_iff]
  constructor
  · rintro h kind ⟨hlimit, hvalues⟩
    obtain ⟨v, hv, hnumber, hne⟩ := h.exists_ne kind.limit
    apply hne
    rcases List.mem_cons.mp hv with rfl | hv
    · exact hlimit
    · apply hvalues v hv hnumber
  · intro h
    constructor
    · rintro v ⟨⟩
      exact hfirst
    · intro s
      obtain ⟨kind, rfl⟩ := exists_limit_eq s
      by_contra hall
      push Not at hall
      apply h kind
      use hall first List.mem_cons_self hfirst
      intro v hv
      apply hall v (List.mem_cons_of_mem _ hv)

/-- If one extreme is the infinity that all numbers are, so is the `other`. -/
theorem pick_eq_of_pick_eq_limit
    {kind : Extreme} (other : Extreme) (hfirst : first.isNaN = false)
    (h : kind.pick first values = signedInfinity kind.limit) :
  other.pick first values = signedInfinity kind.limit
  := by
  obtain ⟨hlimit, hvalues⟩ := (Extreme.pick_eq_limit_iff values).mp h
  rcases List.mem_cons.mp (other.pick_mem first values) with heq | hmem
  · rw [heq, hlimit]
  · apply hvalues _ hmem (other.isNaN_pick hfirst values)

/-- If there are `values`, the difference of their extremes is a number just when they are
measured. -/
theorem isNaN_sub_among_iff
    (hne : values ≠ []) :
  (Extreme.max.among values - Extreme.min.among values).isNaN = true ↔ ¬Measured values
  := by
  obtain ⟨first, values, rfl⟩ := List.exists_cons_of_ne_nil hne
  rw [isNaN_sub_iff, Extreme.among, Extreme.among]
  cases hfirst : first.isNaN with
  | true =>
    simp only [Extreme.pick_of_isNaN hfirst, hfirst, not_measured hfirst, true_or,
      not_false_eq_true]
  | false =>
    rw [measured_iff hfirst, Extreme.isNaN_pick _ hfirst, Extreme.isNaN_pick _ hfirst]
    simp only [Bool.false_eq_true, false_or, ne_eq, not_forall, not_not]
    constructor
    · rintro ⟨s, hmax, hmin⟩
      cases s with
      | positive => use .min, hmin
      | negative => use .max, hmax
    · rintro ⟨kind, hlimit⟩
      use kind.limit, pick_eq_of_pick_eq_limit .max hfirst hlimit
      apply pick_eq_of_pick_eq_limit .min hfirst hlimit

/-- If there are `values`, what starts from the bounds comes to their extremes just when they are
measured. -/
theorem pick_bound_eq_iff
    (hne : values ≠ []) :
  (∀ kind : Extreme, kind.pick kind.bound values = kind.among values) ↔ Measured values
  := by
  obtain ⟨first, values, rfl⟩ := List.exists_cons_of_ne_nil hne
  cases hfirst : first.isNaN with
  | true =>
    simp only [not_measured hfirst, iff_false, not_forall]
    use .min
    intro heq
    have hnumber := Extreme.min.isNaN_pick Extreme.min.isNaN_bound (first :: values)
    rw [heq, Extreme.among, Extreme.pick_of_isNaN hfirst, hfirst] at hnumber
    cases hnumber
  | false =>
    rw [measured_iff hfirst]
    apply forall_congr'
    intro kind
    have hbounded :
        kind.pick kind.bound (first :: values) = kind.bounded (kind.pick first values) :=
      Extreme.pick_bounded hfirst values
    rw [hbounded]
    apply Extreme.bounded_eq_iff (kind.isNaN_pick hfirst values)

/-- If there are `values`, they have a `least`, a `greatest` and a range, and the range is the
difference of the two just when the first value is a number and the numbers are not all one
infinity. -/
theorem exists_spans
    (hne : values ≠ []) :
  ∃ least greatest span, Spans values least greatest span
  := by
  have hremembered := Aggregator.foldl_append_new .range values
  have hempty : values.isEmpty = false := by simpa using hne
  have hspan := isNaN_span values
  have hdifference := isNaN_sub_among_iff hne
  have hbounds := pick_bound_eq_iff hne
  rw [Aggregator.memory, hempty] at hremembered
  use Extreme.min.among values, Extreme.max.among values,
    Extreme.max.pick Extreme.max.bound values - Extreme.min.pick Extreme.min.bound values
  constructor
  · apply @Extreme.result_of_comes .min _ hne _ (Aggregator.comes_foldl _ _)
  · apply @Extreme.result_of_comes .max _ hne _ (Aggregator.comes_foldl _ _)
  · rw [aggregate, hremembered]
    rfl
  · exact hspan
  · constructor
    · intro hsame
      by_contra hmeasured
      have hnan := hdifference.mpr hmeasured
      rcases hsame with heq | ⟨hnot, -⟩
      · rw [heq, hnan] at hspan
        cases hspan
      · rw [hspan] at hnot
        cases hnot
    · intro hmeasured
      left
      rw [hbounds.mpr hmeasured, hbounds.mpr hmeasured]
  · rw [hremembered, ← hbounds]
    constructor
    · intro heq
      obtain ⟨hmin, hmax, -⟩ := Aggregator.range.inj heq
      rintro (_ | _)
      · exact hmin
      · exact hmax
    · intro hall
      rw [← hall .min, ← hall .max]
      rfl

/-- A case of `exists_spans`: an infinity among numbers, where the range is infinite, and so is the
difference. -/
theorem exists_spans_of_infinity :
  [infinity, .one] ≠ [] ∧ Measured [infinity, .one]
    ∧ ∃ least greatest span, Spans [infinity, .one] least greatest span
  := by
  use List.cons_ne_nil _ _
  constructor
  · constructor
    · decide
    · intro s
      use .one
      cases s <;> decide
  · apply exists_spans (List.cons_ne_nil _ _)

/-- Of `infinity` alone the range is infinite, while the extremes have no difference. -/
theorem range_ne_sub :
  aggregate .min [infinity] = .ok infinity ∧ aggregate .max [infinity] = .ok infinity
    ∧ aggregate .range [infinity] = .ok infinity ∧ infinity.isNaN = false
    ∧ (infinity - infinity).isNaN = true
  := by
  decide +kernel

end TimeSeries
