import Mathlib.Algebra.Order.BigOperators.Group.List
import Mathlib.Algebra.Order.Field.Rat
import Mathlib.Tactic.FieldSimp
import Mathlib.Tactic.Ring
import TimeSeries.Proofs.Aggregation.Folding

/-!
# Variances as mean squares

A variance is worked out from a count, a sum and a sum of squares, of which each is a running one.
What is done to them needs no more than that there are numbers to add, multiply and divide.
Doubles are one kind of such numbers, and what is done to these is what an aggregator does
(`aggregate_spread`).  Rational numbers are another one, where nothing is rounded.  There the
formula of a population is the mean square of the differences from the mean, and that of a sample
the same with one value less to divide by.
-/

namespace TimeSeries

/-- What remains of numbers to work out their variance: two sums and a count.  The numbers are of
the type `α`, and are counted in `κ`. -/
structure Moments (α κ : Type) where
  sum : α
  squares : α
  count : κ

namespace Moments

variable {α κ : Type} [Add α] [Mul α] [OfNat α 0] [Add κ] [OfNat κ 0] [OfNat κ 1]

/-- Takes in the number `v`. -/
def append (m : Moments α κ) (v : α) : Moments α κ := ⟨m.sum + v, m.squares + v * v, m.count + 1⟩

/-- What remains of `values`. -/
def ofList (values : List α) : Moments α κ := values.foldl append ⟨0, 0, 0⟩

/-- The variance of a population, or the one estimated from a sample if `ofSample` holds. -/
def variance [Sub α] [Div α] [OfNat α 1] [OfNat α 2] [DecidableEq κ] (ofCount : κ → α)
    (m : Moments α κ) (ofSample : Bool) : α :=
  if ofSample then
    if m.count = 1 then 0 else sampleVariance m.sum m.squares (ofCount m.count)
  else populationVariance m.sum m.squares (ofCount m.count)

theorem ofList_concat
    (values : List α) (v : α) :
  (ofList (values ++ [v]) : Moments α κ) = (ofList values).append v
  := List.foldl_append

end Moments

/-! ### Doubles -/

/-- The aggregation that measures how far values lie apart. -/
def Spread.aggregation : Spread → AggregationKind
  | ⟨false, true⟩ => .populationDeviation
  | ⟨true, true⟩ => .sampleDeviation
  | ⟨false, false⟩ => .populationVariance
  | ⟨true, false⟩ => .sampleVariance

/-- The root of `variance`, where it is to be taken. -/
def Spread.rooted (kind : Spread) (variance : Binary64) : Binary64 :=
  if kind.root then variance.sqrt else variance

theorem Binary64.zero_eq :
  (0 : Binary64) = .zero
  := by decide +kernel

/-- An aggregator of a `kind` that measures how far values lie apart takes them in as
`Moments.append` does. -/
theorem foldl_append_spread
    (kind : Spread) (values : List Binary64) :
  let m : Moments Binary64 UInt64 := .ofList values
  values.foldl Aggregator.append (.new kind.aggregation)
    = .moments kind m.sum m.squares m.count
  := by
  induction values using List.reverseRecOn with
  | nil =>
    have hnew : Aggregator.new kind.aggregation = .moments kind .zero .zero 0 := by
      obtain ⟨ofSample, root⟩ := kind
      cases ofSample <;> cases root <;> rfl
    rw [← Binary64.zero_eq] at hnew
    apply hnew
  | append_singleton values v ih =>
    rw [List.foldl_append, ih, Moments.ofList_concat]
    rfl

theorem measure_eq
    (kind : Spread) (m : Moments Binary64 UInt64) :
  kind.measure m.sum m.squares m.count = kind.rooted (m.variance .ofCount kind.ofSample)
  := by
  rw [Spread.measure, Moments.variance, Binary64.zero_eq]
  rfl

/-- If there are `values`, and a word counts them, the result for doubles is worked out by
`Moments.variance`. -/
theorem aggregate_spread
    (kind : Spread) {values : List Binary64} (hne : values ≠ [])
    (hlength : values.length < wordLimit) :
  aggregate kind.aggregation values
    = .ok (kind.rooted ((Moments.ofList values).variance .ofCount kind.ofSample))
  := by
  have hsome := Aggregator.isEmpty_foldl_append kind.aggregation hne hlength
  rw [aggregate, Aggregator.result.eq_def, hsome, foldl_append_spread, ← measure_eq]
  rfl

/-! ### Rational numbers -/

/-- What remains of rational `values` are their sums and their count, if `counted` goes up by one
with each. -/
theorem Moments.ofList_eq
    {κ : Type} [Add κ] [OfNat κ 0] [OfNat κ 1] {counted : ℕ → κ} (hzero : counted 0 = 0)
    (hsucc : ∀ n, counted (n + 1) = counted n + 1) (values : List ℚ) :
  ofList values = ⟨values.sum, (values.map fun v => v * v).sum, counted values.length⟩
  := by
  induction values using List.reverseRecOn with
  | nil =>
    rw [List.length_nil, hzero]
    rfl
  | append_singleton values v ih =>
    rw [ofList_concat, append, ih, List.length_append, List.length_singleton, hsucc]
    simp

/-- The variance of rational `values`, of a population or estimated from a sample. -/
def exactVariance (ofSample : Bool) (values : List ℚ) : ℚ :=
  (Moments.ofList values : Moments ℚ ℕ).variance Nat.cast ofSample

/-- The arithmetic mean of `values`. -/
def mean (values : List ℚ) : ℚ := values.sum / values.length

/-- The squares of the differences of `values` from their mean, added up. -/
def deviation (values : List ℚ) : ℚ := (values.map fun v => (v - mean values) ^ 2).sum

variable {values permuted : List ℚ}

/-- The variance of `values` is worked out from their sum, the sum of their squares and their
count. -/
theorem exactVariance_eq
    (ofSample : Bool) (values : List ℚ) :
  let squares := (values.map fun v => v * v).sum
  exactVariance ofSample values
    = if ofSample then
        if values.length = 1 then 0 else sampleVariance values.sum squares (values.length : ℚ)
      else populationVariance values.sum squares (values.length : ℚ)
  := by
  have hcount : ∀ n : ℕ, id (n + 1) = id n + 1 := fun _ => rfl
  rw [exactVariance, Moments.ofList_eq rfl hcount]
  rfl

theorem length_cast_ne_zero
    (hne : values ≠ []) :
  (values.length : ℚ) ≠ 0
  := by
  rw [Nat.cast_ne_zero]
  apply mt List.length_eq_zero_iff.mp hne

theorem length_eq_one_or_two_le
    (hne : values ≠ []) :
  values.length = 1 ∨ 2 ≤ values.length
  := by
  have hpos := List.length_pos_of_ne_nil hne
  omega

/-- The squares of the differences of `values` from any number `m`, from the sum and the sum of
squares. -/
theorem sum_map_sub_sq
    (values : List ℚ) (m : ℚ) :
  (values.map fun v => (v - m) ^ 2).sum
    = (values.map fun v => v * v).sum - 2 * m * values.sum + m * m * values.length
  := by
  induction values with
  | nil => simp
  | cons v values ih =>
    rw [List.map_cons, List.map_cons, List.sum_cons, List.sum_cons, List.sum_cons, ih,
      List.length_cons, Nat.cast_succ]
    ring

/-- If there are `values`, the formula of a population is the mean square of the differences from
their mean. -/
theorem populationVariance_eq
    (hne : values ≠ []) :
  populationVariance values.sum (values.map fun v => v * v).sum (values.length : ℚ)
    = deviation values / values.length
  := by
  have hlength := length_cast_ne_zero hne
  rw [deviation, sum_map_sub_sq, mean, populationVariance]
  field_simp

theorem exactVariance_population
    (hne : values ≠ []) :
  exactVariance false values = deviation values / values.length
  := by
  rw [exactVariance_eq, if_neg Bool.false_ne_true, populationVariance_eq hne]

theorem exactVariance_sample
    (hlength : 2 ≤ values.length) :
  exactVariance true values = deviation values / (values.length - 1)
  := by
  have hne : values ≠ [] := by
    rintro rfl
    simp at hlength
  have hone : values.length ≠ 1 := by omega
  have hlength := length_cast_ne_zero hne
  rw [exactVariance_eq, if_pos rfl, if_neg hone, sampleVariance, populationVariance_eq hne]
  field_simp

/-- If there is one of `values`, no variance is estimated from it. -/
theorem exactVariance_sample_of_one
    (hlength : values.length = 1) :
  exactVariance true values = 0
  := by
  rw [exactVariance_eq, if_pos rfl, if_pos hlength]

/-! ### Consequences -/

theorem deviation_nonneg
    (values : List ℚ) :
  0 ≤ deviation values
  := by
  apply List.sum_nonneg
  intro x hx
  obtain ⟨v, _, rfl⟩ := List.mem_map.mp hx
  apply sq_nonneg

/-- If all `values` are `a`, and there are any, their mean is `a`. -/
theorem mean_of_forall_eq
    {a : ℚ} (hne : values ≠ []) (h : ∀ v ∈ values, v = a) :
  mean values = a
  := by
  have hlength := length_cast_ne_zero hne
  have hvalues : values = List.replicate values.length a := List.eq_replicate_iff.mpr ⟨rfl, h⟩
  have hsum : values.sum = values.length * a := by
    conv_lhs => rw [hvalues]
    rw [List.sum_replicate, nsmul_eq_mul]
  rw [mean, hsum, mul_div_cancel_left₀ a hlength]

/-- If there are `values`, they do not differ from their mean just when they are all one. -/
theorem deviation_eq_zero_iff
    (hne : values ≠ []) :
  deviation values = 0 ↔ ∀ v ∈ values, ∀ w ∈ values, v = w
  := by
  constructor
  · intro hzero
    have hmean : ∀ v ∈ values, v = mean values := by
      intro v hv
      have hsquare : (v - mean values) ^ 2 = 0 := by
        apply List.all_zero_of_le_zero_le_of_sum_eq_zero _ hzero (List.mem_map_of_mem hv)
        intro x hx
        obtain ⟨w, _, rfl⟩ := List.mem_map.mp hx
        apply sq_nonneg
      apply sub_eq_zero.mp (pow_eq_zero_iff two_ne_zero |>.mp hsquare)
    intro v hv w hw
    rw [hmean v hv, hmean w hw]
  · intro h
    apply List.sum_eq_zero
    intro x hx
    obtain ⟨v, hv, rfl⟩ := List.mem_map.mp hx
    rw [mean_of_forall_eq hne fun w hw => h w hw v hv, sub_self]
    rfl

theorem deviation_of_one
    (hlength : values.length = 1) :
  deviation values = 0
  := by
  obtain ⟨a, rfl⟩ := List.length_eq_one_iff.mp hlength
  rw [deviation_eq_zero_iff (List.cons_ne_nil a [])]
  intro v hv w hw
  rw [List.mem_singleton.mp hv, List.mem_singleton.mp hw]

theorem exactVariance_nonneg
    (ofSample : Bool) (hne : values ≠ []) :
  0 ≤ exactVariance ofSample values
  := by
  have hdeviation := deviation_nonneg values
  cases ofSample with
  | false =>
    rw [exactVariance_population hne]
    apply div_nonneg hdeviation (Nat.cast_nonneg _)
  | true =>
    rcases length_eq_one_or_two_le hne with hone | htwo
    · rw [exactVariance_sample_of_one hone]
    · rw [exactVariance_sample htwo]
      apply div_nonneg hdeviation (sub_nonneg.mpr _)
      rw [Nat.one_le_cast]
      omega

theorem exactVariance_eq_zero_iff
    (ofSample : Bool) (hne : values ≠ []) :
  exactVariance ofSample values = 0 ↔ ∀ v ∈ values, ∀ w ∈ values, v = w
  := by
  rw [← deviation_eq_zero_iff hne]
  cases ofSample with
  | false =>
    have hlength := length_cast_ne_zero hne
    rw [exactVariance_population hne, div_eq_zero_iff, or_iff_left hlength]
  | true =>
    rcases length_eq_one_or_two_le hne with hone | htwo
    · rw [exactVariance_sample_of_one hone, deviation_of_one hone]
    · have hlength : (values.length : ℚ) - 1 ≠ 0 := by
        rw [sub_ne_zero, Nat.cast_ne_one]
        omega
      rw [exactVariance_sample htwo, div_eq_zero_iff, or_iff_left hlength]

/-- If `permuted` is a permutation of `values`, it has the same variance. -/
theorem exactVariance_perm
    (ofSample : Bool) (h : permuted.Perm values) :
  exactVariance ofSample permuted = exactVariance ofSample values
  := by
  have hsquares := (h.map fun v => v * v).sum_eq
  rw [exactVariance_eq, exactVariance_eq, h.sum_eq, hsquares, h.length_eq]

/-- If a word counts `values`, it does not matter that a word is used to count them. -/
theorem variance_ofList_word
    (ofSample : Bool) (hlength : values.length < wordLimit) :
  (Moments.ofList values : Moments ℚ UInt64).variance (fun n => Nat.cast n.toNat) ofSample
    = exactVariance ofSample values
  := by
  have htoNat : (UInt64.ofNat values.length).toNat = values.length :=
    UInt64.toNat_ofNat_of_lt' hlength
  have hone : UInt64.ofNat values.length = 1 ↔ values.length = 1 := by
    rw [← UInt64.toNat_inj, htoNat]
    rfl
  have hcount : ∀ n, UInt64.ofNat (n + 1) = .ofNat n + 1 := fun n => UInt64.ofNat_add n 1
  rw [exactVariance_eq, Moments.ofList_eq rfl hcount, Moments.variance]
  simp only [htoNat, hone]

/-- The variances of rational `values` are mean squares of their differences from the mean. -/
structure MeanSquares (values : List ℚ) : Prop where
  population_eq : exactVariance false values = 1 / values.length * deviation values
  sample_eq : 2 ≤ values.length →
    exactVariance true values = 1 / (values.length - 1) * deviation values
  /-- From a single number no variance is estimated. -/
  sample_eq_zero : values.length = 1 → exactVariance true values = 0
  nonneg : ∀ ofSample, 0 ≤ exactVariance ofSample values
  eq_zero_iff : ∀ ofSample,
    exactVariance ofSample values = 0 ↔ ∀ v ∈ values, ∀ w ∈ values, v = w
  perm : ∀ ofSample permuted, permuted.Perm values →
    exactVariance ofSample permuted = exactVariance ofSample values
  /-- The count may be a word, which it is where doubles are counted. -/
  word_eq : values.length < wordLimit → ∀ ofSample,
    (Moments.ofList values : Moments ℚ UInt64).variance (fun n => Nat.cast n.toNat) ofSample
      = exactVariance ofSample values

theorem meanSquares
    (hne : values ≠ []) :
  MeanSquares values
  := by
  constructor
  · rw [exactVariance_population hne, one_div_mul_eq_div]
  · intro hlength
    rw [exactVariance_sample hlength, one_div_mul_eq_div]
  · apply exactVariance_sample_of_one
  · intro ofSample
    apply exactVariance_nonneg ofSample hne
  · intro ofSample
    apply exactVariance_eq_zero_iff ofSample hne
  · intro ofSample permuted
    apply exactVariance_perm
  · intro hlength ofSample
    apply variance_ofList_word ofSample hlength

/-- For any `doubles` what an aggregator works out is a variance, in that it is worked out in the
same way for `rationals`, and is a mean square there. -/
theorem aggregate_variance_meanSquares :
  (∀ (kind : Spread) (doubles : List Binary64), doubles ≠ [] → doubles.length < wordLimit →
    aggregate kind.aggregation doubles
      = .ok (kind.rooted ((Moments.ofList doubles).variance .ofCount kind.ofSample)))
    ∧ ∀ rationals, rationals ≠ [] → MeanSquares rationals
  := by
  constructor
  · intro kind doubles hne hlength
    apply aggregate_spread kind hne hlength
  · intro rationals hne
    apply meanSquares hne

/-- A case of `aggregate_variance_meanSquares`: two doubles, and the variance of one, two and
four. -/
theorem aggregate_variance_meanSquares_three :
  aggregate .sampleVariance [.one, .one]
      = .ok ((Moments.ofList [.one, .one]).variance .ofCount true)
    ∧ exactVariance false [1, 2, 4] = 14 / 9 ∧ exactVariance true [1, 2, 4] = 7 / 3
  := by
  obtain ⟨hdoubles, hrationals⟩ := aggregate_variance_meanSquares
  have hmean : MeanSquares [1, 2, 4] := hrationals [1, 2, 4] (List.cons_ne_nil _ _)
  have hdeviation : deviation [1, 2, 4] = 14 / 3 := by
    decide +kernel
  use hdoubles ⟨true, false⟩ [.one, .one] (by decide) (by decide)
  constructor
  · rw [hmean.population_eq, hdeviation]
    norm_num
  · rw [hmean.sample_eq (by decide), hdeviation]
    norm_num

end TimeSeries
