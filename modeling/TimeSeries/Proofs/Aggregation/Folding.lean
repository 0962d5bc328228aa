import Mathlib.Data.List.Induction
import Mathlib.Logic.Function.Iterate
import TimeSeries.Aggregation.Aggregator
import TimeSeries.Packing.Buffer

/-!
# Aggregators as folds

What an aggregator remembers of the values that it has taken in, said of all of them at once:
`foldl_append_new` gives each part of it as a sum, a count or a comparison over the whole
list.  From this it follows that an aggregator that has taken in values knows so, whether it
keeps a flag or counts them, as long as a word can count them.
-/

namespace TimeSeries

namespace Binary64

/-- The `values` added up from zero, the oldest first. -/
def total (values : List Binary64) : Binary64 := values.foldl (· + ·) .zero

/-- The sum of the squares of `values`. -/
def totalSquares (values : List Binary64) : Binary64 := total (values.map fun v => v * v)

/-- One, added to zero `n` times. -/
def ones (n : Nat) : Binary64 := (· + .one)^[n] .zero

theorem total_concat
    (values : List Binary64) (v : Binary64) :
  total (values ++ [v]) = total values + v
  := List.foldl_append

theorem totalSquares_concat
    (values : List Binary64) (v : Binary64) :
  totalSquares (values ++ [v]) = totalSquares values + v * v
  := by
  rw [totalSquares, List.map_append]
  apply total_concat

theorem ones_succ
    (n : Nat) :
  ones (n + 1) = ones n + .one
  := Function.iterate_succ_apply' _ _ _

end Binary64

/-- What an extreme starts from, before there are values. -/
def Extreme.bound : Extreme → Binary64
  | .min => .greatest
  | .max => .least

/-- The value that remains of `first` and the others, each of which in turn replaces the one that
remained so far when it is more extreme. -/
def Extreme.pick (kind : Extreme) (first : Binary64) (values : List Binary64) : Binary64 :=
  values.foldl (fun remaining v => if kind.better v remaining then v else remaining) first

/-- The value that remains of any number of values. -/
def Extreme.among (kind : Extreme) : List Binary64 → Binary64
  | [] => kind.bound
  | v :: values => kind.pick v values

theorem Extreme.pick_concat
    (kind : Extreme) (first : Binary64) (values : List Binary64) (v : Binary64) :
  kind.pick first (values ++ [v])
    = if kind.better v (kind.pick first values) then v else kind.pick first values
  := List.foldl_append

/-- If `v` comes behind `values`, it replaces the one that remained when it is more extreme, or the
first. -/
theorem Extreme.among_concat
    (kind : Extreme) (values : List Binary64) (v : Binary64) :
  kind.among (values ++ [v])
    = if kind.better v (kind.among values) || values.isEmpty then v else kind.among values
  := by
  cases values with
  | nil => simp [among, pick]
  | cons x values =>
    rw [List.cons_append, among, among, pick_concat, List.isEmpty_cons, Bool.or_false]

namespace Aggregator

open Binary64

/-! ### Kinds -/

theorem kind_new
    (kind : AggregationKind) :
  (new kind).kind = kind
  := by
  cases kind <;> rfl

theorem kind_append
    (a : Aggregator) (v : Binary64) :
  (a.append v).kind = a.kind
  := by
  cases a with
  | single kind => cases kind <;> rfl
  | extreme kind => cases kind <;> rfl
  | average => rfl
  | moments kind => cases kind with | mk ofSample root => cases ofSample <;> cases root <;> rfl
  | range => rfl

theorem kind_foldl_append
    (a : Aggregator) (values : List Binary64) :
  (values.foldl append a).kind = a.kind
  := by
  induction values generalizing a with
  | nil => rfl
  | cons v values ih => rw [List.foldl_cons, ih, kind_append]

/-! ### What is remembered -/

/-- What remains of `values` for a measure of how far they lie apart. -/
def memoryOfSpread (kind : Spread) (values : List Binary64) : Aggregator :=
  moments kind (total values) (totalSquares values) (.ofNat values.length)

/-- What an aggregator of `kind` remembers of `values`. -/
def memory (kind : AggregationKind) (values : List Binary64) : Aggregator :=
  match kind with
  | .min => extreme .min (Extreme.min.among values) values.isEmpty
  | .max => extreme .max (Extreme.max.among values) values.isEmpty
  | .sum => single .sum (total values) values.isEmpty
  | .average => average (total values) (.ofNat values.length)
  | .count => single .count (ones values.length) values.isEmpty
  | .first => single .first (values.headD .zero) values.isEmpty
  | .last => single .last (values.getLastD .zero) values.isEmpty
  | .range =>
    range (Extreme.min.pick .greatest values) (Extreme.max.pick .least values) values.isEmpty
  | .populationDeviation => memoryOfSpread ⟨false, true⟩ values
  | .sampleDeviation => memoryOfSpread ⟨true, true⟩ values
  | .populationVariance => memoryOfSpread ⟨false, false⟩ values
  | .sampleVariance => memoryOfSpread ⟨true, false⟩ values

theorem kind_memory
    (kind : AggregationKind) (values : List Binary64) :
  (memory kind values).kind = kind
  := by
  cases kind <;> rfl

theorem append_memoryOfSpread
    (kind : Spread) (values : List Binary64) (v : Binary64) :
  (memoryOfSpread kind values).append v = memoryOfSpread kind (values ++ [v])
  := by
  rw [memoryOfSpread, memoryOfSpread, append, total_concat, totalSquares_concat,
    List.length_append, List.length_singleton, UInt64.ofNat_add]
  rfl

/-- One step: if `v` is appended to what is remembered of `values`, it is remembered behind them. -/
theorem append_memory
    (kind : AggregationKind) (values : List Binary64) (v : Binary64) :
  (memory kind values).append v = memory kind (values ++ [v])
  := by
  have hsome : (values ++ [v]).isEmpty = false := by simp
  cases kind with
  | min | max =>
    rw [memory, memory, Extreme.among_concat, hsome]
    rfl
  | sum =>
    rw [memory, memory, total_concat, hsome]
    rfl
  | average =>
    rw [memory, memory, total_concat, List.length_append, UInt64.ofNat_add]
    rfl
  | count =>
    rw [memory, memory, List.length_append, List.length_singleton, ones_succ, hsome]
    rfl
  | first =>
    rw [memory, memory, hsome]
    cases values <;> rfl
  | last =>
    rw [memory, memory, hsome, List.getLastD_concat]
    rfl
  | range =>
    rw [memory, memory, hsome, Extreme.pick_concat, Extreme.pick_concat]
    rfl
  | populationDeviation | sampleDeviation | populationVariance | sampleVariance =>
    apply append_memoryOfSpread

/-- Run: if `values` are appended to a new aggregator one at a time, they are all remembered. -/
theorem foldl_append_new
    (kind : AggregationKind) (values : List Binary64) :
  values.foldl append (new kind) = memory kind values
  := by
  induction values using List.reverseRecOn with
  | nil => cases kind <;> rfl
  | append_singleton values v ih =>
    rw [List.foldl_append, ih]
    apply append_memory

/-! ### Emptiness -/

/-- If words count `n` and `k`, they tell them apart. -/
theorem ofNat_eq_ofNat_iff
    {n k : Nat} (hn : n < wordLimit) (hk : k < wordLimit) :
  UInt64.ofNat n = UInt64.ofNat k ↔ n = k
  := by
  rw [← UInt64.toNat_inj, UInt64.toNat_ofNat_of_lt' hn, UInt64.toNat_ofNat_of_lt' hk]

/-- If a word counts `values`, it is known from the flag or from the count whether there are any. -/
theorem isEmpty_memory_iff
    (kind : AggregationKind) {values : List Binary64} (hlength : values.length < wordLimit) :
  (memory kind values).isEmpty = true ↔ values = []
  := by
  cases kind with
  | min | max | sum | count | first | last | range => apply List.isEmpty_iff
  | average | populationDeviation | sampleDeviation | populationVariance | sampleVariance =>
    have hzero : 0 < wordLimit := by decide
    rw [← List.length_eq_zero_iff, ← ofNat_eq_ofNat_iff hlength hzero]
    apply beq_iff_eq

/-- If a word counts `values` and there are any, an aggregator that has taken them in is not
empty. -/
theorem isEmpty_foldl_append
    (kind : AggregationKind) {values : List Binary64} (hne : values ≠ [])
    (hlength : values.length < wordLimit) :
  (values.foldl append (new kind)).isEmpty = false
  := by
  rw [foldl_append_new, Bool.eq_false_iff]
  apply mt (isEmpty_memory_iff kind hlength).mp hne

theorem exists_result_eq_ok
    {a : Aggregator} (h : a.isEmpty = false) :
  ∃ value, a.result = .ok value
  := by
  rw [result.eq_def, h]
  apply Exists.intro
  rfl

theorem result_eq_error_iff
    (a : Aggregator) :
  a.result = .error .empty ↔ a.isEmpty = true
  := by
  cases hempty : a.isEmpty with
  | true => simp [result, hempty]
  | false =>
    obtain ⟨value, hvalue⟩ := exists_result_eq_ok hempty
    rw [hvalue]
    simp

/-- If a word counts `values` and there are any, they have a result. -/
theorem exists_aggregate_eq_ok
    (kind : AggregationKind) {values : List Binary64} (hne : values ≠ [])
    (hlength : values.length < wordLimit) :
  ∃ value, aggregate kind values = .ok value
  := exists_result_eq_ok (isEmpty_foldl_append kind hne hlength)

/-- If a word counts `values`, they have no result just when there are none. -/
theorem aggregate_eq_error_iff
    (kind : AggregationKind) {values : List Binary64} (hlength : values.length < wordLimit) :
  aggregate kind values = .error .empty ↔ values = []
  := by
  rw [aggregate, result_eq_error_iff, foldl_append_new, isEmpty_memory_iff kind hlength]

end Aggregator

end TimeSeries
