import TimeSeries.Proofs.Aggregation.Folding
import TimeSeries.Proofs.Snapshot.Aggregators

/-!
# Histories of aggregators

A new aggregator may take in values, be reset, and be saved and loaded again, in any order
and any number of times.  All the while it is what a new one becomes that takes in the
values since the last reset, so its result is that of a formula for its kind: a variance
differs in its last bits when it is evaluated in another order than the one written here.
Asking for the result gives no aggregator back, so it cannot change one.
-/

namespace TimeSeries

open Binary64

/-- The result for `values`, of which there is at least one. -/
def AggregationKind.formula (kind : AggregationKind) (values : List Binary64) : Binary64 :=
  let n := Binary64.ofCount (.ofNat values.length)
  let sum := total values
  let squares := totalSquares values
  let ofPopulation := (squares - 2 * sum * sum / n + sum / n * (sum / n) * n) / n
  let ofSample := if values.length = 1 then .zero else ofPopulation * n / (n - 1)
  match kind with
  | .min => Extreme.min.among values
  | .max => Extreme.max.among values
  | .sum => sum
  | .average => sum / n
  | .count => ones values.length
  | .first => values.headD .zero
  | .last => values.getLastD .zero
  | .range => Extreme.max.pick .least values - Extreme.min.pick .greatest values
  | .populationDeviation => ofPopulation.sqrt
  | .sampleDeviation => ofSample.sqrt
  | .populationVariance => ofPopulation
  | .sampleVariance => ofSample

namespace Aggregator

/-- The aggregator comes from a new one of `kind`; these are the values since the last reset. -/
inductive Comes (kind : AggregationKind) : Aggregator → List Binary64 → Prop where
  | new : Comes kind (new kind) []
  | append {a : Aggregator} {values : List Binary64} (h : a.Comes kind values) (v : Binary64) :
      Comes kind (a.append v) (values ++ [v])
  | reset {a : Aggregator} {values : List Binary64} (h : a.Comes kind values) :
      Comes kind a.reset []
  | reload {a b : Aggregator} {values : List Binary64} {rest : List UInt8} {later : Cursor}
      (h : a.Comes kind values) (hload : load ⟨encodeFrames a.frames ++ rest⟩ = .ok b later) :
      Comes kind b values

/-- The aggregator `a` gives the result for `values`, and can be reset and saved. -/
structure Computes (a : Aggregator) (kind : AggregationKind) (values : List Binary64) :
    Prop where
  kind_eq : a.kind = kind
  isEmpty_iff : a.isEmpty = true ↔ values = []
  result_eq_error_iff : a.result = .error .empty ↔ values = []
  result_eq : values ≠ [] → a.result = .ok (kind.formula values)
  reset_eq : a.reset = .new kind
  reloads : ∃ cursor, Cursor.ofSealed (sealFrames a.frames) = .ok cursor
    ∧ load cursor = .ok a ⟨[]⟩

variable {a : Aggregator} {kind : AggregationKind} {values : List Binary64}

/-- If `a` comes from a new aggregator with `values` since the last reset, it remembers `values`,
whatever was done to it. -/
theorem Comes.eq_memory
    (h : a.Comes kind values) :
  a = memory kind values
  := by
  induction h with
  | new => apply foldl_append_new kind []
  | append _ v ih => rw [ih, append_memory]
  | reset _ ih =>
    rw [ih, Aggregator.reset, kind_memory]
    apply foldl_append_new kind []
  | reload _ hload ih =>
    obtain ⟨rfl, _⟩ := (loads _).eq_of_ok hload
    apply ih

/-- A new aggregator that takes in `values` one at a time has such a history. -/
theorem comes_foldl
    (kind : AggregationKind) (values : List Binary64) :
  (values.foldl append (new kind)).Comes kind values
  := by
  induction values using List.reverseRecOn with
  | nil => apply Comes.new
  | append_singleton values v ih =>
    rw [List.foldl_append]
    apply ih.append

/-! ### Results -/

/-- If a word counts `values` and there are any, what is remembered of them gives the result that
`AggregationKind.formula` says. -/
theorem result_memory
    (kind : AggregationKind) (hne : values ≠ []) (hlength : values.length < wordLimit) :
  (memory kind values).result = .ok (kind.formula values)
  := by
  have hone : UInt64.ofNat values.length = 1 ↔ values.length = 1 :=
    ofNat_eq_ofNat_iff hlength (by decide)
  have hsome : (memory kind values).isEmpty = false := by
    rw [← foldl_append_new]
    apply isEmpty_foldl_append kind hne hlength
  rw [result.eq_def, hsome]
  cases kind with
  | min | max | sum | average | count | first | last | range => rfl
  | populationDeviation | populationVariance => rfl
  | sampleDeviation | sampleVariance =>
    simp [memory, memoryOfSpread, Spread.measure, AggregationKind.formula, sampleVariance,
      populationVariance, hone]

/-- If `a` has any history with `values` since the last reset, and a word counts these, it gives the
result for `values`. -/
theorem computes_of_comes
    (h : a.Comes kind values) (hlength : values.length < wordLimit) :
  a.Computes kind values
  := by
  obtain rfl := h.eq_memory
  have hempty := isEmpty_memory_iff kind hlength
  constructor
  · apply kind_memory
  · apply hempty
  · rw [result_eq_error_iff, hempty]
  · intro hne
    apply result_memory kind hne hlength
  · rw [reset, kind_memory]
  · apply (loads _).of_seal

/-- A case of `computes_of_comes`: the variance of a sample, once reset and once saved and loaded in
between. -/
theorem computes_of_comes_reloaded :
  let reset := ((new .sampleVariance).append ⟨0x7ff8000000000001⟩).reset
  let a := (reset.append ⟨2⟩).append ⟨0x4000000000000000⟩
  a.Comes .sampleVariance [⟨2⟩, ⟨0x4000000000000000⟩] ∧ 2 < wordLimit
    ∧ a.Computes .sampleVariance [⟨2⟩, ⟨0x4000000000000000⟩]
  := by
  intro reset a
  have hreset : reset.Comes .sampleVariance [] := (Comes.new.append _).reset
  have hreloaded : (reset.append ⟨2⟩).Comes .sampleVariance [⟨2⟩] :=
    (hreset.append ⟨2⟩).reload ((reset.append ⟨2⟩).loads [])
  have ha : a.Comes .sampleVariance [⟨2⟩, ⟨0x4000000000000000⟩] := hreloaded.append _
  use ha, by decide
  apply computes_of_comes ha
  show 2 < wordLimit
  decide

end Aggregator

end TimeSeries
