import TimeSeries.Proofs.Aggregation.Folding
import TimeSeries.Proofs.Chunk.Scanning

/-!
# Statistics of chunks

A chunk leaves out the samples before a range and stops behind the first one after it.  As
the timestamps of a reachable chunk increase, what is left are the samples in the range and
no others, whichever range it is: an inverted one contains nothing.  The statistic is that of
their values in this order, so it does not depend on the encoding.
-/

namespace TimeSeries

namespace TimeRange

variable {range : TimeRange}

/-- The values of those `samples` that are in `range`. -/
def values (range : TimeRange) (samples : List Sample) : List Binary64 :=
  (samples.filter (range.contains ·.timestamp)).map Sample.value

theorem values_eq_nil_iff
    (range : TimeRange) (samples : List Sample) :
  range.values samples = [] ↔ ∀ s ∈ samples, range.contains s.timestamp = false
  := by
  simp [values, List.filter_eq_nil_iff]

theorem length_values_le
    (range : TimeRange) (samples : List Sample) :
  (range.values samples).length ≤ samples.length
  := by
  rw [values, List.length_map]
  apply List.length_filter_le

theorem contains_eq_false
    (h : range.stop < range.start) (t : Timestamp) :
  range.contains t = false
  := by
  rw [Bool.eq_false_iff, ne_eq, contains_iff]
  rintro ⟨hstart, hstop⟩
  apply Int64.lt_irrefl
  apply Int64.lt_of_le_of_lt (Int64.le_trans hstart hstop) h

end TimeRange

namespace Chunk

variable {c : Chunk} {l : Timeline} {samples : List Sample}

/-- The statistics of `c` are those of `samples`, taken in order. -/
structure Aggregates (c : Chunk) (samples : List Sample) : Prop where
  yields : (c.scan .forward).Yields samples
  increasing : samples.Pairwise fun a b => a.timestamp < b.timestamp
  aggregate_eq : ∀ kind range,
    c.aggregate kind range = TimeSeries.aggregate kind (range.values samples)
  /-- If a word counts the samples, there is no statistic just where there is no sample. -/
  aggregate_eq_error_iff : c.length < wordLimit → ∀ kind range,
    c.aggregate kind range = .error .empty ↔ ∀ s ∈ samples, range.contains s.timestamp = false
  aggregate_inverted : ∀ kind range, range.stop < range.start →
    c.aggregate kind range = .error .empty
  /-- Chunks that hold the same samples have the same statistics. -/
  aggregate_eq_of_yields : ∀ d : Chunk, d.Reachable → (d.scan .forward).Yields samples →
    ∀ kind range, d.aggregate kind range = c.aggregate kind range

theorem Holds.aggregates
    (h : c.Holds l) :
  c.Aggregates l.samples
  := by
  constructor
  · apply h.ahead.yields
  · apply l.increasing
  · apply h.shows.aggregate_eq
  · intro hlength kind range
    have hcount : (range.values l.samples).length < wordLimit := by
      apply Nat.lt_of_le_of_lt (range.length_values_le _)
      rwa [h.length_eq] at hlength
    rw [h.shows.aggregate_eq, ← range.values_eq_nil_iff]
    apply Aggregator.aggregate_eq_error_iff kind hcount
  · intro kind range hinverted
    have hnone : range.values l.samples = [] :=
      (range.values_eq_nil_iff _).mpr fun s _ => TimeRange.contains_eq_false hinverted s.timestamp
    rw [h.shows.aggregate_eq, ← TimeRange.values, hnone]
    cases kind <;> rfl
  · intro d hd hyields kind range
    obtain ⟨l', hl'⟩ := hd.holds
    rw [h.shows.aggregate_eq, hl'.shows.aggregate_eq, hl'.ahead.eq_of_yields hyields]

/-- If `c` is reachable, it has the statistics of its samples, whatever its encoding. -/
theorem aggregates_of_reachable
    (h : c.Reachable) :
  c.Aggregates c.samples
  := by
  obtain ⟨l, hl⟩ := h.holds
  rw [hl.samples_eq]
  apply hl.aggregates

/-- A case of `aggregates_of_reachable`: the same samples in either encoding, one of them not a
number. -/
theorem aggregates_of_reachable_either_encoding :
  let c := (((new .plain 64).change .ample (.add ⟨5, ⟨2⟩⟩)).after.change .ample
    (.add ⟨7, ⟨0x7ff8000000000001⟩⟩)).after
  let d := (((new .packed 64).change .ample (.add ⟨5, ⟨2⟩⟩)).after.change .ample
    (.add ⟨7, ⟨0x7ff8000000000001⟩⟩)).after
  c.Reachable ∧ d.Reachable ∧ c.length < wordLimit ∧ c.Aggregates c.samples
    ∧ ∀ kind range, d.aggregate kind range = c.aggregate kind range
  := by
  intro c d
  have hc : c.Reachable := ((Reachable.new .plain 64).change _ _).change _ _
  have hd : d.Reachable := ((Reachable.new .packed 64).change _ _).change _ _
  have hsamples : d.samples = c.samples := by decide +kernel
  have haggregates := aggregates_of_reachable hc
  use hc, hd, by decide +kernel, haggregates
  apply haggregates.aggregate_eq_of_yields d hd
  rw [← hsamples]
  apply (aggregates_of_reachable hd).yields

end Chunk

end TimeSeries
