import TimeSeries.Aggregation.Kind
import TimeSeries.Chunk.Encoding
import TimeSeries.Chunk.Error
import TimeSeries.DuplicatePolicy

/-!
# Tallies

What happens to chunks and rules is counted.  A `Series` is one thing that is
counted, an `Event` adds to a series, and a `Tally` holds the totals of all series
that were ever added to.  A report lists them by family, and within a family by the
values of the labels.
-/

namespace TimeSeries

/-- The operations on chunks that are counted. -/
inductive Operation where
  | add
  | upsert
  | delete
  | deleteRange
  | split
deriving DecidableEq

/-- The name of an operation. -/
def Operation.name : Operation → String
  | add => "add"
  | upsert => "upsert"
  | delete => "delete"
  | deleteRange => "delete_range"
  | split => "split"

/-- How an operation ended. -/
inductive Status where
  | ok
  | full
  | outOfOrder
  | conflict
  | notFound
  | overflow
  | invalidRange
deriving DecidableEq

namespace Status

/-- The name of a status. -/
def name : Status → String
  | ok => "ok"
  | full => "full"
  | outOfOrder => "out_of_order"
  | conflict => "conflict"
  | notFound => "not_found"
  | overflow => "overflow"
  | invalidRange => "invalid_range"

/-- The status that an operation with the given outcome is counted with. -/
def ofOutcome {α : Type} : Except ChunkError α → Status
  | .ok _ => ok
  | .error (.full _) => full
  | .error (.outOfOrder _ _) => outOfOrder
  | .error (.duplicate _ _ _) => conflict
  | .error (.notFound _) => notFound
  | .error (.packing _) => overflow
  | .error (.invertedRange _ _) => invalidRange

end Status

/-- The families of series. -/
inductive Family where
  | operations
  | rebuilds
  | growth
  | resolutions
  | emptyBuckets
deriving DecidableEq

namespace Family

/-- Every family, in the order of their names, which is the order of the report. -/
def all : List Family := [operations, rebuilds, growth, resolutions, emptyBuckets]

/-- The name of a family. -/
def name : Family → String
  | operations => "tscore_chunk_operations_total"
  | rebuilds => "tscore_chunk_rebuilds_total"
  | growth => "tscore_codec_growth_bytes_total"
  | resolutions => "tscore_duplicate_resolutions_total"
  | emptyBuckets => "tscore_empty_buckets_total"

/-- What a family counts. -/
def help : Family → String
  | operations => "Total chunk operations"
  | rebuilds => "Compressed chunk rebuilds"
  | growth => "Bytes added to compressed chunk buffers"
  | resolutions => "Upserts that hit an existing timestamp"
  | emptyBuckets => "Compaction buckets finalized while empty"

end Family

/-- The things that are counted. -/
inductive Series where
  /-- Operations on chunks of an encoding that ended in some way. -/
  | operation (encoding : Encoding) (operation : Operation) (status : Status)
  /-- Packed chunks written anew by an operation. -/
  | rebuild (operation : Operation)
  /-- Bytes by which packed chunks grew. -/
  | growth
  /-- Samples that came upon a sample at the same time. -/
  | resolution (policy : DuplicatePolicy) (accepted : Bool)
  /-- Buckets that were closed without a value. -/
  | emptyBucket (kind : AggregationKind)
deriving DecidableEq

namespace Series

/-- The family that a series belongs to. -/
def family : Series → Family
  | operation _ _ _ => .operations
  | rebuild _ => .rebuilds
  | growth => .growth
  | resolution _ _ => .resolutions
  | emptyBucket _ => .emptyBuckets

/-- The labels of a series with their values, in the order of the labels in the report. -/
def labels : Series → List (String × String)
  | operation encoding op status =>
    [("encoding", encoding.name), ("operation", op.name), ("status", status.name)]
  | rebuild op => [("operation", op.name)]
  | growth => [("reason", "append")]
  | resolution policy accepted =>
    [("outcome", if accepted then "accepted" else "rejected"), ("policy", policy.name)]
  | emptyBucket kind => [("aggregation", kind.name)]

/-- The line that reports the `total` of `series`. -/
def line (series : Series) (total : Nat) : String :=
  let labels := series.labels.map fun (label, value) => label ++ "=\"" ++ value ++ "\""
  series.family.name ++ "\x7b" ++ ",".intercalate labels ++ "\x7d " ++ s!"{total}\n"

/-- Is the series `a` reported before the series `b` of the same family? -/
def before (a b : Series) : Bool :=
  a.labels.map Prod.snd < b.labels.map Prod.snd

end Series

/-- An event: the `amount` by which a `series` goes up. -/
structure Event where
  series : Series
  amount : Nat
deriving DecidableEq

/-- The event that goes up `series` by one, as something happened once. -/
def Event.once (series : Series) : Event := ⟨series, 1⟩

/-- A tally: the `totals` of all series that were added to. -/
structure Tally where
  totals : List (Series × Nat)
deriving DecidableEq

namespace Tally

/-- Nothing was counted. -/
def empty : Tally := ⟨[]⟩

/-- The total of `series` in `t`, which is zero for a series that was never added to. -/
def total (t : Tally) (series : Series) : Nat := (t.totals.lookup series).getD 0

/-- The totals with the amount of `e` added to its series. -/
def addTo (e : Event) : List (Series × Nat) → List (Series × Nat)
  | [] => [(e.series, e.amount)]
  | (series, n) :: totals =>
    if e.series = series then (series, n + e.amount) :: totals
    else (series, n) :: addTo e totals

/-- Adds the event `e` to the totals of `t`. -/
def record (t : Tally) (e : Event) : Tally := ⟨addTo e t.totals⟩

/-- Adds `events` to the totals of `t`, one after the other. -/
def recordAll (t : Tally) (events : List Event) : Tally := events.foldl record t

/-- The report of `t` on one `family`; a family with no series is left out. -/
def familyText (t : Tally) (family : Family) : String :=
  match t.totals.filter (·.1.family = family) with
  | [] => ""
  | totals =>
    let sorted := totals.mergeSort fun a b => !b.1.before a.1
    "# HELP " ++ family.name ++ " " ++ family.help ++ "\n# TYPE " ++ family.name ++ " counter\n" ++
      String.join (sorted.map fun (series, n) => series.line n)

/-- The report on everything that was counted in `t`. -/
def text (t : Tally) : String := String.join (Family.all.map t.familyText)

@[simp] theorem total_empty
    (series : Series) :
  empty.total series = 0
  := rfl

/-- If `e` is added to `t`, the total of its own series goes up by its amount, and that of any other
`series` stays. -/
theorem total_record
    (t : Tally) (e : Event) (series : Series) :
  (t.record e).total series = t.total series + if e.series = series then e.amount else 0
  := by
  obtain ⟨totals⟩ := t
  simp only [total, record]
  induction totals with
  | nil =>
    by_cases h : e.series = series
    · simp [addTo, h]
    · have hne : (series == e.series) = false := by simpa using fun h' => h h'.symm
      simp [addTo, List.lookup_cons, h, hne]
  | cons entry totals ih =>
    obtain ⟨first, n⟩ := entry
    by_cases hfirst : e.series = first
    · by_cases hseries : series = first
      · simp [addTo, hfirst, hseries]
      · have hne : (series == first) = false := by simpa using hseries
        have hne' : first ≠ series := fun h => hseries h.symm
        simp [addTo, List.lookup_cons, hfirst, hne, hne']
    · by_cases hseries : series = first
      · have hne : e.series ≠ series := fun h => hfirst (h.trans hseries)
        simp [addTo, hfirst, hseries]
      · have hne : (series == first) = false := by simpa using hseries
        simp only [addTo, if_neg hfirst, List.lookup_cons, hne]
        exact ih

end Tally

end TimeSeries
