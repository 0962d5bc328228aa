import TimeSeries.Aggregation.Aggregator
import TimeSeries.Sample
import TimeSeries.Tally

/-!
# Downsampling

A rule makes one sample out of all samples in a bucket of time.  Buckets begin at
the multiples of their width, the one at the lower end of time at the first
timestamp there is.  The samples of a bucket are aggregated as they come in; the
bucket is closed, and its result given out, when a sample of a later bucket comes.
Samples of earlier buckets are passed over.
-/

namespace TimeSeries

/-- A rule that downsamples into the series `destination`. -/
structure Rule where
  destination : String
  width : UInt64
  aggregator : Aggregator
  bucket? : Option Timestamp
  width_pos : 0 < width.toNat
  width_lt : width.toNat < 2 ^ 63
deriving DecidableEq

/-- What a rule gives out: in `rule` what it is afterwards, the sample of a bucket that was closed,
and the events on the way. -/
structure Emission where
  rule : Rule
  sample? : Option Sample
  events : List Event

namespace Rule

/-- The rule with no bucket open that writes to `destination` the aggregation of `kind` over each
bucket of the given `width`.  The width is at least one, and no greater than the greatest
timestamp. -/
def new (destination : String) (width : UInt64) (kind : AggregationKind) :
    Except AggregationError Rule :=
  if h : 0 < width.toNat ∧ width.toNat < 2 ^ 63 then
    .ok ⟨destination, width, .new kind, none, h.1, h.2⟩
  else .error (.invalidBucket width)

/-- The kind of aggregation that `r` does. -/
def kind (r : Rule) : AggregationKind := r.aggregator.kind

/-- The start of the bucket of `r` in which the timestamp `t` lies. -/
def bucketOf (r : Rule) (t : Timestamp) : Timestamp :=
  Int64.ofInt (max (t.toInt - t.toInt % (r.width.toNat : Int)) Int64.minValue.toInt)

/-- Closes the bucket that starts at `start`, and forgets its values. -/
def close (r : Rule) (start : Timestamp) : Emission :=
  let rule := { r with aggregator := r.aggregator.reset, bucket? := none }
  match r.aggregator.result with
  | .ok value => ⟨rule, some ⟨start, value⟩, []⟩
  | .error _ => ⟨rule, none, [.once (.emptyBucket r.kind)]⟩

/-- Takes a sample into the bucket that starts at `start`. -/
def accept (r : Rule) (start : Timestamp) (s : Sample) : Rule :=
  { r with aggregator := r.aggregator.append s.value, bucket? := some start }

/-- Takes the sample `s` into the open bucket of `r`.  If `s` lies in a later one, the open bucket
is closed first; if it lies in an earlier one, it is passed over. -/
def ingest (r : Rule) (s : Sample) : Emission :=
  let start := r.bucketOf s.timestamp
  match r.bucket? with
  | none => ⟨r.accept start s, none, []⟩
  | some current =>
    if start < current then ⟨r, none, []⟩
    else if start = current then ⟨r.accept start s, none, []⟩
    else
      let closed := r.close current
      { closed with rule := closed.rule.accept start s }

/-- Closes the open bucket of `r` without waiting for a later sample. -/
def flush (r : Rule) : Emission :=
  match r.bucket? with
  | none => ⟨r, none, []⟩
  | some current => r.close current

/-! ### Snapshots -/

/-- The frames of `r`: its destination, its width, its aggregator, and whether a bucket is open and
where it starts. -/
def frames (r : Rule) : List Frame :=
  .bytes (Text.toUtf8 r.destination) :: .unsigned r.width :: r.aggregator.frames ++
    match r.bucket? with
    | none => [.unsigned 0]
    | some start => [.unsigned 1, .signed start]

/-- Reads whether a bucket is open and where it starts. -/
def loadBucket : Loading (Option Timestamp) := do
  let marker ← Cursor.readUnsigned
  if marker = 0 then return none
  else if marker = 1 then return some (← Cursor.readSigned)
  else throw (.corrupted (.bucketMarker marker))

/-- Reads the frames that `frames` writes.  The width has to be one that a rule can have. -/
def load : Loading Rule := do
  let destination ←
    match Text.ofUtf8 (← Cursor.readBytes) with
    | .ok destination => pure destination
    | .error fault => throw (.corrupted (.destination fault))
  let width ← Cursor.readUnsigned
  let aggregator ← Aggregator.load
  let bucket? ← loadBucket
  match new destination width aggregator.kind with
  | .ok rule => return { rule with aggregator, bucket? }
  | .error e => throw (.corrupted (.rule e))

end Rule

end TimeSeries
