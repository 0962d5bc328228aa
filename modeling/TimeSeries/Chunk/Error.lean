import TimeSeries.Binary64.Text
import TimeSeries.Packing.Error
import TimeSeries.TimeRange

/-!
# Faults of chunks

What a chunk answers when it does not do what it was asked to do.
-/

namespace TimeSeries

/-- The ways in which an operation on a chunk can fail. -/
inductive ChunkError where
  /-- There is no room for another sample; the series goes on in a new chunk. -/
  | full (capacity : Nat)
  /-- The sample to append does not follow the last one. -/
  | outOfOrder (timestamp last : Timestamp)
  /-- There is a sample at this time, and the policy keeps it from being touched. -/
  | duplicate (timestamp : Timestamp) (existing incoming : Binary64)
  /-- There is no sample at this time. -/
  | notFound (timestamp : Timestamp)
  /-- The packed data cannot be written or read. -/
  | packing (cause : PackingError)
  /-- A range of time starts after its end. -/
  | invertedRange (start stop : Timestamp)
deriving DecidableEq

/-- The wording of a fault. -/
def ChunkError.message : ChunkError → String
  | full capacity => s!"Chunk full: capacity is {capacity} bytes"
  | outOfOrder timestamp last => unorderedMessage timestamp last
  | duplicate timestamp existing incoming =>
    s!"Duplicate timestamp {timestamp.toInt}: existing value {existing.text}, " ++
      s!"new value {incoming.text}"
  | notFound timestamp => s!"No sample at timestamp {timestamp.toInt}"
  | packing cause => "Codec overflow: " ++ cause.message
  | invertedRange start stop =>
    s!"Invalid time range: start {start.toInt} > end {stop.toInt}"

/-- The range from `start` to `stop`, which have to be in order. -/
def TimeRange.new (start stop : Timestamp) : Except ChunkError TimeRange :=
  if stop < start then .error (.invertedRange start stop) else .ok ⟨start, stop⟩

end TimeSeries
