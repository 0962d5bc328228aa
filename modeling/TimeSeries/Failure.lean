import TimeSeries.Aggregation.Error
import TimeSeries.Chunk.Error
import TimeSeries.Packing.Error
import TimeSeries.Snapshot.Error

/-!
# Failures

Whatever can go wrong in the library, as one type.
-/

namespace TimeSeries

/-- The faults of any part of the library. -/
inductive Failure where
  | chunk (cause : ChunkError)
  | packing (cause : PackingError)
  | aggregation (cause : AggregationError)
  | snapshot (cause : SnapshotError)
  /-- Settings are not as they should be. -/
  | configuration (text : String)
  /-- A file cannot be read or written. -/
  | file (text : String)
deriving DecidableEq

/-- The wording of a failure: which part it arose in, then its cause. -/
def Failure.message : Failure → String
  | chunk cause => "Chunk error: " ++ cause.message
  | packing cause => "Compression error: " ++ cause.message
  | aggregation cause => "Aggregation error: " ++ cause.message
  | snapshot cause => "Persistence error: " ++ cause.message
  | configuration text => "Configuration error: " ++ text
  | file text => "IO error: " ++ text

end TimeSeries
