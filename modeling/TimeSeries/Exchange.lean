import TimeSeries.Aggregation.Kind
import TimeSeries.Chunk.Packed
import TimeSeries.Chunk.Scan
import TimeSeries.Datum

/-!
# Exchange

How the types of the library are written as data.  Names are exact, also in their
case; records have all their parts, and whatever else a table has is passed over.
-/

namespace TimeSeries

/-! ### Names -/

/-- The name of a position. -/
def ChunkPosition.name : ChunkPosition → String
  | latest => "latest"
  | sealed => "sealed"

/-- The name of a direction. -/
def Direction.name : Direction → String
  | forward => "forward"
  | reverse => "reverse"

/-- Reads a position from `d`. -/
def ChunkPosition.ofDatum? (d : Datum) : Option ChunkPosition := do
  let name ← d.nameOf?
  [latest, sealed].find? (·.name == name)

/-- Reads a direction from `d`. -/
def Direction.ofDatum? (d : Datum) : Option Direction := do
  let name ← d.nameOf?
  [forward, reverse].find? (·.name == name)

/-- Reads an encoding from `d`. -/
def Encoding.ofDatum? (d : Datum) : Option Encoding := d.nameOf? >>= Encoding.ofName?

/-- Reads a policy from `d`. -/
def DuplicatePolicy.ofDatum? (d : Datum) : Option DuplicatePolicy :=
  d.nameOf? >>= DuplicatePolicy.ofName?

/-- Reads a kind of aggregation from `d`. -/
def AggregationKind.ofDatum? (d : Datum) : Option AggregationKind :=
  d.nameOf? >>= AggregationKind.ofName?

/-! ### Records -/

/-- Reads a range of time from `d`, which may be inverted. -/
def TimeRange.ofDatum? (d : Datum) : Option TimeRange := do
  let [start, stop] ← d.recordOf? ["start", "end"] | none
  return ⟨← start.signedOf?, ← stop.signedOf?⟩

/-- Writes the range of time `r`. -/
def TimeRange.toDatum (r : TimeRange) : Datum :=
  .table [("start", .integer r.start.toInt), ("end", .integer r.stop.toInt)]

/-- The keys of the parts of a replay state. -/
def Replay.keys : List String :=
  ["prev_timestamp", "prev_delta", "prev_value", "prev_leading", "prev_trailing"]

/-- Reads a replay state from `d`. -/
def Replay.ofDatum? (d : Datum) : Option Replay := do
  let [timestamp, delta, value, leading, trailing] ← d.recordOf? keys | none
  return ⟨← timestamp.signedOf?, ← delta.signedOf?, ⟨← value.wordOf?⟩,
    ⟨← leading.byteOf?, ← trailing.byteOf?⟩⟩

/-- Writes the replay state `s`. -/
def Replay.toDatum (s : Replay) : Datum :=
  .table (keys.zip [.integer s.timestamp.toInt, .integer s.delta.toInt,
    .integer s.value.bits.toNat, .integer s.window.leading.toNat,
    .integer s.window.trailing.toNat])

end TimeSeries
