import TimeSeries.Aggregation.Aggregator
import TimeSeries.Chunk.Packed

/-!
# Chunks

A chunk holds the samples of a stretch of a series, plain or packed.  What it
answers does not depend on the encoding, save for how much fits in it.  Each
operation that may change a chunk is counted with the way it ended.
-/

namespace TimeSeries

/-- A chunk of either encoding: `plain` samples in slots, or `packed` samples in a stream of
bits. -/
inductive Chunk where
  | plain (c : PlainChunk)
  | packed (c : PackedChunk)
deriving DecidableEq

/-- Counts `operation` on a chunk of the given `encoding`, with the way the step `s` ended. -/
def Step.counted {σ α : Type} (s : Step σ α) (encoding : Encoding) (operation : Operation) :
    Step σ α :=
  s.followed (.once (.operation encoding operation (Status.ofOutcome s.outcome)))

/-- Has the chunk at `position` give up the slots that are not used, if it is sealed and the change
`s` has succeeded. -/
def PlainChunk.settle {α : Type} (position : ChunkPosition) (s : Step PlainChunk α) :
    Step PlainChunk α :=
  match position, s.outcome with
  | .sealed, .ok _ => { s with after := s.after.releaseSlack }
  | _, _ => s

namespace Chunk

/-- The chunk of the given `encoding` that has no samples and may use the given number of
`bytes`. -/
def new (encoding : Encoding) (bytes : Nat) : Chunk :=
  match encoding with
  | .plain => plain (.new bytes)
  | .packed => packed (.new bytes)

/-- The encoding of a chunk. -/
def encoding : Chunk → Encoding
  | plain _ => .plain
  | packed _ => .packed

/-- The number of samples. -/
def length : Chunk → Nat
  | plain c => c.length
  | packed c => c.length

/-- The first timestamp. -/
def first? : Chunk → Option Timestamp
  | plain c => c.first?
  | packed c => c.first?

/-- The last timestamp. -/
def last? : Chunk → Option Timestamp
  | plain c => c.last?
  | packed c => c.last?

/-- The bytes that a chunk may use for its samples. -/
def capacity : Chunk → Nat
  | plain c => c.capacity
  | packed c => c.capacity

/-- The base of a chunk, which is the time of its first sample; it means nothing as long as there
are no samples. -/
def base : Chunk → Timestamp
  | plain c => c.base
  | packed c => c.base.timestamp

/-- The number of bits that the samples after the first are packed in, if the chunk is `packed`. -/
def bitLength? : Chunk → Option Nat
  | plain _ => none
  | packed c => some c.buffer.length

/-- The bytes that a chunk of an encoding takes beside its samples. -/
def headerSize : Encoding → Nat
  | .plain => 64
  | .packed => 88

/-- The samples, oldest first. -/
def samples : Chunk → List Sample
  | plain c => c.samples
  | packed c => c.samples

/-! ### Changes -/

/-- Appends `s` to `c`, if there is room. -/
def add (c : Chunk) (s : Sample) : Step Chunk Unit :=
  match c with
  | plain p => ((p.add s).counted .plain .add).map plain id
  | packed p => ((p.add s).counted .packed .add).map packed id

/-- Inserts `s` anywhere in `c`, or settles it by `policy` with the sample at the same time.  The
result is the number of samples added. -/
def upsert (memory : Memory) (c : Chunk) (s : Sample) (policy : DuplicatePolicy)
    (position : ChunkPosition) : Step Chunk Nat :=
  match c with
  | plain p =>
    ((PlainChunk.settle position (p.upsert s policy)).counted .plain .upsert).map plain id
  | packed p => ((p.upsert memory s policy position).counted .packed .upsert).map packed id

/-- Removes the sample of `c` at the time `t`. -/
def delete (memory : Memory) (c : Chunk) (t : Timestamp) (position : ChunkPosition) :
    Step Chunk Unit :=
  match c with
  | plain p => ((PlainChunk.settle position (p.delete t)).counted .plain .delete).map plain id
  | packed p => ((p.delete memory t position).counted .packed .delete).map packed id

/-- Removes the samples of `c` in `range`, both ends included.  The result is their number. -/
def deleteRange (memory : Memory) (c : Chunk) (range : TimeRange) (position : ChunkPosition) :
    Step Chunk Nat :=
  match c with
  | plain p =>
    ((PlainChunk.settle position (p.deleteRange range)).counted .plain .deleteRange).map plain id
  | packed p =>
    ((p.deleteRange memory range position).counted .packed .deleteRange).map packed id

/-- Moves the newer half of the samples of `c` to a chunk of its own, of the same encoding. -/
def split (memory : Memory) (c : Chunk) : Except Breach (Step Chunk Chunk) :=
  match c with
  | plain p => (fun s => (s.counted .plain .split).map plain plain) <$> p.split
  | packed p => (fun s => (s.counted .packed .split).map packed packed) <$> p.split memory

/-! ### Conversion -/

/-- The samples of `c` as a plain chunk of the same bytes, or of more if a slot for each needs
more. -/
def toPlain (c : Chunk) : Except ChunkError Chunk :=
  plain <$> (PlainChunk.withSlots (max c.length (c.capacity / Sample.byteSize))).appendAll c.samples

/-- The samples of `c` as a packed chunk of the same bytes, or of more if their bits need more and
`memory` grants them. -/
def toPacked (memory : Memory) (c : Chunk) : Attempt Chunk :=
  match PackedChunk.allocate memory c.capacity with
  | .error e => ⟨.error (.packing e), []⟩
  | .ok p =>
    let s := p.appendAll memory c.samples
    ⟨(fun _ => packed s.after) <$> s.outcome, s.events⟩

/-- Takes `converted` in place of `c` if it has as many samples.  A conversion has to carry every
sample over. -/
def complete (c converted : Chunk) : Except ChunkError Chunk :=
  if converted.length = c.length then .ok converted
  else .error (.packing (.corrupted (.lostSamples converted.length c.length)))

/-- The chunk `c` in the encoding `target`; it is `c` itself if it has this encoding already. -/
def convert (memory : Memory) (c : Chunk) (target : Encoding) : Attempt Chunk :=
  if target = c.encoding then ⟨.ok c, []⟩
  else
    let converted : Attempt Chunk :=
      match target with
      | .plain => ⟨c.toPlain, []⟩
      | .packed => c.toPacked memory
    ⟨converted.outcome >>= c.complete, converted.events⟩

/-! ### Aggregation and snapshots -/

/-- The aggregation of `kind` over the values of `c` whose times are in `range`. -/
def aggregate (c : Chunk) (kind : AggregationKind) (range : TimeRange) :
    Except AggregationError Binary64 :=
  let samples := c.samples.dropWhile (·.timestamp < range.start)
  TimeSeries.aggregate kind
    ((samples.takeWhile (·.timestamp ≤ range.stop)).map Sample.value)

/-- The frames of `c`: the tag of its encoding, then those of the plain or packed chunk. -/
def frames (c : Chunk) : List Frame :=
  .unsigned c.encoding.tag ::
    match c with
    | plain p => p.frames
    | packed p => p.frames

/-- Reads the frames that `frames` writes: the tag of an encoding, then those of a chunk of this
encoding. -/
def load : Loading Chunk := do
  let tag ← Cursor.readUnsigned
  match Encoding.ofTag? tag with
  | some .plain => plain <$> PlainChunk.load
  | some .packed => packed <$> PackedChunk.load
  | none => throw (.corrupted (.unknownEncoding tag))

end Chunk

end TimeSeries
