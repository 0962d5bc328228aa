import TimeSeries.Chunk.Decoder
import TimeSeries.Chunk.Plain
import TimeSeries.Packing.Encode

/-!
# Packed chunks

A packed chunk keeps its first sample as it is and every later one in a stream of
bits, which can only be read forwards and added to at the end.  Any other change
writes the whole chunk anew: the samples are replayed, changed on the way, and
packed into a replacement, which takes the place of the chunk when it is complete.
A fault on the way drops the replacement and leaves the chunk as it was.

The latest chunk of a series keeps the bytes it had, so that there is room for more;
a sealed chunk gives up what it does not use.
-/

namespace TimeSeries

/-- The place of a chunk in its series, which tells whether it may keep room for more samples. -/
inductive ChunkPosition where
  /-- It is the newest one, and is added to. -/
  | latest
  /-- There is a newer one. -/
  | sealed
deriving DecidableEq

instance : Inhabited ChunkPosition := ⟨.latest⟩

/-- A packed chunk: a first sample `base`, and in `buffer` the stream of the later ones, which ends
in `state`.  As long as `count` is zero, `base` means nothing. -/
structure PackedChunk where
  buffer : BitBuffer
  count : Nat
  base : Sample
  state : Replay
deriving DecidableEq

namespace PackedChunk

/-- The bytes by which the buffer of a chunk grows when a sample does not fit. -/
def growthBytes : Nat := 64

/-- The bytes that a replacement should have left over, so that it seldom has to grow. -/
def headroomBytes : Nat := 1024

/-- The chunk without samples that packs into `buffer`. -/
def ofBuffer (buffer : BitBuffer) : PackedChunk where
  buffer := buffer
  count := 0
  base := ⟨0, .zero⟩
  state := Replay.start ⟨0, .zero⟩

/-- The chunk without samples whose buffer has the given number of `bytes`. -/
def new (bytes : Nat) : PackedChunk := ofBuffer (.zeros bytes)

/-- The chunk without samples whose buffer has the given number of `bytes`, if `memory` grants
it. -/
def allocate (memory : Memory) (bytes : Nat) : Except PackingError PackedChunk :=
  ofBuffer <$> BitBuffer.allocate memory bytes

/-- The number of samples of `c`, the first one included. -/
def length (c : PackedChunk) : Nat := c.count

/-- The bytes of the buffer of `c`, whether they hold written bits or not. -/
def capacity (c : PackedChunk) : Nat := c.buffer.capacity

/-- The timestamp of the first sample of `c`, if there is one. -/
def first? (c : PackedChunk) : Option Timestamp :=
  if c.count = 0 then none else some c.base.timestamp

/-- The timestamp of the last sample of `c`, if there is one; it is the one that `c.state` was left
with. -/
def last? (c : PackedChunk) : Option Timestamp :=
  if c.count = 0 then none else some c.state.timestamp

/-- A decoder of `c` that stands at the first sample. -/
def decoder (c : PackedChunk) : Decoder where
  reader := c.buffer.reader
  state := Replay.start c.base
  base := c.base
  index := 0
  remaining := c.count

/-- The samples of `c`, up to the first fault of the stream. -/
def samples (c : PackedChunk) : List Sample := c.decoder.drain.1

/-- The fault that ends the stream of `c`, if there is one. -/
def fault? (c : PackedChunk) : Option PackingError := c.decoder.drain.2

/-- The samples of `c` as a plain chunk with a slot for each, unless the stream of `c` ends in a
fault. -/
def unpack (c : PackedChunk) : Except PackingError PlainChunk :=
  match (PlainChunk.withSlots c.length).appendAll c.samples with
  | .error (.outOfOrder timestamp last) => .error (.corrupted (.unorderedSample timestamp last))
  | .error e => .error (.corrupted (.described ("decoded stream out of order: " ++ e.message)))
  | .ok plain =>
    match c.fault? with
    | some e => .error e
    | none => .ok plain

/-! ### Appending -/

/-- Packs `s` behind the stream of `c`.  When it does not fit the buffer grows by portions if `grow`
says so, or else the chunk is full. -/
def pack (memory : Memory) (c : PackedChunk) (s : Sample) (grow : Bool) :
    Step PackedChunk Unit :=
  match _h : encode c.buffer c.state c.count s with
  | .ok (buffer, state) => .done { c with buffer, state, count := c.count + 1 } ()
  | .error (.bufferFull _ _) =>
    if grow then
      match _hgrow : c.buffer.grow memory growthBytes with
      | .ok buffer =>
        (pack memory { c with buffer } s grow).preceded [⟨.growth, growthBytes⟩]
      | .error e => .fail c (.packing e)
    else .fail c (.full c.capacity)
  | .error e => .fail c (.packing e)
termination_by c.state.cost c.count s - c.buffer.free
decreasing_by
  have hfull := (encode_eq_bufferFull _h).2.2
  have hfree := BitBuffer.free_of_grow _hgrow
  simp only [hfree, growthBytes]
  omega

/-- Appends `s` to `c`: as the first sample, or behind the stream if it is after the last one. -/
def append (memory : Memory) (c : PackedChunk) (s : Sample) (grow : Bool) :
    Step PackedChunk Unit :=
  if c.count = 0 then .done { c with base := s, state := Replay.start s, count := 1 } ()
  else if s.timestamp ≤ c.state.timestamp then
    .fail c (.outOfOrder s.timestamp c.state.timestamp)
  else c.pack memory s grow

/-- Appends `s` to `c`, if it fits in the buffer as it is. -/
def add (c : PackedChunk) (s : Sample) : Step PackedChunk Unit := c.append .ample s false

/-- Appends samples to `c` one after the other, where the buffer may grow by what `memory`
grants. -/
def appendAll (memory : Memory) (c : PackedChunk) : List Sample → Step PackedChunk Unit
  | [] => .done c ()
  | s :: samples => (c.append memory s true).andThen fun c _ => c.appendAll memory samples

/-- Cuts the buffer of `c` to the bytes that hold a written bit. -/
def tighten (c : PackedChunk) : PackedChunk := { c with buffer := c.buffer.tighten }

/-! ### Writing anew -/

/-- A chunk without samples in which to write `c` anew.  It has the bytes of `c`, and the headroom
beside them if `c` has less than that left over. -/
def replacement (memory : Memory) (c : PackedChunk) : Except PackingError PackedChunk :=
  allocate memory <|
    if c.capacity - c.buffer.usedBytes < headroomBytes then
      min (c.capacity + headroomBytes) (wordLimit - 1)
    else c.capacity

/-- Takes the complete replacement `rebuilt` in place of `c`.  The latest chunk keeps the bytes that
`c` has, and a sealed one those that it needs. -/
def replaceBy (c rebuilt : PackedChunk) (operation : Operation) (position : ChunkPosition) :
    Step PackedChunk Unit :=
  let used := rebuilt.buffer.usedBytes
  let buffer :=
    match position with
    | .latest => rebuilt.buffer.resize (max c.capacity used) (Nat.le_max_right _ _)
    | .sealed => rebuilt.buffer.resize used (Nat.le_refl _)
  (Step.done { rebuilt with buffer } ()).followed (.once (.rebuild operation))

/-- Writes `samples` to the replacement `rebuilt` of `c`, and goes on with `next` unless the stream
that they were read from ended in a fault. -/
def writeAnew {α : Type} (memory : Memory) (c rebuilt : PackedChunk) (samples : List Sample)
    (next : PackedChunk → Step PackedChunk α) : Step PackedChunk α :=
  (rebuilt.appendAll memory samples).onCopy c fun rebuilt _ =>
    match c.fault? with
    | some e => .fail c (.packing e)
    | none => next rebuilt

/-- Inserts `s` before the last sample of `c`, or settles it by `policy` with the one at the same
time.  If the stored value stays, the replacement is dropped. -/
def insert (memory : Memory) (c : PackedChunk) (s : Sample) (policy : DuplicatePolicy)
    (position : ChunkPosition) : Step PackedChunk Nat :=
  match c.replacement memory with
  | .error e => .fail c (.packing e)
  | .ok rebuilt =>
    let before := c.samples.takeWhile (·.timestamp < s.timestamp)
    let rest := c.samples.dropWhile (·.timestamp < s.timestamp)
    let finish (added : Nat) (rebuilt : PackedChunk) : Step PackedChunk Nat :=
      (c.replaceBy rebuilt .upsert position).map id fun _ => added
    match rest with
    | [] =>
      c.writeAnew memory rebuilt before fun rebuilt =>
        (rebuilt.append memory s true).onCopy c fun rebuilt _ => finish 1 rebuilt
    | existing :: later =>
      (rebuilt.appendAll memory before).onCopy c fun rebuilt _ =>
        if existing.timestamp = s.timestamp then
          match policy.resolve? existing.value s.value with
          | none =>
            (Step.fail c (.duplicate s.timestamp existing.value s.value)).preceded
              [.once (.resolution policy false)]
          | some value =>
            Step.preceded [.once (.resolution policy true)] <|
              if value = existing.value then .done c 0
              else c.writeAnew memory rebuilt (⟨s.timestamp, value⟩ :: later) (finish 0)
        else c.writeAnew memory rebuilt (s :: rest) (finish 1)

/-- Inserts `s` in `c`, or settles it by `policy` with the sample at the same time.  The result is
the number of samples added. -/
def upsert (memory : Memory) (c : PackedChunk) (s : Sample) (policy : DuplicatePolicy)
    (position : ChunkPosition) : Step PackedChunk Nat :=
  if c.last?.all (· < s.timestamp) then
    (c.append memory s true).andThen fun c _ =>
      .done (match position with | .latest => c | .sealed => c.tighten) 1
  else c.insert memory s policy position

/-- Removes the sample of `c` at the time `t`, and writes the others anew. -/
def delete (memory : Memory) (c : PackedChunk) (t : Timestamp) (position : ChunkPosition) :
    Step PackedChunk Unit :=
  if c.first?.any (· ≤ t) && c.last?.any (t ≤ ·) then
    match c.replacement memory with
    | .error e => .fail c (.packing e)
    | .ok rebuilt =>
      c.writeAnew memory rebuilt (c.samples.filter (·.timestamp != t)) fun rebuilt =>
        if c.samples.any (·.timestamp == t) then c.replaceBy rebuilt .delete position
        else .fail c (.notFound t)
  else .fail c (.notFound t)

/-- Removes the samples of `c` in `range`, both ends included, and writes the others anew.  The
result is their number. -/
def deleteRange (memory : Memory) (c : PackedChunk) (range : TimeRange)
    (position : ChunkPosition) : Step PackedChunk Nat :=
  if c.first?.any (· ≤ range.stop) && c.last?.any (range.start ≤ ·) then
    match c.replacement memory with
    | .error e => .fail c (.packing e)
    | .ok rebuilt =>
      let removed := c.samples.countP (range.contains ·.timestamp)
      c.writeAnew memory rebuilt (c.samples.filter (!range.contains ·.timestamp)) fun rebuilt =>
        if removed = 0 then .done c 0
        else (c.replaceBy rebuilt .deleteRange position).map id fun _ => removed
  else .done c 0

/-- Moves the newer half of the samples of `c` to a chunk of its own, the smaller half if their
number is odd.  Both chunks have exactly the bytes they need. -/
def split (memory : Memory) (c : PackedChunk) :
    Except Breach (Step PackedChunk PackedChunk) :=
  if c.count = 0 then .error .emptySplit
  else
    let keep := c.length - c.length / 2
    .ok <|
      match allocate memory c.capacity, allocate memory c.capacity with
      | .error e, _ | _, .error e => .fail c (.packing e)
      | .ok left, .ok right =>
        (left.appendAll memory (c.samples.take keep)).onCopy c fun left _ =>
          c.writeAnew memory right (c.samples.drop keep) fun right =>
            (Step.done left.tighten right.tighten).followed (.once (.rebuild .split))

/-! ### Snapshots -/

/-- The frames of `c`: its base and the number of samples, the bytes of its buffer and how many bits
of them are written, and its state. -/
def frames (c : PackedChunk) : List Frame :=
  [.signed c.base.timestamp, .count c.count, .count c.capacity, .bytes c.buffer.bytes.toList,
    .count c.buffer.length, .double c.base.value, .signed c.state.timestamp,
    .signed c.state.delta, .double c.state.value, .count c.state.window.leading.toNat,
    .count c.state.window.trailing.toNat]

/-- Reads one `side` of a window, a count of zeros that a value of 64 bits can have. -/
def loadWindowSide (side : WindowSide) : Loading UInt8 := do
  let value ← Cursor.readUnsigned
  if 64 < value then throw (.corrupted (.notABitCount side value))
  return value.toUInt8

/-- Replays the samples from place `index` on, which have to be in the order of their
times, and gives the state at the end. -/
def follow (state : Replay) (index : Nat) : (remaining : Nat) → BitReader →
    Except Flaw (Replay × BitReader)
  | 0, reader => .ok (state, reader)
  | remaining + 1, reader =>
    match decode state index reader with
    | .error e _ => .error (.packing e)
    | .ok (sample, next) reader =>
      if sample.timestamp ≤ state.timestamp then
        .error (.unorderedSample index sample.timestamp state.timestamp)
      else follow next (index + 1) remaining reader

/-- Checks `c` as it was loaded: replaying it has to use up all bits and to end in the stored
state. -/
def check (c : PackedChunk) : Except Flaw Unit := do
  if c.count = 0 then
    if c.buffer.length ≠ 0 then throw .bitsWithoutSamples
  else
    let (state, reader) ← follow (Replay.start c.base) 1 (c.count - 1) c.buffer.reader
    if !reader.atEnd then throw (.bitsLeftOver reader.position c.buffer.length)
    if state ≠ c.state then throw .stateMismatch

/-- Reads the frames that `frames` writes, and checks that they are those of a chunk. -/
def load : Loading PackedChunk := do
  let baseTime ← Cursor.readSigned
  let count := (← Cursor.readUnsigned).toNat
  let capacity := (← Cursor.readUnsigned).toNat
  let bytes := (← Cursor.readBytes).toArray
  let length := (← Cursor.readUnsigned).toNat
  let baseValue ← Cursor.readDouble
  let timestamp ← Cursor.readSigned
  let delta ← Cursor.readSigned
  let value ← Cursor.readDouble
  let leading ← loadWindowSide .leading
  let trailing ← loadWindowSide .trailing
  if bytes.size ≠ capacity then throw (.corrupted (.bufferSize bytes.size capacity))
  match BitBuffer.ofBytes bytes length with
  | .error e => throw (.corrupted (.packing e))
  | .ok buffer =>
    let c : PackedChunk :=
      ⟨buffer, count, ⟨baseTime, baseValue⟩, ⟨timestamp, delta, value, ⟨leading, trailing⟩⟩⟩
    match c.check with
    | .ok () => return c
    | .error flaw => throw (.corrupted flaw)

end PackedChunk

end TimeSeries
