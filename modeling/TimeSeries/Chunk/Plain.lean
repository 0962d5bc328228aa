import TimeSeries.Breach
import TimeSeries.Chunk.Columns
import TimeSeries.Chunk.Step
import TimeSeries.Snapshot.Cursor

/-!
# Plain chunks

A plain chunk keeps its samples as they are, in a number of slots.  An append to a
full chunk is refused; a sample that is inserted makes a slot if it has to.

The base is the first timestamp.  A chunk that has lost its samples keeps the base
it had last, and one that never had any starts at zero.
-/

namespace TimeSeries

/-- A plain chunk: the samples of `columns`, which take at most the given number of `slots`.  If
there are samples, `base` is the timestamp of the first one. -/
structure PlainChunk where
  columns : Columns
  slots : Nat
  base : Timestamp
  length_le : columns.size ≤ slots
  base_eq : ∀ first ∈ columns.first?, base = first
deriving DecidableEq

namespace PlainChunk

/-- The chunk without samples that has the given number of `slots`.  Its base is zero. -/
def withSlots (slots : Nat) : PlainChunk where
  columns := .empty
  slots := slots
  base := 0
  length_le := Nat.zero_le _
  base_eq := by rintro _ ⟨⟩

/-- The chunk without samples that has as many slots as `bytes` allow. -/
def new (bytes : Nat) : PlainChunk := withSlots (bytes / Sample.byteSize)

/-- The chunk with the samples of `columns`, whose base is `fallback` if there are none. -/
def rebased (columns : Columns) (slots : Nat) (fallback : Timestamp)
    (h : columns.size ≤ slots) : PlainChunk where
  columns := columns
  slots := slots
  base := columns.first?.getD fallback
  length_le := h
  base_eq := by
    intro first hfirst
    rw [Option.mem_def.mp hfirst, Option.getD_some]

/-- The samples of `c`, oldest first. -/
def samples (c : PlainChunk) : List Sample := c.columns.samples

/-- The samples of `c` as a timeline. -/
def timeline (c : PlainChunk) : Timeline := c.columns.timeline

/-- The number of samples of `c`, which is the number of slots that are taken. -/
def length (c : PlainChunk) : Nat := c.columns.size

/-- The timestamp of the first sample of `c`, if there is one. -/
def first? (c : PlainChunk) : Option Timestamp := c.columns.first?

/-- The timestamp of the last sample of `c`, if there is one. -/
def last? (c : PlainChunk) : Option Timestamp := c.columns.last?

/-- The bytes that the slots of `c` take, whether they hold samples or not. -/
def capacity (c : PlainChunk) : Nat := c.slots * Sample.byteSize

/-- The sample in the slot `i` of `c`, if it is taken. -/
def sampleAt? (c : PlainChunk) (i : Nat) : Option Sample := c.columns.sampleAt? i

/-- The chunk with `s` behind its samples, in a slot that is free. -/
def push (c : PlainChunk) (s : Sample) (hroom : c.length < c.slots)
    (h : ∀ last ∈ c.columns.last?, last < s.timestamp) : PlainChunk where
  columns := c.columns.push s h
  slots := c.slots
  base :=
    match c.columns.first? with
    | none => s.timestamp
    | some _ => c.base
  length_le := by
    rw [Columns.size_push]
    exact hroom
  base_eq := by
    intro first hfirst
    rw [Columns.first?_push, Option.mem_some_iff] at hfirst
    rw [← hfirst]
    split
    · rename_i hnone
      rw [hnone, Option.getD_none]
    · rename_i old hsome
      rw [hsome, Option.getD_some]
      apply c.base_eq old hsome

/-- Appends `s` to `c`.  A chunk all of whose slots are taken says that it is full, whatever `s`
is. -/
def append (c : PlainChunk) (s : Sample) : Except ChunkError PlainChunk :=
  if hroom : c.length < c.slots then
    match hlast : c.columns.last? with
    | none => .ok (c.push s hroom (by simp [hlast]))
    | some last =>
      if h : last < s.timestamp then .ok (c.push s hroom (by simpa [hlast] using h))
      else .error (.outOfOrder s.timestamp last)
  else .error (.full c.capacity)

/-- Appends the `samples` to `c` one after the other, and fails at the first one that does not fit
or is out of order. -/
def appendAll (c : PlainChunk) (samples : List Sample) : Except ChunkError PlainChunk :=
  samples.foldlM append c

/-- Appends `s` to `c`, and leaves `c` if that fails; a full chunk says so before it looks at the
sample. -/
def add (c : PlainChunk) (s : Sample) : Step PlainChunk Unit :=
  match c.append s with
  | .ok c => .done c ()
  | .error e => .fail c e

/-- Inserts `s` at a time at which `c` has no sample.  A full chunk gets one more slot. -/
def insert (c : PlainChunk) (s : Sample) (h : c.columns.place? s.timestamp = none) :
    PlainChunk where
  columns := c.columns.insert s h
  slots := if c.length < c.slots then c.slots else c.slots + 1
  base := if c.columns.rank s.timestamp = 0 then s.timestamp else c.base
  length_le := by
    have hle := c.length_le
    rw [Columns.size_insert, length]
    split <;> omega
  base_eq := by
    intro first hfirst
    rw [Columns.first?_insert, Option.mem_def] at hfirst
    split at hfirst
    · rename_i hrank
      rw [if_pos hrank, Option.some_inj.mp hfirst]
    · rename_i hrank
      rw [if_neg hrank, c.base_eq first hfirst]

/-- Puts another value at the place `i`. -/
def revalue (c : PlainChunk) (i : Nat) (value : Binary64) : PlainChunk where
  columns := c.columns.revalue i value
  slots := c.slots
  base := c.base
  length_le := c.length_le
  base_eq := c.base_eq

/-- Inserts `s` in `c`, or settles it by `policy` with the sample at the same time.  The result is
the number of samples added. -/
def upsert (c : PlainChunk) (s : Sample) (policy : DuplicatePolicy) : Step PlainChunk Nat :=
  match h : c.columns.place? s.timestamp with
  | none => .done (c.insert s h) 1
  | some i =>
    let existing := c.columns.value i
    match policy.resolve? existing s.value with
    | some value =>
      (Step.done (c.revalue i value) 0).preceded [.once (.resolution policy true)]
    | none =>
      (Step.fail c (.duplicate s.timestamp existing s.value)).preceded
        [.once (.resolution policy false)]

/-- Removes the sample of `c` at the time `t`. -/
def delete (c : PlainChunk) (t : Timestamp) : Step PlainChunk Unit :=
  match c.columns.place? t with
  | some i =>
    let rest := c.columns.erase i
    .done (rebased rest c.slots c.base (Nat.le_trans (c.columns.size_erase_le i) c.length_le)) ()
  | none => .fail c (.notFound t)

/-- Removes the samples of `c` in `range`, both ends included.  The result is their number. -/
def deleteRange (c : PlainChunk) (range : TimeRange) : Step PlainChunk Nat :=
  let low := c.columns.rank range.start
  let high := c.columns.rankBehind range.stop
  if h : low < high then
    let rest := c.columns.drain low high (Nat.le_of_lt h)
    .done (rebased rest c.slots c.base
      (Nat.le_trans (c.columns.size_drain_le (Nat.le_of_lt h)) c.length_le)) (high - low)
  else .done c 0

/-- Gives up the slots of `c` that hold no sample. -/
def releaseSlack (c : PlainChunk) : PlainChunk :=
  { c with slots := c.length, length_le := Nat.le_refl _ }

/-- Moves the newer half of the samples of `c` to a chunk of its own, the smaller half if their
number is odd.  Both chunks have exactly the slots they need. -/
def split (c : PlainChunk) : Except Breach (Step PlainChunk PlainChunk) :=
  if c.length = 0 then .error .emptySplit
  else
    let keep := c.length - c.length / 2
    let part (low high : Nat) : PlainChunk :=
      let columns := c.columns.part low high
      rebased columns columns.size c.base (Nat.le_refl _)
    .ok (.done (part 0 keep) (part keep c.length))

/-! ### Snapshots -/

/-- The bytes of `s` in a payload: its time and its value, low byte first. -/
def sampleBytes (s : Sample) : List UInt8 :=
  wordBytes s.timestamp.toUInt64 ++ wordBytes s.value.bits

/-- The frames of `c`: its base, the number of samples, its bytes, and the samples as one byte
string. -/
def frames (c : PlainChunk) : List Frame :=
  [.signed c.base, .count c.length, .count c.capacity, .bytes (c.samples.flatMap sampleBytes)]

/-- The sample whose bytes are the sixteen `bytes`, which `sampleBytes` gives back. -/
def sampleOfBytes (bytes : List UInt8) : Sample where
  timestamp := (ofWordBytes (bytes.take wordSize)).toInt64
  value := ⟨ofWordBytes (bytes.drop wordSize)⟩

/-- The first `count` samples in a byte string. -/
def samplesOfBytes (bytes : List UInt8) : (count : Nat) → List Sample
  | 0 => []
  | count + 1 =>
    sampleOfBytes (bytes.take Sample.byteSize) ::
      samplesOfBytes (bytes.drop Sample.byteSize) count

/-- The chunk with the given `base`, `slots` and `samples`, which have to be in order and to start
at `base`.  Any base will do for a chunk without samples. -/
def assemble (base : Timestamp) (slots : Nat) (samples : List Sample) :
    Except Flaw PlainChunk := do
  match (withSlots slots).appendAll samples with
  | .error (.outOfOrder timestamp last) => throw (.misplacedSample timestamp last)
  | .error e => throw (.described e.message)
  | .ok c =>
    if h : ∀ first ∈ c.columns.first?, base = first then return { c with base, base_eq := h }
    else throw (.baseMismatch base c.base)

/-- Reads the frames that `frames` writes, and checks that the payload has as many samples as it
says and no more than there are slots. -/
def load : Loading PlainChunk := do
  let base ← Cursor.readSigned
  let count := (← Cursor.readUnsigned).toNat
  let slots := (← Cursor.readUnsigned).toNat / Sample.byteSize
  let payload ← Cursor.readBytes
  if slots < count then throw (.corrupted (.tooManySamples count slots))
  if payload.length ≠ count * Sample.byteSize then
    throw (.corrupted (.payloadSize payload.length count))
  match assemble base slots (samplesOfBytes payload count) with
  | .ok c => return c
  | .error flaw => throw (.corrupted flaw)

end PlainChunk

end TimeSeries
