import TimeSeries.Chunk
import TimeSeries.Proofs.Packing.Buffer
import TimeSeries.Proofs.Packing.Guarded
import TimeSeries.Proofs.Snapshot.Loads

/-!
# Guarded loading

The loading of chunks with all its guards.  The loop that replays a packed chunk is given no
more rounds than half its bits and one; what the frames claim to be the number of samples is
only counted down.  Whatever the bytes of a snapshot are, as long as a word counts their bits,
none of the guards stops the loading.
-/

namespace TimeSeries

/-- A word counts the bits of `bytes` and of a seal behind them. -/
def Countable (bytes : List UInt8) : Prop := 8 * (bytes.length + wordSize) < wordLimit

theorem Countable.mono
    {bytes bytes' : List UInt8} (h : Countable bytes) (hle : bytes'.length ≤ bytes.length) :
  Countable bytes'
  := by
  rw [Countable] at *
  omega

/-- A word counts the bits of what is unread at `c`. -/
def Cursor.Proper (c : Cursor) : Prop := Countable c.unread

namespace Guarded

/-! ### Cursors -/

/-- Looks at the tag at `c`, and goes past it if it is right. -/
def enterAt (kind : FrameKind) (c : Cursor) : Guarded SnapshotError Cursor Unit := do
  require (0 < c.unread.length) (.outOfBounds 0 c.unread.length)
  let found := FrameKind.ofTag (c.unread.headD 0)
  if found = kind then set (⟨c.unread.tail⟩ : Cursor)
  else throw (.inr (.typeMismatch kind found))

/-- Enters a frame of the given `kind`. -/
def enter (kind : FrameKind) : Guarded SnapshotError Cursor Unit := fun c =>
  if c.unread.isEmpty then .error (.inr .unexpectedEnd) c else enterAt kind c c

/-- Cuts `count` bytes off at `c`. -/
def takeAt (count : Nat) (c : Cursor) : Guarded SnapshotError Cursor (List UInt8) := do
  require (count ≤ c.unread.length) (.outOfBounds count c.unread.length)
  set (⟨c.unread.drop count⟩ : Cursor)
  return c.unread.take count

/-- Takes `count` bytes. -/
def take (count : Nat) : Guarded SnapshotError Cursor (List UInt8) := fun c =>
  if c.unread.length < count then .error (.inr .unexpectedEnd) c else takeAt count c c

/-- Takes a word. -/
def takeWord : Guarded SnapshotError Cursor UInt64 := ofWordBytes <$> take wordSize

/-- Reads an unsigned number. -/
def readUnsigned : Guarded SnapshotError Cursor UInt64 := do
  enter .unsigned
  takeWord

/-- Reads a byte string. -/
def readBytes : Guarded SnapshotError Cursor (List UInt8) := do
  enter .bytes
  let length ← takeWord
  take length.toNat

/-- Reads a signed number. -/
def readTime : Guarded SnapshotError Cursor Int64 := UInt64.toInt64 <$> readUnsigned

/-- Reads a double. -/
def readDouble : Guarded SnapshotError Cursor Binary64 := Binary64.mk <$> readUnsigned

theorem agrees_enter
    (kind : FrameKind) :
  Agrees Cursor.Proper (enter kind) (Cursor.enter kind) fun _ => True
  := by
  rintro ⟨unread⟩ hproper
  cases unread with
  | nil => exact ⟨rfl, hproper⟩
  | cons tag unread =>
    have hmodel : Cursor.enter kind ⟨tag :: unread⟩
        = if FrameKind.ofTag tag = kind then .ok () ⟨unread⟩
          else .error (.typeMismatch kind (FrameKind.ofTag tag)) ⟨tag :: unread⟩ := rfl
    have hguarded : enter kind ⟨tag :: unread⟩
        = enterAt kind ⟨tag :: unread⟩ ⟨tag :: unread⟩ := rfl
    have hentered : enterAt kind ⟨tag :: unread⟩
        = if FrameKind.ofTag tag = kind then set (⟨unread⟩ : Cursor)
          else throw (.inr (.typeMismatch kind (FrameKind.ofTag tag))) := by
      have hpos : 0 < (tag :: unread).length := Nat.succ_pos _
      rw [enterAt, require_of hpos]
      rfl
    rw [hmodel, hguarded, hentered]
    by_cases hfound : FrameKind.ofTag tag = kind
    · rw [if_pos hfound, if_pos hfound]
      use rfl, trivial
      apply hproper.mono (Nat.le_succ _)
    · rw [if_neg hfound, if_neg hfound]
      exact ⟨rfl, hproper⟩

theorem agrees_take
    (count : Nat) :
  Agrees Cursor.Proper (take count) (Cursor.take count) Countable
  := by
  intro c hproper
  rw [take, Cursor.take]
  by_cases hshort : c.unread.length < count
  · rw [if_pos hshort, if_pos hshort]
    exact ⟨rfl, hproper⟩
  · rw [if_neg hshort, if_neg hshort, takeAt, require_of (Nat.le_of_not_lt hshort)]
    use rfl, hproper.mono (List.length_take_le' _ _)
    apply hproper.mono
    rw [List.length_drop]
    apply Nat.sub_le

theorem agrees_takeWord :
  Agrees Cursor.Proper takeWord Cursor.takeWord fun _ => True
  := (agrees_take wordSize).map fun _ _ => trivial

theorem agrees_readUnsigned :
  Agrees Cursor.Proper readUnsigned Cursor.readUnsigned fun _ => True
  := (agrees_enter .unsigned).bind fun _ _ => agrees_takeWord

theorem agrees_readTime :
  Agrees Cursor.Proper readTime Cursor.readSigned fun _ => True
  := agrees_readUnsigned.map fun _ _ => trivial

theorem agrees_readDouble :
  Agrees Cursor.Proper readDouble Cursor.readDouble fun _ => True
  := agrees_readUnsigned.map fun _ _ => trivial

theorem agrees_readBytes :
  Agrees Cursor.Proper readBytes Cursor.readBytes Countable
  := by
  apply (agrees_enter .bytes).bind
  intro _ _
  apply agrees_takeWord.bind
  intro length _
  apply agrees_take

/-! ### Plain chunks -/

/-- The first `count` samples in a byte string, each split in the middle of its bytes. -/
def samplesOfBytes (bytes : List UInt8) : (count : Nat) →
    Guarded SnapshotError Cursor (List Sample)
  | 0 => return []
  | count + 1 => do
    let pair := bytes.take Sample.byteSize
    require (wordSize ≤ pair.length) (.outOfBounds wordSize pair.length)
    let samples ← samplesOfBytes (bytes.drop Sample.byteSize) count
    return PlainChunk.sampleOfBytes pair :: samples

/-- Reads the frames of a chunk.  Slots are made for the samples that are there, not for those
that there may be. -/
def loadPlain : Guarded SnapshotError Cursor PlainChunk := do
  let base ← readTime
  let count := (← readUnsigned).toNat
  let slots := (← readUnsigned).toNat / Sample.byteSize
  let payload ← readBytes
  if slots < count then throw (.inr (.corrupted (.tooManySamples count slots)))
  if payload.length ≠ count * Sample.byteSize then
    throw (.inr (.corrupted (.payloadSize payload.length count)))
  require (8 * count < 2 ^ 63) (.overflow (8 * count))
  let samples ← samplesOfBytes payload count
  match PlainChunk.assemble base slots samples with
  | .ok c => return c
  | .error flaw => throw (.inr (.corrupted flaw))

theorem samplesOfBytes_eq
    {bytes : List UInt8} {count : Nat} (h : count * Sample.byteSize ≤ bytes.length) :
  samplesOfBytes bytes count = pure (PlainChunk.samplesOfBytes bytes count)
  := by
  induction count generalizing bytes with
  | zero => rfl
  | succ count ih =>
    have hpair : wordSize ≤ (bytes.take Sample.byteSize).length := by
      rw [List.length_take]
      simp only [wordSize, Sample.byteSize] at *
      omega
    have hrest : count * Sample.byteSize ≤ (bytes.drop Sample.byteSize).length := by
      rw [List.length_drop]
      simp only [Sample.byteSize] at *
      omega
    rw [samplesOfBytes, PlainChunk.samplesOfBytes, require_of hpair, ih hrest]
    rfl

theorem agrees_loadPlain :
  Agrees Cursor.Proper loadPlain PlainChunk.load fun _ => True
  := by
  apply agrees_readTime.bind
  intro base _
  apply agrees_readUnsigned.bind
  intro count _
  apply agrees_readUnsigned.bind
  intro capacity _
  apply agrees_readBytes.bind
  intro payload hpayload
  apply Agrees.check
  intro _
  apply Agrees.check
  intro hlength
  rw [Decidable.not_not] at hlength
  rw [Countable, hlength, wordLimit, Sample.byteSize] at hpayload
  apply Agrees.require (by omega)
  rw [samplesOfBytes_eq (by omega), pure_bind]
  dsimp only
  cases PlainChunk.assemble base (capacity.toNat / Sample.byteSize)
      (PlainChunk.samplesOfBytes payload count.toNat) with
  | ok c => apply Agrees.pure trivial
  | error flaw => apply Agrees.throw

/-! ### Packed chunks -/

/-- Replays `remaining` samples in no more rounds than `budget`. -/
def followWithin (state : Replay) (index : Nat) : (budget remaining : Nat) → BitReader →
    Except (Abort ⊕ Flaw) (Replay × BitReader)
  | _, 0, reader => .ok (state, reader)
  | 0, _ + 1, _ => .error (.inl .endless)
  | budget + 1, remaining + 1, reader =>
    match decode state index reader with
    | .error (.inl abort) _ => .error (.inl abort)
    | .error (.inr e) _ => .error (.inr (.packing e))
    | .ok (sample, next) reader =>
      if sample.timestamp ≤ state.timestamp then
        .error (.inr (.unorderedSample index sample.timestamp state.timestamp))
      else followWithin next (index + 1) budget remaining reader

/-- Checks `c` in no more rounds than half its bits and one. -/
def check (c : PackedChunk) : Except (Abort ⊕ Flaw) Unit := do
  if c.count = 0 then
    if c.buffer.length ≠ 0 then throw (.inr .bitsWithoutSamples)
  else
    let (state, reader) ← followWithin (Replay.start c.base) 1 (c.buffer.length / 2 + 1)
      (c.count - 1) c.buffer.reader
    if !reader.atEnd then throw (.inr (.bitsLeftOver reader.position c.buffer.length))
    if state ≠ c.state then throw (.inr .stateMismatch)

/-- Reads one `side` of a window. -/
def loadWindowSide (side : WindowSide) : Guarded SnapshotError Cursor UInt8 := do
  let value ← readUnsigned
  if 64 < value then throw (.inr (.corrupted (.notABitCount side value)))
  return value.toUInt8

/-- Reads the frames of a chunk. -/
def loadPacked : Guarded SnapshotError Cursor PackedChunk := do
  let baseTime ← readTime
  let count := (← readUnsigned).toNat
  let capacity := (← readUnsigned).toNat
  let bytes := (← readBytes).toArray
  let length := (← readUnsigned).toNat
  let baseValue ← readDouble
  let timestamp ← readTime
  let delta ← readTime
  let value ← readDouble
  let leading ← loadWindowSide .leading
  let trailing ← loadWindowSide .trailing
  if bytes.size ≠ capacity then throw (.inr (.corrupted (.bufferSize bytes.size capacity)))
  match BitBuffer.ofBytes bytes length with
  | .error e => throw (.inr (.corrupted (.packing e)))
  | .ok buffer =>
    require (8 * buffer.capacity < wordLimit) (.overflow (8 * buffer.capacity))
    let c : PackedChunk :=
      ⟨buffer, count, ⟨baseTime, baseValue⟩, ⟨timestamp, delta, value, ⟨leading, trailing⟩⟩⟩
    match check c with
    | .ok () => return c
    | .error (.inl abort) => throw (.inl abort)
    | .error (.inr flaw) => throw (.inr (.corrupted flaw))

/-- Reads the frames of a chunk of either encoding. -/
def loadChunk : Guarded SnapshotError Cursor Chunk := do
  let tag ← readUnsigned
  match Encoding.ofTag? tag with
  | some .plain => Chunk.plain <$> loadPlain
  | some .packed => Chunk.packed <$> loadPacked
  | none => throw (.inr (.corrupted (.unknownEncoding tag)))

/-- Each round takes two bits or more, so that a `budget` of half the bits is enough, however many
samples there are said to be. -/
theorem followWithin_eq
    {state : Replay} {index budget remaining : Nat} {reader : BitReader} (hreader : reader.Proper)
    (hbudget : reader.left < 2 * budget) :
  followWithin state index budget remaining reader
    = (PackedChunk.follow state index remaining reader).mapError Sum.inr
  := by
  induction remaining generalizing state index budget reader with
  | zero =>
    rw [followWithin, PackedChunk.follow]
    rfl
  | succ remaining ih =>
    obtain ⟨budget, rfl⟩ : ∃ rounds, budget = rounds + 1 := ⟨budget - 1, by omega⟩
    rw [followWithin, PackedChunk.follow]
    cases hdecode : TimeSeries.decode state index reader with
    | error e next =>
      rw [(agrees_decode state index).of_eq_error hreader hdecode]
      rfl
    | ok read next =>
      obtain ⟨sample, after⟩ := read
      obtain ⟨hguarded, _, hnext⟩ := (agrees_decode state index).of_eq_ok hreader hdecode
      obtain ⟨width, hwidth, _, rfl⟩ := moves_decode _ _ _ _ _ hdecode
      have hleast : 2 ≤ leastSampleBits index := by
        rw [leastSampleBits]
        split <;> decide
      have hposition := hnext.position_le
      have hleft : (reader.advance width).left < 2 * budget := by
        rw [BitReader.left] at hbudget ⊢
        simp only [BitReader.advance] at hposition ⊢
        omega
      rw [hguarded]
      dsimp only
      split
      · rfl
      · apply ih hnext hleft

/-- The replay of `c` has rounds enough. -/
theorem check_eq
    {c : PackedChunk} (h : c.buffer.length + 64 < wordLimit) :
  check c = c.check.mapError Sum.inr
  := by
  have hbits := c.buffer.length_le
  have hlimit : c.buffer.reader.limit = c.buffer.length := Nat.min_eq_left hbits
  have hreader : c.buffer.reader.Proper := by
    constructor
    · apply Nat.zero_le
    · rwa [hlimit]
  have hbudget : c.buffer.reader.left < 2 * (c.buffer.length / 2 + 1) := by
    rw [BitReader.left, hlimit]
    omega
  rw [check, PackedChunk.check, followWithin_eq hreader hbudget]
  by_cases hcount : c.count = 0
  · rw [if_pos hcount, if_pos hcount]
    split <;> rfl
  · rw [if_neg hcount, if_neg hcount]
    cases PackedChunk.follow (Replay.start c.base) 1 (c.count - 1) c.buffer.reader with
    | error flaw => rfl
    | ok last =>
      simp only [Except.mapError, bind, Except.bind]
      split
      · rfl
      · split <;> rfl

theorem agrees_loadWindowSide
    (side : WindowSide) :
  Agrees Cursor.Proper (loadWindowSide side) (PackedChunk.loadWindowSide side) fun _ => True
  := by
  apply agrees_readUnsigned.bind
  intro value _
  apply Agrees.check
  intro _
  apply Agrees.pure trivial

theorem agrees_loadPacked :
  Agrees Cursor.Proper loadPacked PackedChunk.load fun _ => True
  := by
  apply agrees_readTime.bind
  intro baseTime _
  apply agrees_readUnsigned.bind
  intro count _
  apply agrees_readUnsigned.bind
  intro capacity _
  apply agrees_readBytes.bind
  intro bytes hbytes
  apply agrees_readUnsigned.bind
  intro length _
  apply agrees_readDouble.bind
  intro baseValue _
  apply agrees_readTime.bind
  intro timestamp _
  apply agrees_readTime.bind
  intro delta _
  apply agrees_readDouble.bind
  intro value _
  apply (agrees_loadWindowSide .leading).bind
  intro leading _
  apply (agrees_loadWindowSide .trailing).bind
  intro trailing _
  apply Agrees.check
  intro _
  cases hbuffer : BitBuffer.ofBytes bytes.toArray length.toNat with
  | error e => apply Agrees.throw
  | ok buffer =>
    have hlength := buffer.length_le
    have hroom : 8 * buffer.bytes.size + 64 < wordLimit := by
      rw [(BitBuffer.parts_of_ofBytes hbuffer).1]
      rw [Countable, wordSize] at hbytes
      simp only [List.size_toArray]
      omega
    apply Agrees.require (by rw [BitBuffer.capacity]; omega)
    dsimp only
    rw [check_eq (by dsimp only; omega)]
    cases PackedChunk.check ⟨buffer, count.toNat, ⟨baseTime, baseValue⟩,
        ⟨timestamp, delta, value, ⟨leading, trailing⟩⟩⟩ with
    | ok => apply Agrees.pure trivial
    | error flaw => apply Agrees.throw

/-- The guarded `loadChunk` ends as `Chunk.load` does, and so does not abort, whatever is loaded. -/
theorem agrees_loadChunk :
  Agrees Cursor.Proper loadChunk Chunk.load fun _ => True
  := by
  apply agrees_readUnsigned.bind
  intro tag _
  cases Encoding.ofTag? tag with
  | none => apply Agrees.throw
  | some encoding =>
    cases encoding with
    | plain => apply agrees_loadPlain.map fun _ _ => trivial
    | packed => apply agrees_loadPacked.map fun _ _ => trivial

end Guarded

end TimeSeries
