import TimeSeries.Proofs.Chunk.Plain
import TimeSeries.Proofs.Downsampling
import TimeSeries.Proofs.Snapshot.Queue
import TimeSeries.Proofs.Snapshot.RoundTrip

/-!
# Spellings

`Spells m R` says that whatever the loading `m` gives, it has gone past frames that are, by the
relation `R`, a spelling of it.  The rules are those of sequencing, as for what frames load to,
but they go the other way: from what was accepted back to the frames it was read from.

An aggregator, a rule and a packed chunk are spelled in one way only, by the frames they are
saved as.  A plain chunk can be spelled with bytes that are not enough for one more slot; when
it is saved again these are gone, and everything else is as it was.
-/

namespace TimeSeries

/-! ### Frames and their bytes -/

/-- A word counts the bytes of the frame. -/
def Frame.Fits : Frame → Prop
  | unsigned _ => True
  | bytes content => content.length < wordLimit

theorem wordBytes_append_inj
    {v w : UInt64} {x y : List UInt8} (h : wordBytes v ++ x = wordBytes w ++ y) :
  v = w ∧ x = y
  := by
  obtain ⟨hword, htail⟩ := List.append_inj h (by rw [length_wordBytes, length_wordBytes])
  constructor
  · rw [← ofWordBytes_wordBytes v, hword, ofWordBytes_wordBytes]
  · apply htail

/-- If `frame` and `frame'` fit and their bytes begin the same byte string, they are equal, and so
is what comes behind them. -/
theorem Frame.encode_append_inj
    {frame frame' : Frame} {x y : List UInt8} (hfits : frame.Fits) (hfits' : frame'.Fits)
    (h : frame.encode ++ x = frame'.encode ++ y) :
  frame = frame' ∧ x = y
  := by
  cases frame with
  | unsigned v =>
    cases frame' with
    | unsigned w =>
      obtain ⟨rfl, rfl⟩ := wordBytes_append_inj (List.cons.inj h).2
      use rfl
    | bytes content =>
      have htag := (List.cons.inj h).1
      cases htag
  | bytes content =>
    cases frame' with
    | unsigned w =>
      have htag := (List.cons.inj h).1
      cases htag
    | bytes content' =>
      have hword : wordBytes (UInt64.ofNat content.length) ++ content ++ x
          = wordBytes (UInt64.ofNat content'.length) ++ content' ++ y := (List.cons.inj h).2
      rw [List.append_assoc, List.append_assoc] at hword
      obtain ⟨hcount, hrest⟩ := wordBytes_append_inj hword
      have hlength : content.length = content'.length := by
        rw [← toNat_ofNat hfits, hcount, toNat_ofNat hfits']
      obtain ⟨rfl, rfl⟩ := List.append_inj hrest hlength
      use rfl

theorem Frame.encode_ne_nil
    (frame : Frame) :
  frame.encode ≠ []
  := by
  cases frame <;> apply List.cons_ne_nil

/-- If all `frames` fit and their bytes begin with those of the frames `first`, then `frames` begin
with `first`. -/
theorem exists_eq_append_of_encodeFrames_eq
    {frames first : List Frame} {bytes : List UInt8} (hfits : ∀ frame ∈ frames, frame.Fits)
    (hfirst : ∀ frame ∈ first, frame.Fits)
    (h : encodeFrames frames = encodeFrames first ++ bytes) :
  ∃ left, frames = first ++ left ∧ bytes = encodeFrames left
  := by
  induction first generalizing frames with
  | nil => use frames, rfl, h.symm
  | cons frame first ih =>
    obtain ⟨hframe, hlater⟩ := List.forall_mem_cons.mp hfirst
    have h : encodeFrames frames = frame.encode ++ (encodeFrames first ++ bytes) := by
      rw [h, encodeFrames, List.flatMap_cons, List.append_assoc]
      rfl
    cases frames with
    | nil =>
      have hnil := (List.append_eq_nil_iff.mp h.symm).1
      cases frame.encode_ne_nil hnil
    | cons frame' frames =>
      obtain ⟨hframe', hframes⟩ := List.forall_mem_cons.mp hfits
      obtain ⟨rfl, hrest⟩ := Frame.encode_append_inj hframe' hframe h
      obtain ⟨left, rfl, hleft⟩ := ih hframes hlater hrest
      use left, rfl, hleft

/-! ### Loading and spelling -/

variable {α β : Type}

/-- Whatever `m` gives, it has read frames that spell it as `R` says, and no byte more. -/
def Spells (m : Loading α) (R : α → List Frame → Prop) : Prop :=
  ∀ (cursor later : Cursor) (a : α), m cursor = .ok a later →
    ∃ frames, (∀ frame ∈ frames, frame.Fits)
      ∧ cursor.unread = encodeFrames frames ++ later.unread ∧ R a frames

namespace Spells

variable {m : Loading α} {R : α → List Frame → Prop} {S : β → List Frame → Prop}

theorem pure
    {a : α} (h : R a []) :
  Spells (Pure.pure a) R
  := by
  intro cursor later b hb
  cases hb
  use []
  use List.forall_mem_nil _, rfl, h

theorem throw
    (e : SnapshotError) :
  Spells (MonadExcept.throw e) R
  := by
  intro cursor later a h
  cases h

/-- If `m` is spelled by `R` and what follows by `S`, then both together are spelled by the frames
of the first, then those of the second. -/
theorem bind
    {f : α → Loading β} (hm : Spells m R)
    (hf : ∀ a first, R a first → Spells (f a) fun b second => S b (first ++ second)) :
  Spells (m >>= f) S
  := by
  intro cursor later b h
  obtain ⟨a, middle, hfirst, hsecond⟩ := exists_of_bind_eq_ok h
  obtain ⟨first, hfits, hunread, ha⟩ := hm cursor middle a hfirst
  obtain ⟨second, hfits', hunread', hb⟩ := hf a first ha middle later b hsecond
  use first ++ second
  constructor
  · intro frame hframe
    obtain hframe | hframe := List.mem_append.mp hframe
    · apply hfits frame hframe
    · apply hfits' frame hframe
  · rw [hunread, hunread', encodeFrames_append, List.append_assoc]
    use rfl, hb

theorem map
    (hm : Spells m R) (f : α → β) (h : ∀ a frames, R a frames → S (f a) frames) :
  Spells (f <$> m) S
  := by
  intro cursor later b hload
  obtain ⟨a, hread, rfl⟩ := exists_of_map_eq_ok hload
  obtain ⟨frames, hfits, hunread, ha⟩ := hm cursor later a hread
  use frames, hfits, hunread, h a frames ha

end Spells

/-- If `next` is spelled by `R` where the check `c` does not fail, so is the check with `next`
behind it. -/
theorem Spells.unless
    {R : α → List Frame → Prop} {c : Prop} [Decidable c] {e : SnapshotError}
    {next : PUnit → Loading α} (h : ¬c → Spells (next ⟨⟩) R) :
  Spells (if c then MonadExcept.throw e >>= next else next ⟨⟩) R
  := by
  by_cases hc : c
  · rw [if_pos hc]
    intro cursor later a hload
    cases hload
  · rw [if_neg hc]
    apply h hc

/-! ### Single frames -/

theorem spells_readUnsigned :
  Spells Cursor.readUnsigned fun value frames => frames = [.unsigned value]
  := by
  intro cursor later value h
  use [.unsigned value]
  constructor
  · intro frame hframe
    rw [List.mem_singleton.mp hframe]
    trivial
  · rw [restores_readUnsigned cursor later value h, encodeFrames, List.flatMap_singleton]
    use rfl

theorem spells_readSigned :
  Spells Cursor.readSigned fun value frames => frames = [.signed value]
  := by
  apply spells_readUnsigned.map
  rintro word _ rfl
  rw [Frame.signed, UInt64.toUInt64_toInt64]

theorem spells_readDouble :
  Spells Cursor.readDouble fun value frames => frames = [.double value]
  := by
  apply spells_readUnsigned.map
  rintro word _ rfl
  rfl

theorem gives_readBytes :
  Gives Cursor.readBytes fun content => content.length < wordLimit
  := by
  intro cursor later content h
  obtain ⟨_, entered, _, h⟩ := exists_of_bind_eq_ok h
  obtain ⟨length, measured, _, htake⟩ := exists_of_bind_eq_ok h
  rw [(take_eq_ok htake).2]
  apply length.toNat_lt

theorem spells_readBytes :
  Spells Cursor.readBytes fun content frames => frames = [.bytes content]
  := by
  intro cursor later content h
  use [.bytes content]
  constructor
  · intro frame hframe
    rw [List.mem_singleton.mp hframe]
    apply gives_readBytes cursor later content h
  · rw [restores_readBytes cursor later content h, encodeFrames, List.flatMap_singleton]
    use rfl

/-! ### Plain chunks -/

namespace PlainChunk

theorem sampleBytes_sampleOfBytes
    {bytes : List UInt8} (h : bytes.length = Sample.byteSize) :
  sampleBytes (sampleOfBytes bytes) = bytes
  := by
  have htime : (bytes.take wordSize).length = wordSize := by
    rw [List.length_take, h]
    rfl
  have hvalue : (bytes.drop wordSize).length = wordSize := by
    rw [List.length_drop, h]
    rfl
  rw [sampleBytes, sampleOfBytes, UInt64.toUInt64_toInt64, wordBytes_ofWordBytes htime,
    wordBytes_ofWordBytes hvalue, List.take_append_drop]

/-- If there are bytes for `count` samples, these have the bytes that they were read from. -/
theorem flatMap_samplesOfBytes
    {bytes : List UInt8} {count : Nat} (h : bytes.length = count * Sample.byteSize) :
  (samplesOfBytes bytes count).flatMap sampleBytes = bytes
  := by
  induction count generalizing bytes with
  | zero =>
    rw [Nat.zero_mul] at h
    rw [List.eq_nil_of_length_eq_zero h]
    rfl
  | succ count ih =>
    rw [Nat.succ_mul] at h
    have hfirst : (bytes.take Sample.byteSize).length = Sample.byteSize := by
      rw [List.length_take]
      omega
    have hlater : (bytes.drop Sample.byteSize).length = count * Sample.byteSize := by
      rw [List.length_drop]
      omega
    rw [samplesOfBytes, List.flatMap_cons, sampleBytes_sampleOfBytes hfirst, ih hlater,
      List.take_append_drop]

theorem length_samplesOfBytes
    (bytes : List UInt8) (count : Nat) :
  (samplesOfBytes bytes count).length = count
  := by
  induction count generalizing bytes with
  | zero => rfl
  | succ count ih => rw [samplesOfBytes, List.length_cons, ih]

/-- If `samples` are appended to `p` and leave `d`, they are behind those there were, in the same
slots. -/
theorem parts_of_appendAll
    {p d : PlainChunk} {samples : List Sample} (h : p.appendAll samples = .ok d) :
  d.samples = p.samples ++ samples ∧ d.slots = p.slots
  := by
  induction samples generalizing p with
  | nil =>
    cases h
    rw [List.append_nil]
    use rfl
  | cons s samples ih =>
    rw [appendAll, List.foldlM_cons] at h
    rcases p.append_cases s with ⟨hroom, hlast⟩ | ⟨e, happend, _⟩
    · obtain ⟨next, happend, htimeline, hslots⟩ := append_eq_ok hroom hlast
      rw [happend] at h
      obtain ⟨hsamples, hslots'⟩ := ih h
      have hnext : next.samples = p.samples ++ [s] := congrArg Timeline.samples htimeline
      rw [hsamples, hslots', hnext, hslots, List.append_assoc]
      use rfl
    · rw [happend] at h
      cases h

theorem parts_of_assemble
    {base : Timestamp} {slots : Nat} {samples : List Sample} {p : PlainChunk}
    (h : assemble base slots samples = .ok p) :
  p.base = base ∧ p.samples = samples ∧ p.slots = slots
  := by
  rw [assemble] at h
  split at h
  · cases h
  · cases h
  · rename_i d happend
    obtain ⟨hsamples, hslots⟩ := parts_of_appendAll happend
    split at h
    · cases h
      use rfl, hsamples, hslots
    · cases h

/-- The plain chunk `p` may be spelled by `frames` with more bytes than its slots take, but not with
one more slot. -/
def Spelled (p : PlainChunk) (frames : List Frame) : Prop :=
  ∃ capacity : UInt64, capacity.toNat / Sample.byteSize = p.slots
    ∧ frames = [.signed p.base, .count p.length, .unsigned capacity,
      .bytes (p.samples.flatMap sampleBytes)]

theorem spells_load :
  Spells load Spelled
  := by
  apply spells_readSigned.bind
  rintro base _ rfl
  apply spells_readUnsigned.bind
  rintro count _ rfl
  apply spells_readUnsigned.bind
  rintro capacity _ rfl
  apply spells_readBytes.bind
  rintro payload _ rfl
  apply Spells.unless
  intro _
  apply Spells.unless
  intro hpayload
  cases hassemble : assemble base (capacity.toNat / Sample.byteSize)
      (samplesOfBytes payload count.toNat) with
  | error flaw => apply Spells.throw
  | ok p =>
    obtain ⟨rfl, hsamples, hslots⟩ := parts_of_assemble hassemble
    have hlength : p.length = count.toNat := by
      rw [← length_samplesOfBytes payload count.toNat, ← hsamples, length_samples]
    apply Spells.pure
    use capacity, hslots.symm
    rw [hsamples, flatMap_samplesOfBytes (not_not.mp hpayload), hlength, Frame.count,
      UInt64.ofNat_toNat]
    rfl

end PlainChunk

/-! ### Packed chunks -/

namespace PackedChunk

theorem spells_loadWindowSide
    (side : WindowSide) :
  Spells (loadWindowSide side) fun bits frames => frames = [.count bits.toNat]
  := by
  apply spells_readUnsigned.bind
  rintro value _ rfl
  apply Spells.unless
  intro hvalue
  rw [UInt64.lt_iff_toNat_lt] at hvalue
  have hnarrow : UInt64.ofNat value.toUInt8.toNat = value := by
    apply UInt64.toNat.inj
    rw [UInt64.toNat_ofNat', UInt64.toNat_toUInt8]
    have : (64 : UInt64).toNat = 64 := rfl
    omega
  apply Spells.pure
  rw [Frame.count, hnarrow, List.append_nil]

/-- A packed chunk that `PackedChunk.load` gives was read from the frames that it is saved as. -/
theorem spells_load :
  Spells load fun c frames => frames = c.frames
  := by
  apply spells_readSigned.bind
  rintro baseTime _ rfl
  apply spells_readUnsigned.bind
  rintro count _ rfl
  apply spells_readUnsigned.bind
  rintro capacity _ rfl
  apply spells_readBytes.bind
  rintro bytes _ rfl
  apply spells_readUnsigned.bind
  rintro length _ rfl
  apply spells_readDouble.bind
  rintro baseValue _ rfl
  apply spells_readSigned.bind
  rintro timestamp _ rfl
  apply spells_readSigned.bind
  rintro delta _ rfl
  apply spells_readDouble.bind
  rintro value _ rfl
  apply (spells_loadWindowSide _).bind
  rintro leading _ rfl
  apply (spells_loadWindowSide _).bind
  rintro trailing _ rfl
  apply Spells.unless
  intro hsize
  have hsize := not_not.mp hsize
  cases hbuffer : BitBuffer.ofBytes bytes.toArray length.toNat with
  | error e => apply Spells.throw
  | ok buffer =>
    obtain ⟨hbytes, hlength⟩ := BitBuffer.parts_of_ofBytes hbuffer
    dsimp only
    split
    · apply Spells.pure
      rw [frames, PackedChunk.capacity, BitBuffer.capacity, hbytes, hlength, hsize]
      simp only [Frame.count, UInt64.ofNat_toNat]
      rfl
    · apply Spells.throw

end PackedChunk

/-! ### Aggregators and rules -/

namespace AggregationKind

/-- If `kind` is found by the number `n`, it has this number. -/
theorem id_of_ofId?
    {n : UInt64} {kind : AggregationKind} (h : ofId? n = some kind) :
  kind.id = n
  := by
  have hplace : n.toNat < all.length := (List.getElem?_eq_some_iff.mp h).1
  have hids : ∀ place < all.length, ∀ kind ∈ all[place]?, all.idxOf kind = place := by decide
  rw [id, hids n.toNat hplace kind h, UInt64.ofNat_toNat]

end AggregationKind

namespace Aggregator

theorem spells_loadFlag :
  Spells loadFlag fun flag frames => frames = [flagFrame flag]
  := by
  apply spells_readBytes.bind
  rintro content _ rfl
  split
  · apply Spells.pure
    rfl
  · apply Spells.pure
    rfl
  · apply Spells.throw

/-- An aggregator that `Aggregator.load` gives was read from the frames that it is saved as. -/
theorem spells_load :
  Spells load fun a frames => frames = a.frames
  := by
  apply spells_readUnsigned.bind
  rintro id _ rfl
  cases hkind : AggregationKind.ofId? id with
  | none => apply Spells.throw
  | some kind =>
    obtain rfl := AggregationKind.id_of_ofId? hkind
    have hkind := kind_new kind
    -- Only what is remembered is read; which values these are makes no difference to the kind.
    dsimp only
    cases hnew : new kind with
    | single single =>
      apply spells_readDouble.bind
      rintro value _ rfl
      apply spells_loadFlag.bind
      rintro fresh _ rfl
      apply Spells.pure
      rw [← hkind, hnew]
      cases single <;> rfl
    | extreme extreme =>
      apply spells_readDouble.bind
      rintro value _ rfl
      apply spells_loadFlag.bind
      rintro fresh _ rfl
      apply Spells.pure
      rw [← hkind, hnew]
      cases extreme <;> rfl
    | average =>
      apply spells_readDouble.bind
      rintro sum _ rfl
      apply spells_readUnsigned.bind
      rintro count _ rfl
      apply Spells.pure
      rw [← hkind, hnew]
      rfl
    | moments spread =>
      apply spells_readDouble.bind
      rintro sum _ rfl
      apply spells_readDouble.bind
      rintro squares _ rfl
      apply spells_readUnsigned.bind
      rintro count _ rfl
      apply Spells.pure
      rw [← hkind, hnew]
      obtain ⟨ofSample, root⟩ := spread
      cases ofSample <;> cases root <;> rfl
    | range =>
      apply spells_readDouble.bind
      rintro least _ rfl
      apply spells_readDouble.bind
      rintro greatest _ rfl
      apply spells_loadFlag.bind
      rintro fresh _ rfl
      apply Spells.pure
      rw [← hkind, hnew]
      rfl

end Aggregator

namespace Rule

theorem spells_loadBucket :
  Spells loadBucket fun bucket? frames => frames = bucketFrames bucket?
  := by
  apply spells_readUnsigned.bind
  rintro marker _ rfl
  split
  · rename_i hclosed
    rw [hclosed]
    apply Spells.pure
    rfl
  · split
    · rename_i hopen
      rw [hopen]
      apply spells_readSigned.bind
      rintro start _ rfl
      apply Spells.pure
      rfl
    · apply Spells.throw

/-- A rule that `Rule.load` gives was read from the frames that it is saved as. -/
theorem spells_load :
  Spells load fun r frames => frames = r.frames
  := by
  apply spells_readBytes.bind
  rintro name _ rfl
  cases hname : Text.ofUtf8 name with
  | error fault => apply Spells.throw
  | ok destination =>
    obtain rfl := (Text.ofUtf8_eq_ok_iff _ _).mp hname
    apply spells_readUnsigned.bind
    rintro width _ rfl
    apply Aggregator.spells_load.bind
    rintro aggregator _ rfl
    apply spells_loadBucket.bind
    rintro bucket? _ rfl
    split
    · rename_i rule hnew
      obtain ⟨rfl, rfl⟩ := parts_of_new hnew
      apply Spells.pure
      rw [List.append_nil]
      rfl
    · apply Spells.throw

end Rule

/-! ### Objects -/

/-- The frames of an object as they are saved again: the bytes that a plain chunk is given are
rounded down to whole slots. -/
def SavedKind.rounded : SavedKind → List Frame → List Frame
  | .chunk, [tag, base, count, .unsigned capacity, payload] =>
    let bytes := if tag = .unsigned Encoding.plain.tag then 16 * (capacity / 16) else capacity
    [tag, base, count, .unsigned bytes, payload]
  | _, frames => frames

namespace Saved

theorem rounded_of_spelled
    {p : PlainChunk} {frames : List Frame} (h : p.Spelled frames) :
  (chunk (.plain p)).frames
    = SavedKind.chunk.rounded (.unsigned Encoding.plain.tag :: frames)
  := by
  obtain ⟨capacity, hslots, rfl⟩ := h
  have hbytes : UInt64.ofNat p.capacity = 16 * (capacity / 16) := by
    have hlt := capacity.toNat_lt
    have hsixteen : (16 : UInt64).toNat = 16 := rfl
    apply UInt64.toNat.inj
    rw [UInt64.toNat_ofNat', UInt64.toNat_mul, UInt64.toNat_div, hsixteen, PlainChunk.capacity,
      ← hslots, Sample.byteSize, Nat.mul_comm]
  rw [SavedKind.rounded, if_pos rfl, ← hbytes]
  rfl

theorem rounded_packed_frames
    (c : PackedChunk) :
  SavedKind.chunk.rounded (chunk (.packed c)).frames = (chunk (.packed c)).frames
  := rfl

theorem spells_load
    (kind : SavedKind) :
  Spells kind.load fun s frames => s.kind = kind ∧ s.frames = kind.rounded frames
  := by
  cases kind with
  | chunk =>
    have hload : Spells Chunk.load fun c frames => c.frames = SavedKind.chunk.rounded frames := by
      apply spells_readUnsigned.bind
      rintro tag _ rfl
      cases hencoding : Encoding.ofTag? tag with
      | none => apply Spells.throw
      | some encoding =>
        obtain rfl := (Encoding.ofTag?_eq_some_iff _ _).mp hencoding
        cases encoding with
        | plain =>
          apply PlainChunk.spells_load.map
          intro p frames hframes
          apply rounded_of_spelled hframes
        | packed =>
          apply PackedChunk.spells_load.map
          rintro c _ rfl
          apply (rounded_packed_frames c).symm
    apply hload.map
    intro c frames hframes
    use rfl, hframes
  | aggregator =>
    apply Aggregator.spells_load.map
    rintro a _ rfl
    exact ⟨rfl, rfl⟩
  | rule =>
    apply Rule.spells_load.map
    rintro r _ rfl
    exact ⟨rfl, rfl⟩

theorem exists_consumed
    {kind : SavedKind} {frames : List Frame} {s : Saved} {later : Cursor}
    (hfits : ∀ frame ∈ frames, frame.Fits)
    (hload : kind.load ⟨encodeFrames frames⟩ = .ok s later) :
  ∃ consumed left, frames = consumed ++ left ∧ later = ⟨encodeFrames left⟩ ∧ s.kind = kind
    ∧ s.frames = kind.rounded consumed
  := by
  obtain ⟨consumed, hconsumed, hunread, hkind, hframes⟩ := spells_load kind _ _ _ hload
  obtain ⟨left, hleft, hlater⟩ :=
    exists_eq_append_of_encodeFrames_eq hfits hconsumed hunread
  use consumed, left, hleft
  constructor
  · rw [← hlater]
  · use hkind, hframes

theorem rounded_of_load_all
    {kind : SavedKind} {frames : List Frame} {s : Saved} (hfits : ∀ frame ∈ frames, frame.Fits)
    (hload : kind.load ⟨encodeFrames frames⟩ = .ok s ⟨[]⟩) :
  s.frames = kind.rounded frames
  := by
  obtain ⟨consumed, left, rfl, hend, _, hframes⟩ := exists_consumed hfits hload
  cases left with
  | nil => rw [hframes, List.append_nil]
  | cons frame left =>
    have hnil := (List.append_eq_nil_iff.mp (Cursor.mk.inj hend).symm).1
    cases frame.encode_ne_nil hnil

/-- If an object `s` of some `kind` is loaded from `frames`, it is saved as the frames that were
read, but for the rounding of the bytes of a plain chunk; and if it is loaded from `frames'` too,
these differ from `frames` in this rounding at most. -/
theorem frames_of_load :
  (∀ (kind : SavedKind) (frames : List Frame) (s : Saved) (later : Cursor),
      (∀ frame ∈ frames, frame.Fits) → kind.load ⟨encodeFrames frames⟩ = .ok s later →
        ∃ consumed left, frames = consumed ++ left ∧ later = ⟨encodeFrames left⟩
          ∧ s.kind = kind ∧ s.frames = kind.rounded consumed)
    ∧ ∀ (kind : SavedKind) (frames frames' : List Frame) (s : Saved),
      (∀ frame ∈ frames, frame.Fits) → (∀ frame ∈ frames', frame.Fits) →
        kind.load ⟨encodeFrames frames⟩ = .ok s ⟨[]⟩ →
          kind.load ⟨encodeFrames frames'⟩ = .ok s ⟨[]⟩ → kind.rounded frames = kind.rounded frames'
  := by
  constructor
  · intro kind frames s later
    apply exists_consumed
  · intro kind frames frames' s hfits hfits' hload hload'
    rw [← rounded_of_load_all hfits hload, rounded_of_load_all hfits' hload']

/-- A case of `frames_of_load`: a plain chunk that is given two slots and a half, and one that is
given almost three. -/
theorem frames_of_load_loose :
  let frames (capacity : UInt64) : List Frame :=
    [.unsigned 0, .signed 5, .unsigned 1, .unsigned capacity,
      .bytes [5, 0, 0, 0, 0, 0, 0, 0, 1, 0, 0, 0, 0, 0, 0x7f, 0xf0]]
  let columns : Columns := ⟨#[5], #[⟨0xf07f000000000001⟩], rfl, by decide⟩
  let s : Saved := chunk (.plain ⟨columns, 2, 5, by decide, by decide⟩)
  (∃ consumed left, frames 40 ++ [.unsigned 7] = consumed ++ left
      ∧ (⟨encodeFrames [.unsigned 7]⟩ : Cursor) = ⟨encodeFrames left⟩ ∧ s.kind = .chunk
      ∧ s.frames = SavedKind.chunk.rounded consumed)
    ∧ SavedKind.chunk.rounded (frames 40) = SavedKind.chunk.rounded (frames 47)
  := by
  intro frames columns s
  have hfits (capacity : UInt64) : ∀ frame ∈ frames capacity, frame.Fits := by
    intro frame hframe
    simp only [frames, List.mem_cons, List.not_mem_nil, or_false] at hframe
    rcases hframe with rfl | rfl | rfl | rfl | rfl
    · trivial
    · trivial
    · trivial
    · trivial
    · show 16 < wordLimit
      decide
  constructor
  · apply frames_of_load.1 .chunk (frames 40 ++ [Frame.unsigned 7]) s ⟨encodeFrames [.unsigned 7]⟩
    · intro frame hframe
      obtain hframe | hframe := List.mem_append.mp hframe
      · apply hfits 40 frame hframe
      · rw [List.mem_singleton.mp hframe]
        trivial
    · rfl
  · apply frames_of_load.2 .chunk _ _ s (hfits 40) (hfits 47)
    · rfl
    · rfl

end Saved

end TimeSeries
