import TimeSeries.Proofs.Chunk.Reachable
import TimeSeries.Proofs.Snapshot.Loads

/-!
# Saved chunks

A chunk that holds a timeline, and that is no larger than a machine can count, is what its
frames load to.  A plain chunk passes every check because its samples are in order and have
their slots, a packed one because its stream replays to the state it is in.
-/

namespace TimeSeries

/-! ### Plain chunks -/

namespace PlainChunk

@[simp] theorem length_sampleBytes
    (s : Sample) :
  (sampleBytes s).length = Sample.byteSize
  := by
  simp [sampleBytes, wordSize, Sample.byteSize]

theorem sampleOfBytes_sampleBytes
    (s : Sample) :
  sampleOfBytes (sampleBytes s) = s
  := by
  have htake : (sampleBytes s).take wordSize = wordBytes s.timestamp.toUInt64 := by
    apply List.take_left'
    apply length_wordBytes
  have hdrop : (sampleBytes s).drop wordSize = wordBytes s.value.bits := by
    apply List.drop_left'
    apply length_wordBytes
  rw [sampleOfBytes, htake, hdrop, ofWordBytes_wordBytes, ofWordBytes_wordBytes,
    Int64.toInt64_toUInt64]

theorem samplesOfBytes_flatMap
    (samples : List Sample) :
  samplesOfBytes (samples.flatMap sampleBytes) samples.length = samples
  := by
  induction samples with
  | nil => rfl
  | cons s samples ih =>
    have hlength := length_sampleBytes s
    rw [List.flatMap_cons, List.length_cons, samplesOfBytes, List.take_left' hlength,
      List.drop_left' hlength, sampleOfBytes_sampleBytes, ih]

theorem length_flatMap_sampleBytes
    (samples : List Sample) :
  (samples.flatMap sampleBytes).length = samples.length * Sample.byteSize
  := by
  induction samples with
  | nil => rfl
  | cons s samples ih =>
    rw [List.flatMap_cons, List.length_append, length_sampleBytes, ih, List.length_cons,
      Nat.succ_mul, Nat.add_comm]

/-- Put together from its base, its slots and its samples, `p` is `p` again. -/
theorem assemble_eq_ok
    (p : PlainChunk) :
  assemble p.base p.slots p.samples = .ok p
  := by
  have hroom : (withSlots p.slots).length + p.samples.length ≤ (withSlots p.slots).slots := by
    have hempty : (withSlots p.slots).length = 0 := rfl
    rw [hempty, Nat.zero_add, length_samples]
    apply p.length_le
  obtain ⟨d, happend, hsamples, hslots⟩ := appendAll_eq_ok hroom p.timeline.increasing
  have htimeline : d.timeline = p.timeline := Timeline.eq_of_samples_eq hsamples
  have hbase : ∀ first ∈ d.columns.first?, p.base = first := by
    rw [Columns.eq_of_samples_eq (congrArg Timeline.samples htimeline)]
    apply p.base_eq
  have hd : { d with base := p.base, base_eq := hbase } = p := by
    apply eq_of_timeline_eq
    · exact htimeline
    · exact hslots
    · intro
      rfl
  rw [assemble, happend]
  dsimp only
  rw [dif_pos hbase, hd]
  rfl

/-- If a word counts its bytes, `p` is what its frames load to. -/
theorem loads
    (p : PlainChunk) (hcapacity : p.capacity < wordLimit) :
  Loads load p.frames p
  := by
  have hslots := Nat.mul_le_mul_right Sample.byteSize p.length_le
  have hpayload : (p.samples.flatMap sampleBytes).length = p.length * Sample.byteSize := by
    rw [length_flatMap_sampleBytes, length_samples]
  have hlength : (UInt64.ofNat p.length).toNat = p.length := by
    apply toNat_ofNat
    rw [capacity, Sample.byteSize] at hcapacity
    rw [Sample.byteSize] at hslots
    rw [length]
    omega
  have hcount : (UInt64.ofNat p.capacity).toNat / Sample.byteSize = p.slots := by
    rw [toNat_ofNat hcapacity, capacity, Nat.mul_div_cancel _ (by decide)]
  refine (loads_readSigned _).next ?_
  refine (loads_readUnsigned _).next ?_
  refine (loads_readUnsigned _).next ?_
  refine (loads_readBytes ?_).next ?_
  · rw [hpayload]
    apply Nat.lt_of_le_of_lt hslots hcapacity
  dsimp only
  rw [hlength, hcount]
  refine Loads.unless ?_ (Loads.unless ?_ ?_)
  · apply Nat.not_lt.mpr p.length_le
  · apply not_not.mpr hpayload
  · have hsamples : samplesOfBytes (p.samples.flatMap sampleBytes) p.length = p.samples := by
      rw [← length_samples, samplesOfBytes_flatMap]
    rw [hsamples, assemble_eq_ok]
    apply Loads.pure

end PlainChunk

/-! ### Packed chunks -/

namespace PackedChunk

/-- If `bits` is at most 64, this side of a window is read back. -/
theorem loads_loadWindowSide
    (side : WindowSide) {bits : UInt8} (h : bits.toNat ≤ 64) :
  Loads (loadWindowSide side) [.count bits.toNat] bits
  := by
  have hbits : (UInt64.ofNat bits.toNat).toNat = bits.toNat := by
    apply toNat_ofNat
    rw [wordLimit]
    omega
  refine (loads_readUnsigned _).next (Loads.unless ?_ ?_)
  · rw [UInt64.lt_iff_toNat_lt, hbits]
    apply Nat.not_lt.mpr h
  · have hnarrow : (UInt64.ofNat bits.toNat).toUInt8 = bits := by
      apply UInt8.toNat.inj
      rw [UInt64.toNat_toUInt8, hbits]
      omega
    rw [hnarrow]
    apply Loads.pure

/-- If a word counts the bits of `c`, it counts its samples. -/
theorem Holds.count_lt
    {c : PackedChunk} {samples : List Sample} (h : c.Holds samples)
    (hbits : 8 * c.capacity < wordLimit) :
  c.count < wordLimit
  := by
  cases h with
  | nothing hcount =>
    rw [hcount]
    decide
  | stream hcount hreplays =>
    have htwo := hreplays.two_mul_length_le
    have hlength := c.buffer.length_le
    rw [BitBuffer.length_toList] at htwo
    rw [capacity, BitBuffer.capacity] at hbits
    rw [wordLimit] at hbits ⊢
    omega

/-- If `c` represents a timeline and a word counts its bits, it is what its frames load to. -/
theorem Sound.loads
    {c : PackedChunk} {l : Timeline} (h : c.Sound l) (hbits : 8 * c.capacity < wordLimit) :
  Loads load c.frames c
  := by
  have hcount := toNat_ofNat (h.holds.count_lt hbits)
  have hcapacity : c.capacity < wordLimit := by omega
  have hlength : c.buffer.length < wordLimit := by
    have hle := c.buffer.length_le
    rw [capacity, BitBuffer.capacity] at hbits
    omega
  have hsize : ¬wordLimit ≤ 8 * c.buffer.bytes.size := Nat.not_le.mpr hbits
  have hbuffer : BitBuffer.ofBytes c.buffer.bytes c.buffer.length = .ok c.buffer := by
    rw [BitBuffer.ofBytes, if_neg hsize, dif_pos c.buffer.length_le]
  have hcheck : c.check = .ok () := c.check_eq_ok_iff.mpr ⟨l, h.holds⟩
  refine (loads_readSigned _).next ?_
  refine (loads_readUnsigned _).next ?_
  refine (loads_readUnsigned _).next ?_
  refine (loads_readBytes ?_).next ?_
  · apply hcapacity
  refine (loads_readUnsigned _).next ?_
  refine (loads_readDouble _).next ?_
  refine (loads_readSigned _).next ?_
  refine (loads_readSigned _).next ?_
  refine (loads_readDouble _).next ?_
  refine (loads_loadWindowSide _ h.leading_le).next ?_
  refine (loads_loadWindowSide _ h.trailing_le).next ?_
  dsimp only
  rw [hcount, toNat_ofNat hcapacity, toNat_ofNat hlength, Array.toArray_toList]
  refine Loads.unless (not_not.mpr rfl) ?_
  rw [hbuffer]
  dsimp only
  rw [hcheck]
  apply Loads.pure

end PackedChunk

/-! ### Chunks of either encoding -/

namespace Chunk

/-- A machine can hold the chunk: a word counts the bytes of its slots, or the bits of its buffer,
as it has to wherever a buffer grows or is loaded. -/
def Fits : Chunk → Prop
  | plain p => p.capacity < wordLimit
  | packed p => 8 * p.capacity < wordLimit

/-- If `c` holds a timeline and a machine can hold `c`, it is what its frames load to. -/
theorem Holds.loads
    {c : Chunk} {l : Timeline} (h : c.Holds l) (hfits : c.Fits) :
  Loads load c.frames c
  := by
  refine (loads_readUnsigned _).next ?_
  rw [(Encoding.ofTag?_eq_some_iff _ c.encoding).mpr rfl]
  cases c with
  | plain p => apply (p.loads hfits).map
  | packed p => apply (PackedChunk.Sound.loads h hfits).map

end Chunk

end TimeSeries
