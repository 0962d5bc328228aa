import TimeSeries.Proofs.Packing.Buffer
import TimeSeries.Proofs.Packing.Stream

/-!
# Round trip of streams

Samples that are encoded one after the other are decoded one after the other, by a
decoder that begins where the first one was written and in the state the encoder began
in.  Both leave a mark after every sample, of the state they are in and the bit they
stand at, and these marks are the same.
-/

namespace TimeSeries

/-- Where an encoder or a decoder got to. -/
structure Mark where
  state : Replay
  position : Nat
deriving DecidableEq

/-- Encodes samples from place `index` on, and marks the state and the end of the buffer
after each. -/
def encodeAll (b : BitBuffer) (s : Replay) (index : Nat) :
    List Sample → Except PackingError (List Mark × BitBuffer)
  | [] => .ok ([], b)
  | x :: samples => do
    let (b, s) ← encode b s index x
    let (marks, last) ← encodeAll b s (index + 1) samples
    return (⟨s, b.length⟩ :: marks, last)

/-- Decodes samples from place `index` on, and marks the state and the position of the
reader after each. -/
def decodeAll (s : Replay) (index : Nat) : (count : Nat) → Reading (List Sample × List Mark)
  | 0 => return ([], [])
  | count + 1 => do
    let (x, s) ← decode s index
    let position := (← get).position
    let (samples, marks) ← decodeAll s (index + 1) count
    return (x :: samples, ⟨s, position⟩ :: marks)

/-- The marks that samples leave which are written from `position` on, the first one at `index`. -/
def Replay.marks (s : Replay) (index position : Nat) : List Sample → List Mark
  | [] => []
  | x :: samples =>
    let next : Mark := ⟨(s.plan index x).2, position + s.cost index x⟩
    next :: next.state.marks (index + 1) next.position samples

/-- If there is room for the field `f` in `b`, it is written as its bits. -/
theorem BitBuffer.write_eq_append
    {b : BitBuffer} {f : Field} (hwidth : f.width ≤ 64) (hroom : f.bits.length ≤ b.free) :
  b.write f.value f.width = .ok (b.append f.bits hroom)
  := by
  have hfits : f.width ≤ b.free := by rwa [Field.bits, length_lowBits] at hroom
  rw [write, if_neg (Nat.not_lt_of_le hwidth), dif_pos hfits]
  rfl

/-- If there is room for the sample `x` in `b`, it is encoded as the bits it takes. -/
theorem encode_eq
    {b : BitBuffer} {s : Replay} {index : Nat} {x : Sample} (hindex : 1 ≤ index)
    (hroom : (fieldBits (s.plan index x).1).length ≤ b.free) :
  encode b s index x = .ok (b.append (fieldBits (s.plan index x).1) hroom, (s.plan index x).2)
  := by
  rw [encode, if_neg (by omega)]
  apply dif_pos hroom

/-- If there is room for all `samples` in `b`, they are encoded as the bits they take, and leave the
marks of these. -/
theorem encodeAll_eq
    {b : BitBuffer} {s : Replay} {index : Nat} {samples : List Sample} (hindex : 1 ≤ index)
    (hroom : (s.bits index samples).length ≤ b.free) :
  encodeAll b s index samples
    = .ok (s.marks index b.length samples, b.append (s.bits index samples) hroom)
  := by
  induction samples generalizing b s index with
  | nil => rfl
  | cons x samples ih =>
    have hsum := hroom
    rw [Replay.bits, List.length_append] at hsum
    have hcost : (fieldBits (s.plan index x).1).length ≤ b.free := by omega
    have hlater : ((s.plan index x).2.bits (index + 1) samples).length
        ≤ (b.append (fieldBits (s.plan index x).1) hcost).free := by
      rw [BitBuffer.free_append]
      omega
    have hrest := ih (by omega) hlater
    rw [BitBuffer.append_append _ _ _ hcost hlater hroom, BitBuffer.length_append] at hrest
    rw [encodeAll, encode_eq hindex hcost]
    simp only [Bind.bind, Except.bind, hrest, BitBuffer.length_append]
    rfl

/-- If what was written begins with `first ++ bits`, then behind `first` a reader of it finds
`bits`. -/
theorem BitBuffer.exists_rest_advance_eq
    {b : BitBuffer} {first bits : List Bool} (h : first ++ bits <+: b.toList) :
  ∃ tail, (b.reader.advance first.length).rest = bits ++ tail
  := by
  obtain ⟨tail, htail⟩ := h
  use tail
  apply BitReader.rest_advance_of_rest
  rw [rest_reader, ← htail, List.append_assoc]

/-- If the rest of `r` begins with the bits of `samples`, these are decoded and leave the marks. -/
theorem decodeAll_eq
    {s : Replay} {index : Nat} {samples : List Sample} {r : BitReader} {tail : List Bool}
    (hindex : 1 ≤ index) (hrest : r.rest = s.bits index samples ++ tail) :
  decodeAll s index samples.length r
    = .ok (samples, s.marks index r.position samples)
      (r.advance (s.bits index samples).length)
  := by
  induction samples generalizing s index r with
  | nil => rfl
  | cons x samples ih =>
    rw [Replay.bits, List.append_assoc] at hrest
    have hfirst := reads_decode s hindex x r _ hrest
    have hlater := ih (by omega) (BitReader.rest_advance_of_rest hrest)
    rw [BitReader.advance_advance] at hlater
    rw [Replay.bits, List.length_append, Replay.marks, List.length_cons]
    have hget (r : BitReader) : (get : Reading BitReader) r = .ok r r := rfl
    simp only [decodeAll, Bind.bind, EStateM.bind, hfirst, hget, hlater]
    rfl

/-- If `samples` are encoded behind the bits of any `b`, from any state `s`, they are decoded again
from the bit where the first one begins, whatever is `written` behind the last one: the same samples
come back, and after each the decoder is in the state of the encoder and stands where the sample's
bits end. -/
theorem decodeAll_encodeAll
    (b : BitBuffer) (s : Replay) {index : Nat} (hindex : 1 ≤ index) (samples : List Sample)
    (hroom : (s.bits index samples).length ≤ b.free) :
  ∃ marks last, encodeAll b s index samples = .ok (marks, last)
    ∧ ∀ written : BitBuffer, last.toList <+: written.toList →
      decodeAll s index samples.length (written.reader.advance b.length)
        = .ok (samples, marks) (written.reader.advance last.length)
  := by
  use s.marks index b.length samples, b.append (s.bits index samples) hroom
  constructor
  · apply encodeAll_eq hindex hroom
  · intro written hwritten
    rw [BitBuffer.toList_append] at hwritten
    obtain ⟨tail, htail⟩ := BitBuffer.exists_rest_advance_eq hwritten
    rw [BitBuffer.length_toList] at htail
    rw [decodeAll_eq hindex htail, BitBuffer.length_append, BitReader.advance_advance]
    congr 3
    simp [BitReader.advance, BitBuffer.reader, BitReader.upTo]

/-- A case of `decodeAll_encodeAll`: timestamps that jump from one end to the other, values that are
no numbers or a zero with a sign, a window that no sample opened, and bits in front. -/
theorem decodeAll_encodeAll_wrapping :
  let b := (BitBuffer.zeros 64).append [true, false, true] (by decide)
  let s : Replay := ⟨Int64.maxValue, -5, ⟨0x7FF8000000000001⟩, ⟨7, 200⟩⟩
  let samples : List Sample := [⟨Int64.minValue, ⟨0xFFF0000000000001⟩⟩,
    ⟨Int64.maxValue, ⟨0x8000000000000000⟩⟩, ⟨0, ⟨0⟩⟩, ⟨0, ⟨0x7FF8000000000001⟩⟩]
  1 ≤ 2 ∧ (s.bits 2 samples).length ≤ b.free
    ∧ ∃ marks last, encodeAll b s 2 samples = .ok (marks, last)
      ∧ ∀ written : BitBuffer, last.toList <+: written.toList →
        decodeAll s 2 samples.length (written.reader.advance b.length)
          = .ok (samples, marks) (written.reader.advance last.length)
  := by
  intro b s samples
  have hroom : (s.bits 2 samples).length ≤ b.free := by decide +kernel
  constructor
  · decide
  · use hroom
    apply decodeAll_encodeAll b s (by decide) samples hroom

end TimeSeries
