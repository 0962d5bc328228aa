import TimeSeries.Packing.Buffer
import TimeSeries.Packing.Replay

/-!
# Encoding

A sample is written as a difference of timestamps followed by a difference of
values.

The second sample of a stream has its difference of timestamps in full.  Later
ones have the change of that difference, in the first class that holds it:

    0        no change
    10       7 bits
    110      9 bits
    1110     12 bits
    11110    32 bits
    11111    64 bits

The value is compared with the last one by exclusive or:

    0        no difference
    10       the bits in the window of the last difference, if it fits
    11       a new window: 5 bits of leading zeros, 6 bits of width less one,
             then the bits in the window

All fields of a sample are known before the first is written, so that a sample is
written whole or not at all.  Differences of timestamps wrap around, which lets
any timestamp follow any other.
-/

namespace TimeSeries

/-- The low `width` bits of a number, to be written in this order. -/
structure Field where
  value : UInt64
  width : Nat
deriving DecidableEq

/-- The bits of the field `f`, most significant first. -/
def Field.bits (f : Field) : List Bool := lowBits f.value f.width

/-- The bits of `fields`, those of each field behind those of the fields before it. -/
def fieldBits (fields : List Field) : List Bool := fields.flatMap Field.bits

/-- Does a number fit in `width` bits with a sign? -/
def fitsSigned (width : Nat) (d : Int64) : Bool :=
  -(2 ^ (width - 1) : Int) ≤ d.toInt && d.toInt < 2 ^ (width - 1)

/-- The number of zeros of `x` before its first one, which is 64 if `x` is zero. -/
def leadingZeros (x : UInt64) : Nat :=
  ((List.range 64).find? fun i => x.toNat.testBit (63 - i)).getD 64

/-- The number of zeros of `x` after its last one, which is 64 if `x` is zero. -/
def trailingZeros (x : UInt64) : Nat :=
  ((List.range 64).find? fun i => x.toNat.testBit i).getD 64

/-- The greatest number of leading zeros that a window can leave out, as they are counted in five
bits. -/
def maxLeading : Nat := 31

/-- The most bits that a sample takes: five and 64 for its time, and two, five, six and 64 for its
value. -/
def maxSampleBits : Nat := 5 + 64 + 2 + 5 + 6 + 64

/-- The fields of a `change` of the difference of timestamps: a mark of its size, and the change in
as many bits. -/
def deltaFields (change : Int64) : List Field :=
  if change = 0 then [⟨0b0, 1⟩]
  else if fitsSigned 7 change then [⟨0b10, 2⟩, ⟨change.toUInt64, 7⟩]
  else if fitsSigned 9 change then [⟨0b110, 3⟩, ⟨change.toUInt64, 9⟩]
  else if fitsSigned 12 change then [⟨0b1110, 4⟩, ⟨change.toUInt64, 12⟩]
  else if fitsSigned 32 change then [⟨0b11110, 5⟩, ⟨change.toUInt64, 32⟩]
  else [⟨0b11111, 5⟩, ⟨change.toUInt64, 64⟩]

/-- The fields of a `difference` of values, and the window afterwards, which is `w` if the
difference fits in it. -/
def Window.fields (w : Window) (difference : UInt64) : List Field × Window :=
  if difference = 0 then ([⟨0b0, 1⟩], w)
  else
    let leading := min (leadingZeros difference) maxLeading
    let trailing := trailingZeros difference
    if w.leading.toNat ≤ leading ∧ w.trailing.toNat ≤ trailing then
      ([⟨0b10, 2⟩, ⟨difference >>> w.trailing.toUInt64, w.width⟩], w)
    else
      let next : Window := ⟨UInt8.ofNat leading, UInt8.ofNat trailing⟩
      ([⟨0b11, 2⟩, ⟨UInt64.ofNat leading, 5⟩, ⟨UInt64.ofNat (next.width - 1), 6⟩,
        ⟨difference >>> next.trailing.toUInt64, next.width⟩], next)

namespace Replay

/-- The fields of the timestamp of the sample at place `index` of a stream. -/
def timestampFields (s : Replay) (index : Nat) (t : Timestamp) : List Field :=
  let delta := t - s.timestamp
  if index = 1 then [⟨delta.toUInt64, 64⟩] else deltaFields (delta - s.delta)

/-- The fields of the sample at place `index` of a stream, and the state after it. -/
def plan (s : Replay) (index : Nat) (x : Sample) : List Field × Replay :=
  let (valueFields, window) := s.window.fields (s.value.bits ^^^ x.value.bits)
  (s.timestampFields index x.timestamp ++ valueFields,
    { timestamp := x.timestamp, delta := x.timestamp - s.timestamp, value := x.value, window })

end Replay

/-- The number of bits that the sample at place `index` of a stream takes. -/
def Replay.cost (s : Replay) (index : Nat) (x : Sample) : Nat :=
  (fieldBits (s.plan index x).1).length

/-- Writes the sample at place `index` of a stream, if there is room for all of it.
The sample at place `0` is never written. -/
def encode (b : BitBuffer) (s : Replay) (index : Nat) (x : Sample) :
    Except PackingError (BitBuffer × Replay) :=
  if index = 0 then .error (.invalid .firstSample)
  else
    let (fields, next) := s.plan index x
    let bits := fieldBits fields
    if h : bits.length ≤ b.free then .ok (b.append bits h, next)
    else .error (.bufferFull bits.length b.free)

/-- A sample `x` is refused for want of room when it takes more bits than `b` has free, and the
numbers `needed` and `available` are these. -/
theorem encode_eq_bufferFull
    {b : BitBuffer} {s : Replay} {index : Nat} {x : Sample} {needed available : Nat}
    (h : encode b s index x = .error (.bufferFull needed available)) :
  needed = s.cost index x ∧ available = b.free ∧ b.free < s.cost index x
  := by
  unfold encode at h
  split at h
  · simp at h
  · dsimp only at h
    split at h
    · simp at h
    · rename_i hfull
      simp only [Except.error.injEq, PackingError.bufferFull.injEq] at h
      exact ⟨h.1.symm, h.2.symm, Nat.lt_of_not_le hfull⟩

end TimeSeries
