import TimeSeries.Packing.Buffer

/-!
# Bit readers

A bit reader goes through the first `limit` bits of a byte string.  A `Reading` is
a computation that moves a reader.  It ends in a result or a fault, and in both
cases the reader stays where it got to; a single read that fails does not move it.
-/

namespace TimeSeries

/-- A place in the first `limit` bits of a byte string. -/
structure BitReader where
  bytes : Array UInt8
  limit : Nat
  position : Nat
  limit_le : limit ≤ 8 * bytes.size

/-- A computation that moves a bit reader.  It keeps the place that it reached, also when it
fails. -/
abbrev Reading := EStateM PackingError BitReader

namespace BitReader

/-- A reader at the start of the first `limit` bits, or of all bits if there are
fewer. -/
def upTo (bytes : Array UInt8) (limit : Nat) : BitReader where
  bytes := bytes
  limit := min limit (8 * bytes.size)
  position := 0
  limit_le := Nat.min_le_right _ _

/-- The reader at the start of `bytes`, all bits of which may be read. -/
def ofBytes (bytes : Array UInt8) : BitReader := upTo bytes (8 * bytes.size)

/-- Is nothing left to be read by `r`? -/
def atEnd (r : BitReader) : Bool := r.limit ≤ r.position

/-- The number of bits left to be read by `r`. -/
def left (r : BitReader) : Nat := r.limit - r.position

/-- The bits left to be read by `r`, in their order. -/
def rest (r : BitReader) : List Bool :=
  (List.range r.left).map fun i => bitAt r.bytes (r.position + i)

/-- The next `width` bits, whether they are left or not. -/
def ahead (r : BitReader) (width : Nat) : List Bool :=
  (List.range width).map fun i => bitAt r.bytes (r.position + i)

/-- The reader `width` bits further on. -/
def advance (r : BitReader) (width : Nat) : BitReader :=
  { r with position := r.position + width }

/-- Reads one bit, or fails and stays where it is if there is none left. -/
def readBit : Reading Bool := fun r =>
  if r.atEnd then .error (.corrupted .noBitLeft) r
  else .ok (bitAt r.bytes r.position) (r.advance 1)

/-- Reads a number of `width` bits. -/
def readBits (width : Nat) : Reading UInt64 := fun r =>
  if 64 < width then .error (.invalid (.wideRead width)) r
  else if r.left < width then .error (.corrupted (.tooFewBits width r.left)) r
  else .ok (UInt64.ofNat (numberOf (r.ahead width))) (r.advance width)

/-- The next `width` bits of `r`, if so many are left, are the first ones of `r.rest`. -/
theorem ahead_eq_take
    (r : BitReader) {width : Nat} (h : width ≤ r.left) :
  r.ahead width = r.rest.take width
  := by
  simp [ahead, rest, ← List.map_take, List.take_range, Nat.min_eq_left h]

/-- What is left of `r` after it has moved on by `width` bits is `r.rest` without the first `width`
of them. -/
theorem rest_advance
    (r : BitReader) (width : Nat) :
  (r.advance width).rest = r.rest.drop width
  := by
  apply List.ext_getElem
  · simp only [rest, left, advance, List.length_map, List.length_range, List.length_drop]
    omega
  · intro i h₁ h₂
    simp [rest, advance, Nat.add_assoc]

end BitReader

/-- The reader at the start of `b`, of which the written bits may be read. -/
def BitBuffer.reader (b : BitBuffer) : BitReader := BitReader.upTo b.bytes b.length

namespace BitBuffer

/-- A reader of `b` at its start is to read all that was written to `b`. -/
theorem rest_reader
    (b : BitBuffer) :
  b.reader.rest = b.toList
  := by
  simp [reader, BitReader.upTo, BitReader.rest, BitReader.left, toList, Nat.min_eq_left b.length_le]

end BitBuffer

end TimeSeries
