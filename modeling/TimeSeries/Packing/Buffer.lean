import TimeSeries.Breach
import TimeSeries.Packing.Bits
import TimeSeries.Packing.Error

/-!
# Bit buffers

A bit buffer has a fixed number of bytes, of which the first `length` bits are
written.  What it stands for is the list of these bits, `toList`.  Writing
appends to the list or fails and changes nothing; growing and trimming change
only how much room there is.
-/

namespace TimeSeries

/-- A memory: `grants` tells of which sizes, in bytes, a buffer can be had. -/
structure Memory where
  grants : Nat → Bool

/-- A memory that refuses nothing. -/
def Memory.ample : Memory := ⟨fun _ => true⟩

/-- The number of bytes or bits that a machine word cannot count any more.  A size from `wordLimit`
on is never granted. -/
def wordLimit : Nat := 2 ^ 64

/-- A buffer of bytes whose first `length` bits are written. -/
structure BitBuffer where
  bytes : Array UInt8
  length : Nat
  length_le : length ≤ 8 * bytes.size
deriving DecidableEq

namespace BitBuffer

/-- The number of bytes of `b`, whether they hold written bits or not. -/
def capacity (b : BitBuffer) : Nat := b.bytes.size

/-- The number of bytes of `b` that hold a written bit, the last one perhaps only in part. -/
def usedBytes (b : BitBuffer) : Nat := (b.length + 7) / 8

/-- The number of bits that can still be written to `b`. -/
def free (b : BitBuffer) : Nat := 8 * b.bytes.size - b.length

/-- The written bits of `b`, the oldest one first. -/
def toList (b : BitBuffer) : List Bool :=
  (List.range b.length).map (bitAt b.bytes)

/-- The buffer of the given number of zero `bytes`, with nothing written.  A machine has no buffer
of half of `wordLimit` or more bytes, and stops where one is asked for; `bytes` is not limited
here. -/
def zeros (bytes : Nat) : BitBuffer where
  bytes := Array.replicate bytes 0
  length := 0
  length_le := Nat.zero_le _

/-- The buffer with the given bytes, of which `length` bits count as written. -/
def ofBytes (bytes : Array UInt8) (length : Nat) : Except PackingError BitBuffer :=
  if wordLimit ≤ 8 * bytes.size then .error (.corrupted .bitCountOverflow)
  else if h : length ≤ 8 * bytes.size then .ok ⟨bytes, length, h⟩
  else .error (.corrupted (.cursorBeyondEnd length (8 * bytes.size)))

/-- Writes `bit` behind the written bits of `b`, which has room for it. -/
def put (b : BitBuffer) (bit : Bool) (h : 1 ≤ b.free) : BitBuffer :=
  match b, h with
  | ⟨bytes, length, _⟩, h =>
    ⟨setBit bytes length bit, length + 1, by simp only [free, size_setBit] at *; omega⟩

theorem free_put
    (b : BitBuffer) (bit : Bool) (h : 1 ≤ b.free) :
  (b.put bit h).free = b.free - 1
  := by
  simp only [put, free, size_setBit]
  omega

/-- Writes a list of bits behind the written bits of `b`, which has room for all of them. -/
def append (b : BitBuffer) : (bits : List Bool) → bits.length ≤ b.free → BitBuffer
  | [], _ => b
  | bit :: bits, h =>
    (b.put bit (by simp only [List.length_cons] at h; omega)).append bits
      (by rw [free_put]; simp only [List.length_cons] at h; omega)

/-- Writes `bit` to `b`, or says that there is no room for it. -/
def writeBit (b : BitBuffer) (bit : Bool) : Except PackingError BitBuffer :=
  if h : 1 ≤ b.free then .ok (b.put bit h) else .error (.bufferFull 1 b.free)

/-- Writes the low `width` bits of `value` to `b`, all of them or none. -/
def write (b : BitBuffer) (value : UInt64) (width : Nat) : Except PackingError BitBuffer :=
  if 64 < width then .error (.invalid (.wideWrite width))
  else if h : width ≤ b.free then
    .ok (b.append (lowBits value width) (by rw [length_lowBits]; exact h))
  else .error (.bufferFull width b.free)

/-- Adds the number `additional` of zero bytes at the end of `b`. -/
def extend (b : BitBuffer) (additional : Nat) : BitBuffer where
  bytes := b.bytes ++ Array.replicate additional 0
  length := b.length
  length_le := by have := b.length_le; simp only [Array.size_append]; omega

/-- Adds the number `additional` of zero bytes at the end of `b`, if a word counts the bits of the
buffer and `memory` grants it. -/
def grow (memory : Memory) (b : BitBuffer) (additional : Nat) : Except PackingError BitBuffer :=
  let size := b.capacity + additional
  if wordLimit ≤ size then .error (.outOfMemory (.byteCountOverflow b.capacity additional))
  else if wordLimit ≤ 8 * size then .error (.outOfMemory (.bitCountOverflow size))
  else if additional = 0 ∨ memory.grants size then .ok (b.extend additional)
  else .error (.outOfMemory (.refused additional))

/-- The empty buffer of the given number of `bytes`, if a word counts its bits and `memory` grants
it. -/
def allocate (memory : Memory) (bytes : Nat) : Except PackingError BitBuffer :=
  grow memory (zeros 0) bytes

/-- Cuts or extends `b` to the given number of `bytes`, in which the written bits have their
place. -/
def resize (b : BitBuffer) (bytes : Nat) (h : b.usedBytes ≤ bytes) : BitBuffer where
  bytes := b.bytes.extract 0 bytes ++ Array.replicate (bytes - b.capacity) 0
  length := b.length
  length_le := by
    have := b.length_le
    simp only [usedBytes] at h
    simp only [Array.size_append, Array.size_extract, Array.size_replicate, capacity]
    omega

/-- Cuts or extends `b` to the given number of `bytes`, unless the written bits take more.  A
machine stops where this is half of `wordLimit` or more; `bytes` is not limited here. -/
def trimTo (b : BitBuffer) (bytes : Nat) : Except Breach BitBuffer :=
  if h : b.usedBytes ≤ bytes then .ok (b.resize bytes h)
  else .error (.trimBelowUse bytes b.length)

/-- Cuts `b` to the bytes that hold a written bit. -/
def tighten (b : BitBuffer) : BitBuffer := b.resize b.usedBytes (Nat.le_refl _)

/-- If `b` has grown by the number `additional` of bytes, it has their bits to write beside those
that were free. -/
theorem free_of_grow
    {memory : Memory} {b grown : BitBuffer} {additional : Nat}
    (h : b.grow memory additional = .ok grown) :
  grown.free = b.free + 8 * additional
  := by
  have hle := b.length_le
  unfold grow at h
  dsimp only at h
  split at h
  · simp at h
  · split at h
    · simp at h
    · split at h
      · simp only [Except.ok.injEq] at h
        rw [← h]
        simp only [free, extend, Array.size_append, Array.size_replicate]
        omega
      · simp at h

@[simp] theorem length_toList
    (b : BitBuffer) :
  b.toList.length = b.length
  := by
  simp [toList]

@[simp] theorem toList_zeros
    (bytes : Nat) :
  (zeros bytes).toList = []
  := rfl

/-- If `bit` is written to `b`, it stands behind the bits that were written before. -/
theorem toList_put
    (b : BitBuffer) (bit : Bool) (h : 1 ≤ b.free) :
  (b.put bit h).toList = b.toList ++ [bit]
  := by
  have hroom : b.length < 8 * b.bytes.size := by simp only [free] at h; omega
  simp only [toList, put, List.range_succ, List.map_append, List.map_cons, List.map_nil]
  congr 1
  · apply List.map_congr_left
    intro i hi
    rw [bitAt_setBit hroom, if_neg (by have := List.mem_range.mp hi; omega)]
  · rw [bitAt_setBit hroom, if_pos rfl]

/-- If `bits` are written to `b`, they stand behind the bits that were written before, in their
order. -/
theorem toList_append
    (b : BitBuffer) (bits : List Bool) (h : bits.length ≤ b.free) :
  (b.append bits h).toList = b.toList ++ bits
  := by
  induction bits generalizing b with
  | nil => simp [append]
  | cons bit bits ih => rw [append, ih, toList_put, List.append_assoc, List.singleton_append]

/-- The number of bytes of `b` is the same after `bits` are written to it. -/
@[simp] theorem capacity_append
    (b : BitBuffer) (bits : List Bool) (h : bits.length ≤ b.free) :
  (b.append bits h).capacity = b.capacity
  := by
  induction bits generalizing b with
  | nil => rfl
  | cons bit bits ih => rw [append, ih]; simp [capacity, put]

/-- What was written to `b` is still there if it is extended by the number `additional` of bytes. -/
theorem toList_extend
    (b : BitBuffer) (additional : Nat) :
  (b.extend additional).toList = b.toList
  := by
  have := b.length_le
  simp only [toList, extend]
  apply List.map_congr_left
  intro i hi
  have := List.mem_range.mp hi
  unfold bitAt
  rw [Array.getElem?_append_left (by omega)]

/-- What was written to `b` is still there if it is cut or extended to the number `bytes` of
bytes. -/
theorem toList_resize
    (b : BitBuffer) (bytes : Nat) (h : b.usedBytes ≤ bytes) :
  (b.resize bytes h).toList = b.toList
  := by
  have := b.length_le
  simp only [usedBytes] at h
  simp only [toList, resize]
  apply List.map_congr_left
  intro i hi
  have := List.mem_range.mp hi
  unfold bitAt
  rw [Array.getElem?_append_left (by rw [Array.size_extract]; omega), Array.getElem?_extract,
    if_pos (by omega), Nat.zero_add]

end BitBuffer

end TimeSeries
