import Mathlib.Tactic.Common
import TimeSeries.Packing.Buffer

/-!
# What is behind the written bits

A buffer is clean when every bit behind the written ones is zero.  Nothing that is done
to a buffer soils it, and a clean buffer is determined by its bits and its size.
-/

namespace TimeSeries

/-! ### Bits of numbers and of byte strings -/

theorem getElem?_lowBits
    (value : UInt64) (width k : Nat) :
  (lowBits value width)[k]?
    = if k < width then some (value.toNat.testBit (width - 1 - k)) else none
  := by
  induction width generalizing k with
  | zero => rfl
  | succ width ih =>
    cases k with
    | zero => rfl
    | succ k =>
      have hplace : width + 1 - 1 - (k + 1) = width - 1 - k := by omega
      rw [lowBits, List.getElem?_cons_succ, ih, hplace]
      simp only [Nat.add_lt_add_iff_right]

/-- The bits of `x ++ y` are those of `x`, then those of `y`. -/
theorem bitAt_append
    (x y : Array UInt8) (i : Nat) :
  bitAt (x ++ y) i = if i < 8 * x.size then bitAt x i else bitAt y (i - 8 * x.size)
  := by
  unfold bitAt
  rw [Array.getElem?_append]
  by_cases hi : i < 8 * x.size
  · rw [if_pos hi, if_pos (by omega)]
  · have hbyte : i / 8 - x.size = (i - 8 * x.size) / 8 := by omega
    have hplace : i % 8 = (i - 8 * x.size) % 8 := by omega
    rw [if_neg hi, if_neg (by omega), hbyte, hplace]

theorem bitAt_eq_false
    {bytes : Array UInt8} {i : Nat} (h : 8 * bytes.size ≤ i) :
  bitAt bytes i = false
  := by
  rw [bitAt, Array.getElem?_eq_none (by omega)]
  apply Nat.zero_testBit

/-- Zero bytes behind `bytes` do not show in the bits. -/
theorem bitAt_append_zeros
    (bytes : Array UInt8) (n i : Nat) :
  bitAt (bytes ++ Array.replicate n 0) i = bitAt bytes i
  := by
  rw [bitAt]
  congr 2
  rw [Array.getElem?_append]
  split
  · rfl
  · rename_i hbeyond
    rw [Array.getElem?_eq_none (Nat.le_of_not_lt hbeyond), Array.getElem?_replicate]
    split <;> rfl

/-- Of `bytes` cut to `n` of them, the bits in front remain. -/
theorem bitAt_extract
    (bytes : Array UInt8) (n i : Nat) :
  bitAt (bytes.extract 0 n) i = if i < 8 * n then bitAt bytes i else false
  := by
  unfold bitAt
  rw [Array.getElem?_extract]
  by_cases hin : i < 8 * n
  · rw [if_pos hin, Nat.zero_add]
    split
    · rfl
    · rename_i hbeyond
      rw [Array.getElem?_eq_none (by omega)]
  · rw [if_neg hin, if_neg (by omega)]
    apply Nat.zero_testBit

theorem bitAt_zeros
    (n i : Nat) :
  bitAt (Array.replicate n 0) i = false
  := by
  have hbits := bitAt_append_zeros #[] n i
  rw [Array.empty_append] at hbits
  rw [hbits]
  apply Nat.zero_testBit

/-- If `x` and `y` have the same size and the same bits, they are equal. -/
theorem eq_of_bitAt_eq
    {x y : Array UInt8} (hsize : x.size = y.size) (h : ∀ i, bitAt x i = bitAt y i) :
  x = y
  := by
  apply Array.ext hsize
  intro k hx hy
  apply UInt8.toNat.inj
  apply Nat.eq_of_testBit_eq
  intro j
  by_cases hj : j < 8
  · have hbit := h (8 * k + (7 - j))
    unfold bitAt at hbit
    rw [show (8 * k + (7 - j)) / 8 = k by omega, show 7 - (8 * k + (7 - j)) % 8 = j by omega] at hbit
    simpa [hx, hy] using hbit
  · have hpow : 2 ^ 8 ≤ 2 ^ j := Nat.pow_le_pow_right (by decide) (by omega)
    rw [Nat.testBit_lt_two_pow (Nat.lt_of_lt_of_le x[k].toNat_lt hpow),
      Nat.testBit_lt_two_pow (Nat.lt_of_lt_of_le y[k].toNat_lt hpow)]

/-! ### Memory -/

/-- Buffers of every size up to `bytes` can be had from `memory`, and a word counts their bits. -/
structure Memory.Reaches (memory : Memory) (bytes : Nat) : Prop where
  bits_lt : 8 * bytes < wordLimit
  grants : ∀ size ≤ bytes, memory.grants size = true

theorem Memory.Reaches.mono
    {memory : Memory} {bytes bytes' : Nat} (h : memory.Reaches bytes) (hle : bytes' ≤ bytes) :
  memory.Reaches bytes'
  := by
  constructor
  · have := h.bits_lt
    omega
  · intro size hsize
    apply h.grants size (by omega)

/-- If a word counts the bits, `Memory.ample` reaches as far as `bytes`. -/
theorem Memory.ample_reaches
    {bytes : Nat} (h : 8 * bytes < wordLimit) :
  Memory.ample.Reaches bytes
  := ⟨h, fun _ _ => rfl⟩

namespace BitBuffer

/-! ### Sizes -/

@[simp] theorem length_append
    (b : BitBuffer) (bits : List Bool) (h : bits.length ≤ b.free) :
  (b.append bits h).length = b.length + bits.length
  := by
  rw [← length_toList, toList_append, List.length_append, length_toList]

theorem free_append
    (b : BitBuffer) (bits : List Bool) (h : bits.length ≤ b.free) :
  (b.append bits h).free = b.free - bits.length
  := by
  have hcapacity := b.capacity_append bits h
  have hlength := b.length_append bits h
  simp only [free, capacity] at *
  omega

/-- Writing `first` and then `second` is writing `first ++ second`. -/
theorem append_append
    (b : BitBuffer) (first second : List Bool) (h : first.length ≤ b.free)
    (h' : second.length ≤ (b.append first h).free)
    (hroom : (first ++ second).length ≤ b.free) :
  (b.append first h).append second h' = b.append (first ++ second) hroom
  := by
  induction first generalizing b with
  | nil => rfl
  | cons bit first ih => apply ih

@[simp] theorem capacity_zeros
    (bytes : Nat) :
  (zeros bytes).capacity = bytes
  := Array.size_replicate

@[simp] theorem capacity_extend
    (b : BitBuffer) (additional : Nat) :
  (b.extend additional).capacity = b.capacity + additional
  := by
  simp [capacity, extend]

@[simp] theorem capacity_resize
    (b : BitBuffer) (bytes : Nat) (h : b.usedBytes ≤ bytes) :
  (b.resize bytes h).capacity = bytes
  := by
  simp only [capacity, resize, Array.size_append, Array.size_extract, Array.size_replicate]
  omega

theorem free_extend
    (b : BitBuffer) (additional : Nat) :
  (b.extend additional).free = b.free + 8 * additional
  := by
  have hle := b.length_le
  simp only [free, extend, Array.size_append, Array.size_replicate]
  omega

/-- The bytes of `b` that hold written bits are there. -/
theorem usedBytes_le
    (b : BitBuffer) :
  b.usedBytes ≤ b.capacity
  := by
  have := b.length_le
  simp only [usedBytes, capacity]
  omega

/-- A buffer without bytes that is extended by `bytes` has that many zero bytes. -/
theorem zeros_extend
    (bytes : Nat) :
  (zeros 0).extend bytes = zeros bytes
  := by
  simp [extend, zeros]

theorem toList_tighten
    (b : BitBuffer) :
  b.tighten.toList = b.toList
  := b.toList_resize _ (Nat.le_refl _)

/-- The buffer `b` grows by `additional` zero bytes, unless `memory` is refused. -/
theorem grow_cases
    (memory : Memory) (b : BitBuffer) (additional : Nat) :
  b.grow memory additional = .ok (b.extend additional)
    ∨ (∃ shortage, b.grow memory additional = .error (.outOfMemory shortage))
      ∧ ¬memory.Reaches (b.capacity + additional)
  := by
  unfold grow
  dsimp only
  split
  · rename_i hbytes
    right
    use ⟨_, rfl⟩
    intro hreaches
    have := hreaches.bits_lt
    omega
  · split
    · rename_i hbits
      right
      use ⟨_, rfl⟩
      intro hreaches
      have := hreaches.bits_lt
      omega
    · split
      · left
        rfl
      · rename_i hrefused
        right
        use ⟨_, rfl⟩
        intro hreaches
        apply hrefused
        right
        apply hreaches.grants _ (Nat.le_refl _)

/-- If `b` is allocated, its `bytes` are zero and nothing is written. -/
theorem eq_zeros_of_allocate
    {memory : Memory} {bytes : Nat} {b : BitBuffer} (h : allocate memory bytes = .ok b) :
  b = zeros bytes
  := by
  obtain hgrow | ⟨⟨shortage, hgrow⟩, _⟩ := grow_cases memory (zeros 0) bytes
  · rw [allocate, hgrow, zeros_extend] at h
    apply (Except.ok.inj h).symm
  · rw [allocate, hgrow] at h
    cases h

/-- If `b` is made by `ofBytes`, it has the `bytes`, and the bits that it was told of. -/
theorem parts_of_ofBytes
    {bytes : Array UInt8} {length : Nat} {b : BitBuffer} (h : ofBytes bytes length = .ok b) :
  b.bytes = bytes ∧ b.length = length
  := by
  rw [ofBytes] at h
  split at h
  · cases h
  · split at h <;> cases h
    use rfl

/-! ### Clean buffers -/

/-- Behind the written bits of `b` there are only zeros. -/
def Clean (b : BitBuffer) : Prop :=
  ∀ i, b.length ≤ i → bitAt b.bytes i = false

theorem clean_zeros
    (bytes : Nat) :
  (zeros bytes).Clean
  := by
  intro i _
  apply bitAt_zeros

namespace Clean

variable {b b' : BitBuffer}

theorem put
    (hb : b.Clean) (bit : Bool) (h : 1 ≤ b.free) :
  (b.put bit h).Clean
  := by
  have hroom : b.length < 8 * b.bytes.size := by
    simp only [free] at h
    omega
  intro i hi
  simp only [BitBuffer.put] at *
  rw [bitAt_setBit hroom, if_neg (by omega)]
  apply hb
  omega

theorem append
    (hb : b.Clean) (bits : List Bool) (h : bits.length ≤ b.free) :
  (b.append bits h).Clean
  := by
  induction bits generalizing b with
  | nil => apply hb
  | cons bit bits ih => apply ih (hb.put bit _)

theorem extend
    (hb : b.Clean) (additional : Nat) :
  (b.extend additional).Clean
  := by
  intro i hi
  rw [BitBuffer.extend, bitAt_append_zeros]
  apply hb i hi

theorem resize
    (hb : b.Clean) (bytes : Nat) (h : b.usedBytes ≤ bytes) :
  (b.resize bytes h).Clean
  := by
  intro i hi
  rw [BitBuffer.resize, bitAt_append_zeros, bitAt_extract]
  split
  · apply hb i hi
  · rfl

/-- If `b` and `b'` are clean and have the same written bits, they agree at every place `i`. -/
theorem bitAt_eq
    (hb : b.Clean) (hb' : b'.Clean) (h : b.toList = b'.toList) (i : Nat) :
  bitAt b.bytes i = bitAt b'.bytes i
  := by
  have hlength : b.length = b'.length := by rw [← length_toList, h, length_toList]
  by_cases hi : i < b.length
  · have hbit := congrArg (·[i]?) h
    simpa [toList, hi, hlength ▸ hi] using hbit
  · rw [hb i (by omega), hb' i (by omega)]

/-- If `b` and `b'` are clean and have the same written bits and the same size, they are equal. -/
theorem eq_of_toList_eq
    (hb : b.Clean) (hb' : b'.Clean) (h : b.toList = b'.toList)
    (hcapacity : b.capacity = b'.capacity) :
  b = b'
  := by
  have hlength : b.length = b'.length := by rw [← length_toList, h, length_toList]
  have hbytes := eq_of_bitAt_eq hcapacity (hb.bitAt_eq hb' h)
  cases b
  cases b'
  simp_all

end Clean

/-- The bytes of `b` that hold written bits. -/
def used (b : BitBuffer) : Array UInt8 := b.bytes.extract 0 b.usedBytes

/-- If `b` and `b'` are clean and have the same written bits, they have the same bytes in use,
whatever their sizes. -/
theorem Clean.used_eq
    {b b' : BitBuffer} (hb : b.Clean) (hb' : b'.Clean) (h : b.toList = b'.toList) :
  b.used = b'.used
  := by
  have hlength : b.length = b'.length := by rw [← length_toList, h, length_toList]
  have hbytes : b.usedBytes = b'.usedBytes := by rw [usedBytes, hlength, usedBytes]
  apply eq_of_bitAt_eq
  · have hle := b.usedBytes_le
    have hle' := b'.usedBytes_le
    simp only [used, capacity, Array.size_extract] at *
    omega
  · intro i
    rw [used, used, bitAt_extract, bitAt_extract, hbytes, hb.bitAt_eq hb' h]

end BitBuffer

end TimeSeries
