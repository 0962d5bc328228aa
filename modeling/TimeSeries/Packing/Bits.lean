import TimeSeries.Instances

/-!
# Bits of numbers and of byte strings

Bits are listed most significant first, within a number as within a byte.
`lowBits` lists the low bits of a number and `numberOf` reads such a list back.
`bitAt` and `setBit` look at and change single bits of a byte string.
-/

namespace TimeSeries

/-- The low `width` bits of a number, most significant first. -/
def lowBits (value : UInt64) : (width : Nat) → List Bool
  | 0 => []
  | width + 1 => value.toNat.testBit width :: lowBits value width

/-- The number that `bits` stand for in the binary system, the first of them weighing the most. -/
def numberOf (bits : List Bool) : Nat :=
  bits.foldl (fun n bit => 2 * n + bit.toNat) 0

/-- The bit at place `i` of a byte string; past the end all bits are zero. -/
def bitAt (bytes : Array UInt8) (i : Nat) : Bool :=
  (bytes[i / 8]?.getD 0).toNat.testBit (7 - i % 8)

/-- The byte whose only bit is the one at place `i` of a byte string. -/
def bitMask (i : Nat) : UInt8 := 1 <<< UInt8.ofNat (7 - i % 8)

/-- The byte string with the bit at place `i` set or cleared. -/
def setBit (bytes : Array UInt8) (i : Nat) (bit : Bool) : Array UInt8 :=
  bytes.modify (i / 8) fun byte => if bit then byte ||| bitMask i else byte &&& ~~~bitMask i

@[simp] theorem length_lowBits
    (value : UInt64) (width : Nat) :
  (lowBits value width).length = width
  := by
  induction width with
  | zero => rfl
  | succ width ih => simp [lowBits, ih]

/-- What `bits` add to a number `n` that was read before them: `n` moves up by their length. -/
theorem foldl_numberOf
    (bits : List Bool) (n : Nat) :
  bits.foldl (fun n bit => 2 * n + bit.toNat) n = n * 2 ^ bits.length + numberOf bits
  := by
  induction bits generalizing n with
  | nil => simp [numberOf]
  | cons bit bits ih =>
    rw [numberOf, List.foldl_cons, List.foldl_cons, ih, ih (2 * 0 + bit.toNat), List.length_cons,
      Nat.pow_succ', Nat.add_mul, Nat.mul_zero, Nat.zero_add, Nat.mul_comm 2 n, Nat.mul_assoc,
      Nat.add_assoc]

/-- The first bit of `bit :: bits` weighs the most: two to the power of the number of those behind
it. -/
theorem numberOf_cons
    (bit : Bool) (bits : List Bool) :
  numberOf (bit :: bits) = bit.toNat * 2 ^ bits.length + numberOf bits
  := by
  rw [numberOf, List.foldl_cons, foldl_numberOf, Nat.mul_zero, Nat.zero_add]

/-- The low `width` bits of `value` read back as `value` without the bits above them. -/
theorem numberOf_lowBits
    (value : UInt64) (width : Nat) :
  numberOf (lowBits value width) = value.toNat % 2 ^ width
  := by
  induction width with
  | zero => simp [lowBits, numberOf, Nat.mod_one]
  | succ width ih =>
    rw [lowBits, numberOf_cons, ih, length_lowBits, Nat.mod_pow_succ, Nat.toNat_testBit,
      Nat.add_comm, Nat.mul_comm]

/-- What `bits` stand for is less than two to the power of their length. -/
theorem numberOf_lt
    (bits : List Bool) :
  numberOf bits < 2 ^ bits.length
  := by
  induction bits with
  | nil => simp [numberOf]
  | cons bit bits ih =>
    rw [numberOf_cons, List.length_cons, Nat.pow_succ]
    cases bit <;> simp <;> omega

@[simp] theorem size_setBit
    (bytes : Array UInt8) (i : Nat) (bit : Bool) :
  (setBit bytes i bit).size = bytes.size
  := by
  simp [setBit]

/-- Of the bits of a byte `bitMask i` has exactly the one at the place `i` in the byte, counted from
the most significant one. -/
theorem testBit_bitMask
    (i : Nat) {k : Nat} (hk : k < 8) :
  (bitMask i).toNat.testBit (7 - k) = decide (i % 8 = k)
  := by
  have h : ∀ a < 8, ∀ k < 8,
      ((1 : UInt8) <<< UInt8.ofNat (7 - a)).toNat.testBit (7 - k) = decide (a = k) := by decide
  have hi := h (i % 8) (Nat.mod_lt _ (by decide)) k hk
  simpa only [bitMask] using hi

/-- Of the bits of a byte `~~~bitMask i` has every one but that at the place `i` in the byte. -/
theorem testBit_not_bitMask
    (i : Nat) {k : Nat} (hk : k < 8) :
  (~~~bitMask i).toNat.testBit (7 - k) = !decide (i % 8 = k)
  := by
  have h : ∀ a < 8, ∀ k < 8,
      (~~~((1 : UInt8) <<< UInt8.ofNat (7 - a))).toNat.testBit (7 - k) = !decide (a = k) := by
    decide
  have hi := h (i % 8) (Nat.mod_lt _ (by decide)) k hk
  simpa only [bitMask] using hi

/-- A bit `j` of `setBit bytes i bit` is the new one if `j` is `i`, and the one that was there if it
is not. -/
theorem bitAt_setBit
    {bytes : Array UInt8} {i : Nat} (hi : i < 8 * bytes.size) (bit : Bool) (j : Nat) :
  bitAt (setBit bytes i bit) j = if i = j then bit else bitAt bytes j
  := by
  have hbyte : i / 8 < bytes.size := by omega
  unfold bitAt setBit
  rw [Array.getElem?_modify]
  by_cases hsame : i / 8 = j / 8
  · have hj : j / 8 < bytes.size := hsame ▸ hbyte
    have heq : (i = j) ↔ i % 8 = j % 8 := by omega
    have hmask := testBit_bitMask i (Nat.mod_lt j (by decide : 0 < 8))
    have hrest := testBit_not_bitMask i (Nat.mod_lt j (by decide : 0 < 8))
    rw [if_pos hsame, Array.getElem?_eq_getElem hj]
    simp only [Option.map_some, Option.getD_some, heq]
    cases bit with
    | true =>
      simp only [↓reduceIte, UInt8.toNat_or, Nat.testBit_or, hmask]
      by_cases h : i % 8 = j % 8 <;> simp [h]
    | false =>
      simp only [Bool.false_eq_true, ↓reduceIte, UInt8.toNat_and, Nat.testBit_and, hrest]
      by_cases h : i % 8 = j % 8 <;> simp [h]
  · have hne : i ≠ j := fun h => hsame (by rw [h])
    rw [if_neg hsame, if_neg hne]

end TimeSeries
