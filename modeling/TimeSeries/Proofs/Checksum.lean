import Mathlib.Data.Nat.Bitwise
import Mathlib.Logic.Function.Iterate
import TimeSeries.Checksum
import TimeSeries.Proofs.Packing.Buffer

/-!
# What checksums tell apart

A checksum is a remainder that takes in one bit after the other.  Times `x` the remainder is
shifted, and shifting is linear over the exclusive or and one to one.  So bits that are the
same in two byte strings keep different remainders different, and as many bits as a remainder
has are told apart wherever they stand: up to 64 bits, taken in from one remainder, give what
one gets from putting them into the remainder at once and shifting it as often.
-/

namespace TimeSeries.Checksum

/-! ### Shifts -/

/-- The remainder whose highest bit is `bit` and whose others are zero. -/
def top (bit : Bool) : UInt64 := if bit then 0x8000000000000000 else 0

theorem testBit_top
    (bit : Bool) (i : Nat) :
  (top bit).toNat.testBit i = (decide (i = 63) && bit)
  := by
  cases bit with
  | false => simp [top]
  | true =>
    have hpow : (top true).toNat = 2 ^ 63 := rfl
    rw [hpow, Nat.testBit_two_pow, Bool.and_true]
    exact decide_eq_decide.mpr eq_comm

/-- If the remainders `a` and `b` have the same bits, they are equal. -/
theorem eq_of_testBit_eq
    {a b : UInt64} (h : ∀ i < 64, a.toNat.testBit i = b.toNat.testBit i) :
  a = b
  := by
  apply UInt64.toNat.inj
  apply Nat.eq_of_testBit_eq
  intro i
  by_cases hi : i < 64
  · apply h i hi
  · have hpow : 2 ^ 64 ≤ 2 ^ i := Nat.pow_le_pow_right (by decide) (by omega)
    rw [Nat.testBit_lt_two_pow (Nat.lt_of_lt_of_le a.toNat_lt hpow),
      Nat.testBit_lt_two_pow (Nat.lt_of_lt_of_le b.toNat_lt hpow)]

/-- The bits of `r` move up by one in `shift r`, and the bit that leaves brings the generator in. -/
theorem testBit_shift
    (r : UInt64) {i : Nat} (hi : i < 64) :
  (shift r).toNat.testBit i
    = ((decide (1 ≤ i) && r.toNat.testBit (i - 1))
      ^^ (r.toNat.testBit 63 && generator.toNat.testBit i))
  := by
  have hmoved : (r <<< 1).toNat.testBit i = (decide (1 ≤ i) && r.toNat.testBit (i - 1)) := by
    have hone : (1 : UInt64).toNat % 64 = 1 := rfl
    rw [UInt64.toNat_shiftLeft, hone, Nat.testBit_mod_two_pow, decide_eq_true hi, Bool.true_and,
      Nat.testBit_shiftLeft]
  have htop : (r &&& 0x8000000000000000 = 0) ↔ r.toNat.testBit 63 = false := by
    have hand : (r &&& 0x8000000000000000).toNat = r.toNat &&& 2 ^ 63 := rfl
    rw [← UInt64.toNat_inj, hand, Nat.and_two_pow]
    cases r.toNat.testBit 63 <;> simp
  rw [shift]
  split
  · rename_i h
    rw [hmoved, htop.mp h, Bool.false_and, Bool.xor_false]
  · rename_i h
    have hset : r.toNat.testBit 63 = true := by
      apply Bool.of_not_eq_false
      exact mt htop.mpr h
    rw [UInt64.toNat_xor, Nat.testBit_xor, hmoved, hset, Bool.true_and]

/-- Shifting is linear: `shift` of a sum without carries is the sum of both shifted. -/
theorem shift_xor
    (a b : UInt64) :
  shift (a ^^^ b) = shift a ^^^ shift b
  := by
  apply eq_of_testBit_eq
  intro i hi
  rw [UInt64.toNat_xor, Nat.testBit_xor, testBit_shift _ hi, testBit_shift _ hi,
    testBit_shift _ hi, UInt64.toNat_xor, Nat.testBit_xor, Nat.testBit_xor,
    Bool.and_xor_distrib_left, Bool.and_xor_distrib_right]
  simp only [Bool.xor_assoc, Bool.xor_left_comm]

/-- Only zero is shifted to zero: the generator has a lowest bit, which no shifted bit of `r`
meets. -/
theorem eq_zero_of_shift_eq_zero
    {r : UInt64} (h : shift r = 0) :
  r = 0
  := by
  have hbits (i : Nat) (hi : i < 64) := (testBit_shift r hi).symm.trans (by rw [h])
  have hhigh : r.toNat.testBit 63 = false := by
    have hlow := hbits 0 (by decide)
    have hgenerator : generator.toNat.testBit 0 = true := by decide
    simpa [hgenerator] using hlow
  apply eq_of_testBit_eq
  intro i hi
  by_cases hlast : i = 63
  · rw [hlast, hhigh]
    rfl
  · have hmoved := hbits (i + 1) (by omega)
    simpa [hhigh] using hmoved

/-- Shifting is one to one. -/
theorem shift_injective :
  Function.Injective shift
  := by
  intro a b h
  apply UInt64.xor_eq_zero_iff.mp
  apply eq_zero_of_shift_eq_zero
  rw [shift_xor, h, UInt64.xor_self]

/-! ### Bits -/

/-- The remainder after one more `bit`, which is added to its highest place and shifted out of
it. -/
def feed (remainder : UInt64) (bit : Bool) : UInt64 := shift (remainder ^^^ top bit)

/-- The word that begins with the given bits, from its highest bit down. -/
def aligned : List Bool → UInt64
  | [] => 0
  | bit :: bits => top bit ^^^ aligned bits >>> 1

theorem feed_injective
    (bit : Bool) :
  Function.Injective (feed · bit)
  := by
  intro a b h
  apply (UInt64.xor_left_inj _).mp (shift_injective h)

/-- Different remainders stay different when the same `bits` are fed to both. -/
theorem foldl_feed_injective
    (bits : List Bool) :
  Function.Injective fun r => bits.foldl feed r
  := by
  induction bits with
  | nil => apply Function.injective_id
  | cons bit bits ih => apply ih.comp (feed_injective bit)

theorem testBit_aligned
    (bits : List Bool) {k : Nat} (hk : k < 64) :
  (aligned bits).toNat.testBit (63 - k) = bits[k]?.getD false
  := by
  induction bits generalizing k with
  | nil => apply Nat.zero_testBit
  | cons bit bits ih =>
    have hone : (1 : UInt64).toNat % 64 = 1 := rfl
    rw [aligned, UInt64.toNat_xor, Nat.testBit_xor, testBit_top, UInt64.toNat_shiftRight, hone,
      Nat.testBit_shiftRight]
    cases k with
    | zero =>
      have hhigh : (aligned bits).toNat.testBit (1 + (63 - 0)) = false :=
        Nat.testBit_lt_two_pow (aligned bits).toNat_lt
      rw [hhigh]
      simp
    | succ k =>
      have hplace : 1 + (63 - (k + 1)) = 63 - k := by omega
      have hlow : ¬63 - (k + 1) = 63 := by omega
      rw [hplace, ih (by omega), decide_eq_false hlow, Bool.false_and, Bool.false_xor,
        List.getElem?_cons_succ]

/-- If `bits` and `bits'` are as many, and no more than a word has, they are told by the words that
begin with them. -/
theorem eq_of_aligned_eq
    {bits bits' : List Bool} (hlength : bits.length = bits'.length) (hle : bits.length ≤ 64)
    (h : aligned bits = aligned bits') :
  bits = bits'
  := by
  apply List.ext_getElem hlength
  intro k hk hk'
  have hbit := testBit_aligned bits (show k < 64 by omega)
  rw [h, testBit_aligned bits' (by omega), List.getElem?_eq_getElem hk,
    List.getElem?_eq_getElem hk'] at hbit
  apply hbit.symm

/-- A word that begins with fewer `bits` than it has is moved up by a shift after it was moved down,
as no bit leaves it. -/
theorem shift_aligned
    {bits : List Bool} (h : bits.length < 64) :
  shift (aligned bits >>> 1) = aligned bits
  := by
  have hone : (1 : UInt64).toNat % 64 = 1 := rfl
  have hmoved (i : Nat) : (aligned bits >>> 1).toNat.testBit i
      = (aligned bits).toNat.testBit (1 + i) := by
    rw [UInt64.toNat_shiftRight, hone, Nat.testBit_shiftRight]
  have hhigh : (aligned bits).toNat.testBit (1 + 63) = false :=
    Nat.testBit_lt_two_pow (aligned bits).toNat_lt
  apply eq_of_testBit_eq
  intro i hi
  rw [testBit_shift _ hi, hmoved, hmoved, hhigh, Bool.false_and, Bool.xor_false]
  cases i with
  | zero =>
    have hlow := testBit_aligned bits (show 63 < 64 by decide)
    rw [List.getElem?_eq_none (by omega)] at hlow
    rw [hlow]
    rfl
  | succ i =>
    have hplace : 1 + (i + 1 - 1) = i + 1 := by omega
    rw [hplace]
    rfl

/-- If `bits` are no more than a word has, they can be added to the remainder `r` at once, which is
then shifted as often. -/
theorem foldl_feed_eq
    (r : UInt64) {bits : List Bool} (h : bits.length ≤ 64) :
  bits.foldl feed r = shift^[bits.length] (r ^^^ aligned bits)
  := by
  induction bits generalizing r with
  | nil =>
    rw [aligned, UInt64.xor_zero]
    rfl
  | cons bit bits ih =>
    have hroom : bits.length < 64 := h
    have hfeed : feed r bit ^^^ aligned bits = shift (r ^^^ aligned (bit :: bits)) := by
      rw [feed, aligned, ← UInt64.xor_assoc, shift_xor _ (aligned bits >>> 1), shift_aligned hroom]
    rw [List.foldl_cons, ih _ (Nat.le_of_lt hroom), hfeed]
    rfl

/-- If up to 64 `bits` and as many `bits'` leave the same remainder, they are the same. -/
theorem eq_of_foldl_feed_eq
    {r : UInt64} {bits bits' : List Bool} (hlength : bits.length = bits'.length)
    (hle : bits.length ≤ 64) (h : bits.foldl feed r = bits'.foldl feed r) :
  bits = bits'
  := by
  rw [foldl_feed_eq r hle, foldl_feed_eq r (hlength ▸ hle), ← hlength] at h
  apply eq_of_aligned_eq hlength hle
  apply (UInt64.xor_right_inj _).mp (shift_injective.iterate _ h)

/-- If `bits` and `bits'` leave the same remainder, and differ at most within 64 places from `start`
on, they are the same. -/
theorem eq_of_foldl_feed_eq_of_close
    {r : UInt64} {bits bits' : List Bool} (hlength : bits.length = bits'.length) (start : Nat)
    (hclose : ∀ i, bits[i]? ≠ bits'[i]? → start ≤ i ∧ i < start + 64)
    (h : bits.foldl feed r = bits'.foldl feed r) :
  bits = bits'
  := by
  have hsame (i : Nat) (hi : i < start ∨ start + 64 ≤ i) : bits[i]? = bits'[i]? := by
    by_contra hne
    have := hclose i hne
    omega
  have hbefore : bits.take start = bits'.take start := by
    apply List.ext_getElem?
    intro i
    rw [List.getElem?_take, List.getElem?_take]
    split
    · apply hsame
      left
      assumption
    · rfl
  have hafter : (bits.drop start).drop 64 = (bits'.drop start).drop 64 := by
    apply List.ext_getElem?
    intro i
    rw [List.drop_drop, List.drop_drop, List.getElem?_drop, List.getElem?_drop]
    apply hsame
    right
    omega
  have hsplit (bits : List Bool) :
      bits = bits.take start ++ ((bits.drop start).take 64 ++ (bits.drop start).drop 64) := by
    rw [List.take_append_drop, List.take_append_drop]
  rw [hsplit bits, hsplit bits', hbefore, hafter, List.foldl_append, List.foldl_append,
    List.foldl_append, List.foldl_append] at h
  have hwithin : (bits.drop start).take 64 = (bits'.drop start).take 64 := by
    apply eq_of_foldl_feed_eq _ _ (foldl_feed_injective _ h)
    · rw [List.length_take, List.length_take, List.length_drop, List.length_drop, hlength]
    · apply List.length_take_le
  rw [hsplit bits, hsplit bits', hbefore, hwithin, hafter]

/-! ### Bytes -/

/-- The bits of `bytes`, those of each byte from the most significant one down. -/
def bitsOf (bytes : List UInt8) : List Bool :=
  bytes.flatMap fun byte => lowBits byte.toUInt64 8

/-- The bits of `byte` begin the word that has it in its highest byte. -/
theorem aligned_lowBits
    (byte : UInt8) :
  aligned (lowBits byte.toUInt64 8) = byte.toUInt64 <<< 56
  := by
  apply eq_of_testBit_eq
  intro i hi
  have hshift : (56 : UInt64).toNat % 64 = 56 := rfl
  have hplace : 63 - (63 - i) = i := by omega
  have haligned := testBit_aligned (lowBits byte.toUInt64 8) (show 63 - i < 64 by omega)
  rw [hplace] at haligned
  rw [haligned, UInt64.toNat_shiftLeft, hshift, Nat.testBit_mod_two_pow, decide_eq_true hi,
    Bool.true_and, Nat.testBit_shiftLeft, getElem?_lowBits]
  by_cases hbyte : 56 ≤ i
  · have hbit : 8 - 1 - (63 - i) = i - 56 := by omega
    rw [if_pos (by omega), hbit, decide_eq_true hbyte]
    rfl
  · rw [if_neg (by omega), decide_eq_false hbyte]
    rfl

theorem step_eq
    (r : UInt64) (byte : UInt8) :
  step r byte = (lowBits byte.toUInt64 8).foldl feed r
  := by
  rw [foldl_feed_eq r (by rw [length_lowBits]; decide), aligned_lowBits, length_lowBits]
  rfl

/-- The checksum of `bytes` takes in their bits one after the other. -/
theorem ofBytes_eq
    (bytes : List UInt8) :
  ofBytes bytes = (bitsOf bytes).foldl feed 0
  := by
  rw [ofBytes, bitsOf, List.foldl_flatMap]
  congr 1
  funext r byte
  apply step_eq

theorem length_bitsOf
    (bytes : List UInt8) :
  (bitsOf bytes).length = 8 * bytes.length
  := by
  induction bytes with
  | nil => rfl
  | cons byte bytes ih =>
    rw [bitsOf, List.flatMap_cons, List.length_append, ← bitsOf, ih, length_lowBits,
      List.length_cons]
    omega

theorem bitAt_toArray
    (bytes : List UInt8) (i : Nat) :
  bitAt bytes.toArray i = (bitsOf bytes)[i]?.getD false
  := by
  induction bytes generalizing i with
  | nil => apply Nat.zero_testBit
  | cons byte bytes ih =>
    have hsplit : (byte :: bytes).toArray = #[byte] ++ bytes.toArray := by simp
    have hsize : 8 * #[byte].size = 8 := rfl
    rw [hsplit, bitAt_append, hsize, bitsOf, List.flatMap_cons, ← bitsOf, List.getElem?_append,
      length_lowBits, ih, getElem?_lowBits]
    by_cases hi : i < 8
    · have hplace : 8 - 1 - i = 7 - i % 8 := by omega
      have hfirst : i / 8 = 0 := by omega
      rw [if_pos hi, if_pos hi, if_pos hi, bitAt, hplace, hfirst]
      rfl
    · rw [if_neg hi, if_neg hi]

/-- If the `i`th bits of two byte strings of one size differ, then so do the bits of the two at the
place `i`. -/
theorem bitAt_ne_of_getElem?_ne
    {bytes bytes' : List UInt8} (hlength : bytes.length = bytes'.length) {i : Nat}
    (h : (bitsOf bytes)[i]? ≠ (bitsOf bytes')[i]?) :
  bitAt bytes.toArray i ≠ bitAt bytes'.toArray i
  := by
  intro hbit
  apply h
  by_cases hi : i < 8 * bytes.length
  · have hi₁ : i < (bitsOf bytes).length := by rwa [length_bitsOf]
    have hi₂ : i < (bitsOf bytes').length := by rwa [length_bitsOf, ← hlength]
    rw [bitAt_toArray, bitAt_toArray, List.getElem?_eq_getElem hi₁,
      List.getElem?_eq_getElem hi₂] at hbit
    rw [List.getElem?_eq_getElem hi₁, List.getElem?_eq_getElem hi₂]
    apply congrArg some hbit
  · rw [List.getElem?_eq_none, List.getElem?_eq_none]
    · rw [length_bitsOf]
      omega
    · rw [length_bitsOf]
      omega

/-- If `bytes` and `bytes'` are as many and have the same checksum, and differ at most within 64
bits from `start` on, they are the same. -/
theorem eq_of_ofBytes_eq
    {bytes bytes' : List UInt8} (hlength : bytes.length = bytes'.length) (start : Nat)
    (hclose : ∀ i, bitAt bytes.toArray i ≠ bitAt bytes'.toArray i → start ≤ i ∧ i < start + 64)
    (h : ofBytes bytes = ofBytes bytes') :
  bytes = bytes'
  := by
  rw [ofBytes_eq, ofBytes_eq] at h
  have hbits : bitsOf bytes = bitsOf bytes' := by
    apply eq_of_foldl_feed_eq_of_close _ start _ h
    · rw [length_bitsOf, length_bitsOf, hlength]
    · intro i hne
      apply hclose i (bitAt_ne_of_getElem?_ne hlength hne)
  have hbytes : bytes.toArray = bytes'.toArray := by
    apply eq_of_bitAt_eq hlength
    intro i
    rw [bitAt_toArray, bitAt_toArray, hbits]
  apply congrArg Array.toList hbytes

end TimeSeries.Checksum
