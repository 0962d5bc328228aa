import TimeSeries.Binary64
import TimeSeries.Checksum

/-!
# Frames

A snapshot is a sequence of frames, each an unsigned number or a byte string.
Signed numbers and doubles are saved as the unsigned number of the same bits.  A
frame begins with a tag that tells its kind; numbers are written low byte first:

    unsigned   1, then 8 bytes
    bytes      2, then the length in 8 bytes, then the content

Sealing a snapshot puts the checksum of all frames behind them.
-/

namespace TimeSeries

/-- The low `count` bytes of a number, lowest first. -/
def littleEndian (n : Nat) : (count : Nat) → List UInt8
  | 0 => []
  | count + 1 => UInt8.ofNat n :: littleEndian (n / 256) count

/-- The number that bytes stand for, the lowest one first, as `littleEndian` writes it. -/
def ofLittleEndian : List UInt8 → Nat
  | [] => 0
  | byte :: bytes => byte.toNat + 256 * ofLittleEndian bytes

/-- The bytes that a word takes. -/
def wordSize : Nat := 8

/-- The bytes of the word `n`, the lowest one first. -/
def wordBytes (n : UInt64) : List UInt8 := littleEndian n.toNat wordSize

/-- The word that `bytes` stand for, the lowest one first. -/
def ofWordBytes (bytes : List UInt8) : UInt64 := UInt64.ofNat (ofLittleEndian bytes)

/-- A frame of a snapshot: a number, or a string of bytes. -/
inductive Frame where
  | unsigned (value : UInt64)
  | bytes (content : List UInt8)
deriving DecidableEq

namespace Frame

/-- The frame of a signed number `value`, which is that of the word with the same bits. -/
def signed (value : Int64) : Frame := .unsigned value.toUInt64

/-- The frame of the double `value`, which is that of the word with the same bits. -/
def double (value : Binary64) : Frame := .unsigned value.bits

/-- The frame of a count `n`, as far as a word counts it. -/
def count (n : Nat) : Frame := .unsigned (UInt64.ofNat n)

/-- The written form of a frame: a byte that marks its kind, a length if it is a byte string, and
its content. -/
def encode : Frame → List UInt8
  | unsigned value => 1 :: wordBytes value
  | bytes content => 2 :: (wordBytes (UInt64.ofNat content.length) ++ content)

end Frame

/-- The written form of `frames`, one behind the other. -/
def encodeFrames (frames : List Frame) : List UInt8 := frames.flatMap Frame.encode

/-- The `bytes` with their checksum behind them. -/
def sealBytes (bytes : List UInt8) : List UInt8 :=
  bytes ++ wordBytes (Checksum.ofBytes bytes)

/-- The sealed snapshot of `frames`: their written form with its checksum behind it. -/
def sealFrames (frames : List Frame) : List UInt8 := sealBytes (encodeFrames frames)

@[simp] theorem length_littleEndian
    (n count : Nat) :
  (littleEndian n count).length = count
  := by
  induction count generalizing n with
  | zero => rfl
  | succ count ih => simp [littleEndian, ih]

@[simp] theorem length_wordBytes
    (n : UInt64) :
  (wordBytes n).length = wordSize
  := length_littleEndian _ _

/-- The `count` low bytes of `n` read back as `n` without the part that did not fit in them. -/
theorem ofLittleEndian_littleEndian
    (n count : Nat) :
  ofLittleEndian (littleEndian n count) = n % 256 ^ count
  := by
  induction count generalizing n with
  | zero => simp [littleEndian, ofLittleEndian, Nat.mod_one]
  | succ count ih =>
    rw [littleEndian, ofLittleEndian, ih, UInt8.toNat_ofNat', Nat.pow_succ' (n := count),
      Nat.mod_mul]

/-- The number that `bytes` stand for is written as `bytes` again. -/
theorem littleEndian_ofLittleEndian
    (bytes : List UInt8) :
  littleEndian (ofLittleEndian bytes) bytes.length = bytes
  := by
  induction bytes with
  | nil => rfl
  | cons byte bytes ih =>
    have hlt := byte.toNat_lt
    have hdiv : (byte.toNat + 256 * ofLittleEndian bytes) / 256 = ofLittleEndian bytes := by omega
    rw [ofLittleEndian, List.length_cons, littleEndian, hdiv, ih]
    congr 1
    apply UInt8.toNat.inj
    rw [UInt8.toNat_ofNat']
    omega

/-- What `bytes` stand for is less than 256 to the power of their number. -/
theorem ofLittleEndian_lt
    (bytes : List UInt8) :
  ofLittleEndian bytes < 256 ^ bytes.length
  := by
  induction bytes with
  | nil => simp [ofLittleEndian]
  | cons byte bytes ih =>
    have hlt := byte.toNat_lt
    rw [ofLittleEndian, List.length_cons, Nat.pow_succ]
    omega

/-- The word `n` is read back from its bytes. -/
@[simp] theorem ofWordBytes_wordBytes
    (n : UInt64) :
  ofWordBytes (wordBytes n) = n
  := by
  apply UInt64.toNat.inj
  have hlt := n.toNat_lt
  rw [ofWordBytes, wordBytes, ofLittleEndian_littleEndian, UInt64.toNat_ofNat', wordSize]
  omega

/-- If `bytes` are eight, the word that they stand for is written as `bytes` again. -/
theorem wordBytes_ofWordBytes
    {bytes : List UInt8} (h : bytes.length = wordSize) :
  wordBytes (ofWordBytes bytes) = bytes
  := by
  have hlt := ofLittleEndian_lt bytes
  rw [h, wordSize] at hlt
  rw [wordBytes, ofWordBytes, UInt64.toNat_ofNat', Nat.mod_eq_of_lt (by omega), ← h,
    littleEndian_ofLittleEndian]

end TimeSeries
