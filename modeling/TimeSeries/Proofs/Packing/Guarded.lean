import TimeSeries.Proofs.Guarded
import TimeSeries.Proofs.Packing.Codec

/-!
# Guarded decoding

The readings of bits and samples with all their guards, and with numbers read bit by bit.
Whatever the state, the place and the bits are, none of the guards stops a reading from a
reader that has not run past its limit: windows that would lead to such a guard are faults
of the stream.
-/

namespace TimeSeries

/-- The reader `r` has not run past its limit, and a word counts the bits up to any read. -/
structure BitReader.Proper (r : BitReader) : Prop where
  position_le : r.position ≤ r.limit
  limit_lt : r.limit + 64 < wordLimit

namespace Guarded

/-! ### Readings -/

/-- Takes the bit at the place of the reader out of its byte. -/
def takeBit (r : BitReader) : Guarded PackingError BitReader Bool := do
  require (r.position / 8 < r.bytes.size) (.outOfBounds (r.position / 8) r.bytes.size)
  require (r.position % 8 ≤ 7) (.underflow 7 (r.position % 8))
  require (r.position + 1 < wordLimit) (.overflow (r.position + 1))
  set (r.advance 1)
  return bitAt r.bytes r.position

/-- Reads one bit. -/
def readBit : Guarded PackingError BitReader Bool := fun r =>
  if r.atEnd then .error (.inr (.corrupted .noBitLeft)) r else takeBit r r

/-- Reads `count` bits behind those of `value`. -/
def gather (value : UInt64) : (count : Nat) → Guarded PackingError BitReader UInt64
  | 0 => return value
  | count + 1 => do
    let bit ← readBit
    gather (value <<< 1 ||| bit.toUInt64) count

/-- Takes `width` bits from the place of the reader on, if they are left. -/
def takeBits (width : Nat) (r : BitReader) : Guarded PackingError BitReader UInt64 := do
  require (r.position + width < wordLimit) (.overflow (r.position + width))
  if r.limit < r.position + width then
    require (r.position ≤ r.limit) (.underflow r.limit r.position)
    throw (.inr (.corrupted (.tooFewBits width (r.limit - r.position))))
  else gather 0 width

/-- Reads a number of `width` bits. -/
def readBits (width : Nat) : Guarded PackingError BitReader UInt64 := fun r =>
  if 64 < width then .error (.inr (.invalid (.wideRead width))) r else takeBits width r r

/-- Reads a number of `width` bits with a sign: its sign is shifted to the top and back. -/
def readSigned (width : Nat) : Guarded PackingError BitReader Int64 := do
  let raw ← readBits width
  require (width ≤ 64) (.underflow 64 width)
  require (64 - width < 64) (.shift (64 - width))
  return signed width raw

/-- Reads a change of the difference of timestamps. -/
def readDelta : Guarded PackingError BitReader Int64 := do
  if !(← readBit) then return 0
  if !(← readBit) then return ← readSigned 7
  if !(← readBit) then return ← readSigned 9
  if !(← readBit) then return ← readSigned 12
  if !(← readBit) then return ← readSigned 32
  readSigned 64

/-- Reads a difference of values in the window `w` of the last one. -/
def readSame (w : Window) (index : Nat) : Guarded PackingError BitReader UInt64 := do
  if w.width = 0 then throw (.inr (.corrupted (.emptyWindow index)))
  let raw ← readBits w.width
  require (w.trailing.toNat < 64) (.shift w.trailing.toNat)
  return raw <<< w.trailing.toUInt64

/-- Reads a new window and a difference of values in it. -/
def readNew (index : Nat) : Guarded PackingError BitReader (UInt64 × Window) := do
  let leading := (← readBits 5).toNat
  let widest := (← readBits 6).toNat
  require (widest + 1 < 256) (.overflow (widest + 1))
  let width := widest + 1
  if 64 < leading + width then throw (.inr (.corrupted (.wideWindow index leading width)))
  require (leading + width ≤ 64) (.underflow 64 (leading + width))
  let next : Window := ⟨UInt8.ofNat leading, UInt8.ofNat (64 - leading - width)⟩
  let raw ← readBits width
  require (next.trailing.toNat < 64) (.shift next.trailing.toNat)
  return (raw <<< next.trailing.toUInt64, next)

/-- Reads a difference of values, where `w` is the window of the last one, and gives the window
afterwards. -/
def readDifference (w : Window) (index : Nat) :
    Guarded PackingError BitReader (UInt64 × Window) := do
  if !(← readBit) then return (0, w)
  if !(← readBit) then return (← readSame w index, w)
  readNew index

/-- Reads the value of the sample that comes `delta` after the last one. -/
def readValue (s : Replay) (delta : Int64) (index : Nat) :
    Guarded PackingError BitReader (Sample × Replay) := do
  let (difference, window) ← readDifference s.window index
  let sample : Sample := ⟨s.timestamp + delta, ⟨s.value.bits ^^^ difference⟩⟩
  return (sample, ⟨sample.timestamp, delta, sample.value, window⟩)

/-- Reads the sample at place `index` of a stream, and gives the state after it. -/
def decode (s : Replay) (index : Nat) : Guarded PackingError BitReader (Sample × Replay) := do
  if index = 0 then throw (.inr (.invalid .firstSample))
  let delta ← if index = 1 then readSigned 64 else (s.delta + ·) <$> readDelta
  readValue s delta index

/-! ### Agreement -/

/-- Shifting `n` and putting in `bit` puts one more bit behind those of `n`. -/
theorem shiftLeft_or
    (n : Nat) (bit : Bool) :
  UInt64.ofNat n <<< 1 ||| bit.toUInt64 = UInt64.ofNat (2 * n + bit.toNat)
  := by
  have hbit : bit.toUInt64.toNat = bit.toNat := by cases bit <;> rfl
  have hlt : bit.toNat < 2 ^ 1 := by cases bit <;> decide
  have heven : n % 2 ^ 64 * 2 % 2 ^ 64 = 2 ^ 1 * (n % 2 ^ 63) := by omega
  apply UInt64.toNat.inj
  rw [UInt64.toNat_or, UInt64.toNat_shiftLeft, UInt64.toNat_ofNat', UInt64.toNat_ofNat', hbit]
  show (n % 2 ^ 64) <<< 1 % 2 ^ 64 ||| bit.toNat = _
  rw [Nat.shiftLeft_eq, Nat.pow_one, heven, ← Nat.two_pow_add_eq_or_of_lt hlt]
  omega

theorem agrees_readBit :
  Agrees BitReader.Proper readBit BitReader.readBit fun _ => True
  := by
  rintro r ⟨hposition, hlimit⟩
  have hbytes := r.limit_le
  rw [readBit, BitReader.readBit]
  by_cases hend : r.limit ≤ r.position
  · have hend : r.atEnd = true := decide_eq_true hend
    rw [if_pos hend, if_pos hend]
    use rfl
    exact ⟨hposition, hlimit⟩
  · have hnot : ¬r.atEnd = true := by rwa [BitReader.atEnd, decide_eq_true_eq]
    rw [if_neg hnot, if_neg hnot, takeBit, require_of (by omega), require_of (by omega),
      require_of (by omega)]
    use rfl, trivial
    constructor
    · show r.position + 1 ≤ r.limit
      omega
    · apply hlimit

/-- If `count` bits are left, `gather` reads them one by one behind those of `n`. -/
theorem gather_eq
    {r : BitReader} (hr : r.Proper) (n count : Nat) (hleft : r.position + count ≤ r.limit) :
  gather (UInt64.ofNat n) count r
    = .ok (UInt64.ofNat ((r.ahead count).foldl (fun n bit => 2 * n + bit.toNat) n))
      (r.advance count)
  := by
  induction count generalizing n r with
  | zero => rfl
  | succ count ih =>
    have hend : ¬r.atEnd = true := by
      rw [BitReader.atEnd, decide_eq_true_eq]
      omega
    obtain ⟨hread, _, hproper⟩ := agrees_readBit.of_eq_ok hr (if_neg hend)
    have hleft : (r.advance 1).position + count ≤ (r.advance 1).limit := by
      show r.position + 1 + count ≤ r.limit
      omega
    have hahead : r.ahead (count + 1) = bitAt r.bytes r.position :: (r.advance 1).ahead count := by
      rw [BitReader.ahead, BitReader.ahead, List.range_succ_eq_map, List.map_cons, List.map_map]
      simp [BitReader.advance, Function.comp_def, Nat.add_comm 1, Nat.add_assoc]
    have hadvance : r.advance (count + 1) = (r.advance 1).advance count := by
      rw [BitReader.advance_advance, Nat.add_comm]
    rw [hahead, hadvance, List.foldl_cons, ← ih hproper _ hleft, ← shiftLeft_or]
    simp only [gather, Bind.bind, EStateM.bind, hread]

theorem agrees_readBits
    (width : Nat) :
  Agrees BitReader.Proper (readBits width) (BitReader.readBits width)
    fun value => value.toNat < 2 ^ width
  := by
  intro r hr
  have hposition := hr.position_le
  have hlimit := hr.limit_lt
  have hgives := gives_readBits width r
  rw [readBits]
  rw [BitReader.readBits] at hgives ⊢
  by_cases hwide : 64 < width
  · rw [if_pos hwide, if_pos hwide]
    use rfl
  · rw [if_neg hwide] at hgives
    rw [if_neg hwide, if_neg hwide, takeBits, require_of (by omega)]
    by_cases hleft : r.left < width
    · have hbehind : r.limit < r.position + width := by
        rw [BitReader.left] at hleft
        omega
      rw [if_pos hleft, if_pos hbehind, require_of hposition]
      use rfl
    · have hbehind : ¬r.limit < r.position + width := by
        rw [BitReader.left] at hleft
        omega
      rw [if_neg hleft] at hgives ⊢
      rw [if_neg hbehind]
      use gather_eq hr 0 width (by omega), hgives _ _ rfl
      constructor
      · show r.position + width ≤ r.limit
        omega
      · apply hlimit

theorem agrees_readSigned
    {width : Nat} (hpos : 0 < width) (hwidth : width ≤ 64) :
  Agrees BitReader.Proper (readSigned width) (TimeSeries.readSigned width) fun _ => True
  := by
  apply (agrees_readBits width).bind_map
  intro raw _
  apply Agrees.require hwidth
  apply Agrees.require (by omega)
  apply Agrees.pure trivial

theorem agrees_readDelta :
  Agrees BitReader.Proper readDelta TimeSeries.readDelta fun _ => True
  := by
  rw [readDelta, TimeSeries.readDelta]
  -- One bit at each level tells whether the class is found.
  iterate 5
    apply agrees_readBit.bind
    intro bit _
    apply Agrees.ite
    · intro _
      first | apply agrees_readSigned <;> decide | apply Agrees.pure trivial
    intro _
  apply agrees_readSigned <;> decide

theorem agrees_readSame
    (w : Window) (index : Nat) :
  Agrees BitReader.Proper (readSame w index) (w.readSame index) fun _ => True
  := by
  rw [readSame, Window.readSame]
  apply Agrees.check
  intro hwidth
  apply (agrees_readBits _).bind
  intro raw _
  apply Agrees.require
  · rw [Window.width] at hwidth
    omega
  · apply Agrees.pure trivial

theorem agrees_readNew
    (index : Nat) :
  Agrees BitReader.Proper (readNew index) (Window.readNew index) fun _ => True
  := by
  apply (agrees_readBits 5).bind
  intro leading hleading
  apply (agrees_readBits 6).bind
  intro widest hwidest
  apply Agrees.require (by omega)
  apply Agrees.check
  intro hwide
  apply Agrees.require (by omega)
  apply (agrees_readBits _).bind
  intro raw _
  apply Agrees.require
  · rw [UInt8.toNat_ofNat']
    omega
  · apply Agrees.pure trivial

theorem agrees_readDifference
    (w : Window) (index : Nat) :
  Agrees BitReader.Proper (readDifference w index) (w.readDifference index) fun _ => True
  := by
  apply agrees_readBit.bind
  intro changed _
  apply Agrees.ite
  · intro _
    apply Agrees.pure trivial
  · intro _
    apply agrees_readBit.bind
    intro opens _
    apply Agrees.ite
    · intro _
      apply (agrees_readSame w index).bind
      intro difference _
      apply Agrees.pure trivial
    · intro _
      apply agrees_readNew

theorem agrees_readValue
    (s : Replay) (delta : Int64) (index : Nat) :
  Agrees BitReader.Proper (readValue s delta index) (s.readValue delta index) fun _ => True
  := by
  apply (agrees_readDifference _ _).bind
  intro x _
  apply Agrees.pure trivial

/-- In a proper reader `decode s index` ends as it does unguarded, and so does not abort. -/
theorem agrees_decode
    (s : Replay) (index : Nat) :
  Agrees BitReader.Proper (decode s index) (TimeSeries.decode s index) fun _ => True
  := by
  rw [decode, TimeSeries.decode]
  apply Agrees.check
  intro _
  apply Agrees.ite
  · intro _
    apply (agrees_readSigned (by decide) (by decide)).bind
    intro delta _
    apply agrees_readValue
  · intro _
    have hdelta : Agrees BitReader.Proper ((s.delta + ·) <$> readDelta)
        ((s.delta + ·) <$> TimeSeries.readDelta) fun _ => True :=
      agrees_readDelta.map fun _ _ => trivial
    apply hdelta.bind
    intro delta _
    apply agrees_readValue

end Guarded

end TimeSeries
