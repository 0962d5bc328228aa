import Mathlib.Tactic.Common
import TimeSeries.Packing.Encode
import TimeSeries.Proofs.Packing.Reading

/-!
# Samples read back

The bits of a sample decode as that sample, and leave the decoder in the state that the
encoder went on from, for every state that both begin in.  A timestamp comes back
because a signed number fits the class it is written in, and because differences that
wrap around are undone by sums that wrap around.  A value comes back because the window
leaves out none of the bits that differ.
-/

namespace TimeSeries

/-! ### Signed numbers -/

/-- The number with a sign that the bits of `d` stand for is `d`. -/
theorem toNat_toUInt64_bmod
    (d : Int64) :
  ((d.toUInt64.toNat : Int).bmod (2 ^ 64)) = d.toInt
  := by
  rw [← Int64.toInt_toBitVec, BitVec.toInt_eq_toNat_bmod]
  rfl

/-- A number that fits in `width` bits is the one that its low bits stand for. -/
theorem bmod_toInt_of_fits
    {d : Int64} {width : Nat} (hwidth : 0 < width)
    (hlow : -(2 ^ (width - 1) : Int) ≤ d.toInt) (hhigh : d.toInt < 2 ^ (width - 1)) :
  d.toInt.bmod (2 ^ width) = d.toInt
  := by
  obtain ⟨n, rfl⟩ := Nat.exists_eq_add_of_lt hwidth
  simp only [Nat.zero_add, Nat.add_sub_cancel] at *
  apply Int.bmod_eq_of_le
  · rw [Nat.pow_succ]
    push_cast
    omega
  · rw [Nat.pow_succ]
    push_cast
    omega

theorem reads_readSigned
    {d : Int64} {width : Nat} (hwidth : 0 < width) (hle : width ≤ 64)
    (hlow : -(2 ^ (width - 1) : Int) ≤ d.toInt) (hhigh : d.toInt < 2 ^ (width - 1)) :
  Reads (readSigned width) (lowBits d.toUInt64 width) d
  := by
  have hreads := (reads_lowBits d.toUInt64 hle).map (signed width)
  have hpow : 2 ^ width ≤ 2 ^ 64 := Nat.pow_le_pow_right (by decide) hle
  have hlt : d.toUInt64.toNat % 2 ^ width < 2 ^ width := Nat.mod_lt _ (Nat.two_pow_pos width)
  have hback : signed width (UInt64.ofNat (d.toUInt64.toNat % 2 ^ width)) = d := by
    rw [signed, UInt64.toNat_ofNat', Nat.mod_eq_of_lt (by omega), Int.natCast_emod,
      Int.emod_bmod, ← Int.bmod_bmod_of_dvd (Nat.pow_dvd_pow 2 hle), toNat_toUInt64_bmod,
      bmod_toInt_of_fits hwidth hlow hhigh, Int64.ofInt_toInt]
  rwa [hback] at hreads

theorem reads_readSigned_of_fits
    {d : Int64} {width : Nat} (hwidth : 0 < width) (hle : width ≤ 64)
    (h : fitsSigned width d = true) :
  Reads (readSigned width) (lowBits d.toUInt64 width) d
  := by
  simp only [fitsSigned, Bool.and_eq_true, decide_eq_true_eq] at h
  apply reads_readSigned hwidth hle h.1 h.2

/-- Every `d` fits in all of its 64 bits. -/
theorem reads_readSigned_full
    (d : Int64) :
  Reads (readSigned 64) (lowBits d.toUInt64 64) d
  := by
  have hlow := d.le_toInt
  have hhigh := d.toInt_lt
  apply reads_readSigned (by decide) (by decide)
  · simpa using hlow
  · simpa using hhigh

theorem fieldBits_cons
    (f : Field) (fields : List Field) :
  fieldBits (f :: fields) = lowBits f.value f.width ++ fieldBits fields
  := rfl

@[simp] theorem fieldBits_nil :
  fieldBits [] = []
  := rfl

theorem fieldBits_append
    (first second : List Field) :
  fieldBits (first ++ second) = fieldBits first ++ fieldBits second
  := List.flatMap_append

/-! ### Decisions by one bit -/

section Decisions

variable {α : Type} {bits : List Bool} {a : α} {m n : Reading α}

theorem Reads.zero
    (h : Reads m bits a) :
  Reads (BitReader.readBit >>= fun bit => if !bit then m else n) (false :: bits) a
  := (reads_readBit false).bind h

theorem Reads.one
    (h : Reads n bits a) :
  Reads (BitReader.readBit >>= fun bit => if !bit then m else n) (true :: bits) a
  := (reads_readBit true).bind h

end Decisions

/-! ### Differences of timestamps -/

/-- A `change` of the difference of timestamps reads back, whatever its class. -/
theorem reads_readDelta
    (change : Int64) :
  Reads readDelta (fieldBits (deltaFields change)) change
  := by
  have hfits {width : Nat} (hwidth : 0 < width) (hle : width ≤ 64)
      (h : fitsSigned width change = true) :
      Reads (readSigned width) (fieldBits [⟨change.toUInt64, width⟩]) change := by
    rw [fieldBits_cons, fieldBits_nil, List.append_nil]
    apply reads_readSigned_of_fits hwidth hle h
  have hfull : Reads (readSigned 64) (fieldBits [⟨change.toUInt64, 64⟩]) change := by
    rw [fieldBits_cons, fieldBits_nil, List.append_nil]
    apply reads_readSigned_full
  rw [deltaFields, readDelta]
  -- A class is marked by as many ones as there are classes before it, and a zero.
  split
  · rename_i hzero
    rw [hzero]
    apply Reads.zero
    apply Reads.pure
  · split
    · rename_i h
      apply Reads.one
      apply Reads.zero (hfits (by decide) (by decide) h)
    · split
      · rename_i h
        iterate 2 apply Reads.one
        apply Reads.zero (hfits (by decide) (by decide) h)
      · split
        · rename_i h
          iterate 3 apply Reads.one
          apply Reads.zero (hfits (by decide) (by decide) h)
        · split
          · rename_i h
            iterate 4 apply Reads.one
            apply Reads.zero (hfits (by decide) (by decide) h)
          · iterate 5 apply Reads.one
            apply hfull

/-! ### Zeros at either end -/

theorem testBit_of_le
    (x : UInt64) {i : Nat} (h : 64 ≤ i) :
  x.toNat.testBit i = false
  := by
  apply Nat.testBit_lt_two_pow
  apply Nat.lt_of_lt_of_le x.toNat_lt
  apply Nat.pow_le_pow_right (by decide) h

/-- If `x` is not zero, it has a one among its 64 bits. -/
theorem exists_testBit
    {x : UInt64} (hx : x ≠ 0) :
  ∃ i, i < 64 ∧ x.toNat.testBit i = true
  := by
  by_contra hnone
  apply hx
  apply UInt64.toNat.inj
  apply Nat.eq_of_testBit_eq
  intro i
  rw [UInt64.toNat_zero, Nat.zero_testBit]
  by_cases hi : i < 64
  · simpa using fun h => hnone ⟨i, hi, h⟩
  · apply testBit_of_le x (by omega)

/-- If `x` is not zero, a one stands behind the zeros at its low end. -/
theorem trailingZeros_spec
    {x : UInt64} (hx : x ≠ 0) :
  trailingZeros x < 64 ∧ x.toNat.testBit (trailingZeros x) = true
    ∧ ∀ j < trailingZeros x, x.toNat.testBit j = false
  := by
  cases hfound : (List.range 64).find? fun i => x.toNat.testBit i with
  | none =>
    obtain ⟨i, hi, hbit⟩ := exists_testBit hx
    have hnone := List.find?_eq_none.mp hfound i (List.mem_range.mpr hi)
    contradiction
  | some n =>
    have hzeros : trailingZeros x = n := by simp [trailingZeros, hfound]
    obtain ⟨hbit, hlt, hfirst⟩ := List.find?_range_eq_some.mp hfound
    rw [hzeros]
    use List.mem_range.mp hlt, hbit
    intro j hj
    simpa using hfirst j hj

/-- If `x` is not zero, a one stands before the zeros at its high end. -/
theorem leadingZeros_spec
    {x : UInt64} (hx : x ≠ 0) :
  leadingZeros x < 64 ∧ x.toNat.testBit (63 - leadingZeros x) = true
    ∧ ∀ j < leadingZeros x, x.toNat.testBit (63 - j) = false
  := by
  cases hfound : (List.range 64).find? fun i => x.toNat.testBit (63 - i) with
  | none =>
    obtain ⟨i, hi, hbit⟩ := exists_testBit hx
    have hnone := List.find?_eq_none.mp hfound (63 - i) (List.mem_range.mpr (by omega))
    rw [show 63 - (63 - i) = i by omega] at hnone
    contradiction
  | some n =>
    have hzeros : leadingZeros x = n := by simp [leadingZeros, hfound]
    obtain ⟨hbit, hlt, hfirst⟩ := List.find?_range_eq_some.mp hfound
    rw [hzeros]
    use List.mem_range.mp hlt, hbit
    intro j hj
    simpa using hfirst j hj

/-- If `x` is not zero, the zeros at both ends leave at least one bit. -/
theorem leadingZeros_add_trailingZeros_lt
    {x : UInt64} (hx : x ≠ 0) :
  leadingZeros x + trailingZeros x < 64
  := by
  obtain ⟨hlt, hbit, _⟩ := leadingZeros_spec hx
  obtain ⟨_, _, hlow⟩ := trailingZeros_spec hx
  by_contra hge
  rw [hlow _ (by omega)] at hbit
  contradiction

/-- If `x` is not zero, it still has all of its bits without some of its `leading` zeros. -/
theorem toNat_lt_of_le_leadingZeros
    {x : UInt64} (hx : x ≠ 0) {leading : Nat} (h : leading ≤ leadingZeros x) :
  x.toNat < 2 ^ (64 - leading)
  := by
  obtain ⟨_, _, hhigh⟩ := leadingZeros_spec hx
  apply Nat.lt_pow_two_of_testBit
  intro i hi
  by_cases hlt : i < 64
  · have := hhigh (63 - i) (by omega)
    rwa [show 63 - (63 - i) = i by omega] at this
  · apply testBit_of_le x (by omega)

/-- If `x` is not zero, shifting out some of its `trailing` zeros and back changes nothing. -/
theorem shiftRight_shiftLeft
    {x : UInt64} (hx : x ≠ 0) {trailing : UInt64} (h : trailing.toNat ≤ trailingZeros x) :
  (x >>> trailing) <<< trailing = x
  := by
  obtain ⟨hlt, _, hlow⟩ := trailingZeros_spec hx
  apply UInt64.toNat.inj
  rw [UInt64.toNat_shiftLeft, UInt64.toNat_shiftRight,
    Nat.mod_eq_of_lt (show trailing.toNat < 64 by omega)]
  apply Nat.eq_of_testBit_eq
  intro i
  rw [Nat.testBit_mod_two_pow, Nat.testBit_shiftLeft, Nat.testBit_shiftRight]
  by_cases hi : i < 64
  · by_cases hlow' : trailing.toNat ≤ i
    · simp [hi, hlow', show trailing.toNat + (i - trailing.toNat) = i by omega]
    · simp [hlow', hlow i (by omega)]
  · simp [hi, testBit_of_le x (Nat.le_of_not_lt hi)]

/-! ### Differences of values -/

/-- If the window `w` leaves out only zeros of `difference`, it has room for the rest. -/
theorem toNat_shiftRight_lt
    {difference : UInt64} (hne : difference ≠ 0) {w : Window}
    (hleading : w.leading.toNat ≤ leadingZeros difference)
    (htrailing : w.trailing.toNat ≤ trailingZeros difference) :
  (difference >>> w.trailing.toUInt64).toNat < 2 ^ w.width
  := by
  have hsum := leadingZeros_add_trailingZeros_lt hne
  have hlt := toNat_lt_of_le_leadingZeros hne hleading
  rw [UInt64.toNat_shiftRight, UInt8.toNat_toUInt64, Nat.mod_eq_of_lt (by omega),
    Nat.shiftRight_eq_div_pow, Nat.div_lt_iff_lt_mul (Nat.two_pow_pos _), ← Nat.pow_add]
  rwa [Window.width, show 64 - (w.leading.toNat + w.trailing.toNat) + w.trailing.toNat
    = 64 - w.leading.toNat by omega]

/-- If the window `w` leaves out only zeros of `difference`, reading its bits and shifting them back
gives `difference`. -/
theorem reads_inWindow
    {α : Type} {difference : UInt64} (hne : difference ≠ 0) {w : Window}
    (hleading : w.leading.toNat ≤ leadingZeros difference)
    (htrailing : w.trailing.toNat ≤ trailingZeros difference) (f : UInt64 → α) :
  Reads (BitReader.readBits w.width >>= fun raw => pure (f (raw <<< w.trailing.toUInt64)))
    (lowBits (difference >>> w.trailing.toUInt64) w.width) (f difference)
  := by
  have hroom := toNat_shiftRight_lt hne hleading htrailing
  have hreads := reads_lowBits (difference >>> w.trailing.toUInt64)
    (show w.width ≤ 64 by simp only [Window.width]; omega)
  rw [Nat.mod_eq_of_lt hroom, UInt64.ofNat_toNat] at hreads
  have hback := shiftRight_shiftLeft hne
    (show w.trailing.toUInt64.toNat ≤ trailingZeros difference by rwa [UInt8.toNat_toUInt64])
  have hmap := hreads.map fun raw => f (raw <<< w.trailing.toUInt64)
  rwa [hback] at hmap

/-- If the window `w` of the last difference leaves out only zeros of `difference`, this reads back
from `w`. -/
theorem reads_readSame
    {difference : UInt64} (hne : difference ≠ 0) {w : Window} (index : Nat)
    (hleading : w.leading.toNat ≤ leadingZeros difference)
    (htrailing : w.trailing.toNat ≤ trailingZeros difference) :
  Reads (w.readSame index) (lowBits (difference >>> w.trailing.toUInt64) w.width) difference
  := by
  have hsum := leadingZeros_add_trailingZeros_lt hne
  rw [Window.readSame]
  apply Reads.unless
  · simp only [Window.width]
    omega
  · apply reads_inWindow hne hleading htrailing id

/-- If `n` is less than two to the `width`, it reads back from its low bits. -/
theorem reads_ofNat
    {n width : Nat} (hle : width ≤ 64) (h : n < 2 ^ width) :
  Reads (BitReader.readBits width) (lowBits (UInt64.ofNat n) width) (UInt64.ofNat n)
  := by
  have hpow : 2 ^ width ≤ 2 ^ 64 := Nat.pow_le_pow_right (by decide) hle
  have hreads := reads_lowBits (UInt64.ofNat n) hle
  rwa [UInt64.toNat_ofNat', Nat.mod_eq_of_lt (show n < 2 ^ 64 by omega), Nat.mod_eq_of_lt h]
    at hreads

/-- A new window reads back from the fields that `next` is written in, and so does the `difference`
in it. -/
theorem reads_readNew
    {difference : UInt64} (hne : difference ≠ 0) (index : Nat) {leading : Nat}
    (hmax : leading ≤ maxLeading) (hleading : leading ≤ leadingZeros difference) {next : Window}
    (hnext : next = ⟨UInt8.ofNat leading, UInt8.ofNat (trailingZeros difference)⟩) :
  Reads (Window.readNew index)
    (fieldBits [⟨UInt64.ofNat leading, 5⟩, ⟨UInt64.ofNat (next.width - 1), 6⟩,
      ⟨difference >>> next.trailing.toUInt64, next.width⟩]) (difference, next)
  := by
  have hsum := leadingZeros_add_trailingZeros_lt hne
  rw [maxLeading] at hmax
  have hl : next.leading.toNat = leading := by
    rw [hnext, UInt8.toNat_ofNat']
    omega
  have ht : next.trailing.toNat = trailingZeros difference := by
    rw [hnext, UInt8.toNat_ofNat']
    omega
  have hwidth : next.width = 64 - (leading + trailingZeros difference) := by
    rw [Window.width, hl, ht]
  have hl64 : (UInt64.ofNat leading).toNat = leading := by
    rw [UInt64.toNat_ofNat']
    omega
  have hw64 : (UInt64.ofNat (next.width - 1)).toNat + 1 = next.width := by
    rw [UInt64.toNat_ofNat']
    omega
  -- The trailing zeros are not written: they are what the rest leaves of 64 bits.
  have hfirst : UInt8.ofNat leading = next.leading := by rw [hnext]
  have hlast : UInt8.ofNat (64 - leading - next.width) = next.trailing := by
    rw [hwidth, hnext, show 64 - leading - (64 - (leading + trailingZeros difference))
      = trailingZeros difference by omega]
  rw [fieldBits_cons, fieldBits_cons, fieldBits_cons, fieldBits_nil, List.append_nil]
  rw [Window.readNew]
  apply (reads_ofNat (by decide) (by omega)).bind
  apply (reads_ofNat (by decide) (by omega)).bind
  simp only [hl64, hw64]
  apply Reads.unless (by omega)
  simp only [hfirst, hlast]
  apply reads_inWindow hne (by omega) (by omega) (·, next)

/-- A `difference` of values reads back, and so does the window afterwards. -/
theorem reads_readDifference
    (w : Window) (index : Nat) (difference : UInt64) :
  Reads (w.readDifference index) (fieldBits (w.fields difference).1)
    (difference, (w.fields difference).2)
  := by
  rw [Window.readDifference, Window.fields]
  split
  · rename_i hzero
    rw [hzero]
    apply Reads.zero
    apply Reads.pure
  · rename_i hne
    dsimp only
    split
    · rename_i hfits
      obtain ⟨hleading, htrailing⟩ := hfits
      rw [fieldBits_cons, fieldBits_cons, fieldBits_nil, List.append_nil]
      apply Reads.one
      apply Reads.zero
      apply (reads_readSame hne index (by omega) htrailing).map (·, w)
    · iterate 2 apply Reads.one
      apply reads_readNew hne index (Nat.min_le_right _ _) (Nat.min_le_left _ _) rfl

/-- If `index` is not zero, the sample `x` decodes from its bits, and the decoder is then in the
state of the encoder. -/
theorem reads_decode
    (s : Replay) {index : Nat} (hindex : 1 ≤ index) (x : Sample) :
  Reads (decode s index) (fieldBits (s.plan index x).1) (x, (s.plan index x).2)
  := by
  have htime : s.timestamp + (x.timestamp - s.timestamp) = x.timestamp := by
    rw [Int64.add_comm, Int64.sub_add_cancel]
  have hchange : s.delta + (x.timestamp - s.timestamp - s.delta) = x.timestamp - s.timestamp := by
    rw [Int64.add_comm, Int64.sub_add_cancel]
  have hvalue : s.value.bits ^^^ (s.value.bits ^^^ x.value.bits) = x.value.bits := by
    rw [← UInt64.xor_assoc, UInt64.xor_self, UInt64.zero_xor]
  let after (p : UInt64 × Window) : Sample × Replay :=
    let sample : Sample := ⟨s.timestamp + (x.timestamp - s.timestamp), ⟨s.value.bits ^^^ p.1⟩⟩
    (sample, ⟨sample.timestamp, x.timestamp - s.timestamp, sample.value, p.2⟩)
  have hafter (window : Window) : after (s.value.bits ^^^ x.value.bits, window)
      = (x, ⟨x.timestamp, x.timestamp - s.timestamp, x.value, window⟩) := by
    simp only [after, htime, hvalue]
  have hrest := (reads_readDifference s.window index (s.value.bits ^^^ x.value.bits)).map after
  rw [hafter] at hrest
  rw [decode, Replay.plan, Replay.timestampFields, fieldBits_append]
  apply Reads.unless (by omega)
  dsimp only
  split
  · rw [fieldBits_cons, fieldBits_nil, List.append_nil]
    apply (reads_readSigned_full _).bind hrest
  · have hdelta := (reads_readDelta (x.timestamp - s.timestamp - s.delta)).map (s.delta + ·)
    rw [hchange] at hdelta
    apply hdelta.bind hrest

/-! ### States that follow -/

/-- The windows `w` that can be opened: at least one bit is left, and the leading zeros fit in their
field. -/
def Window.Open (w : Window) : Prop :=
  w.leading.toNat ≤ maxLeading ∧ w.leading.toNat + w.trailing.toNat < 64

/-- The state `next` remembers the sample `x`, and the window of `s` unless a new one was
opened. -/
structure Replay.Follows (s : Replay) (x : Sample) (next : Replay) : Prop where
  timestamp : next.timestamp = x.timestamp
  value : next.value = x.value
  window : next.window = s.window ∨ next.window.Open

theorem gives_readNew
    (index : Nat) :
  Gives (Window.readNew index) fun p => p.2.Open
  := by
  rw [Window.readNew]
  refine (gives_readBits 5).bind fun leading hleading => ?_
  refine (gives_readBits 6).bind fun width hwidth => ?_
  refine Gives.unless fun hfits => ?_
  refine (Gives.any _).bind fun raw _ => Gives.pure ?_
  constructor
  · rw [UInt8.toNat_ofNat', maxLeading]
    omega
  · rw [UInt8.toNat_ofNat', UInt8.toNat_ofNat']
    omega

theorem gives_readDifference
    (w : Window) (index : Nat) :
  Gives (w.readDifference index) fun p => p.2 = w ∨ p.2.Open
  := by
  refine (Gives.any _).bind fun changed _ => ?_
  refine Gives.ite (fun _ => Gives.pure (.inl rfl)) fun _ => ?_
  refine (Gives.any _).bind fun opens _ => ?_
  refine Gives.ite (fun _ => ?_) fun _ => ?_
  · refine (Gives.any _).bind fun difference _ => Gives.pure (.inl rfl)
  · intro r r' p h
    apply Or.inr
    apply gives_readNew index r r' p h

/-- The state that `decode s index` gives remembers the sample that it gives. -/
theorem gives_decode
    (s : Replay) (index : Nat) :
  Gives (decode s index) fun p => s.Follows p.1 p.2
  := by
  have hvalue (delta : Int64) : Gives (s.readValue delta index) fun p => s.Follows p.1 p.2 := by
    refine (gives_readDifference _ _).bind fun p hwindow => ?_
    refine Gives.pure ⟨rfl, rfl, hwindow⟩
  rw [decode]
  refine Gives.unless fun _ => ?_
  refine Gives.ite (fun _ => ?_) fun _ => ?_
  · refine (Gives.any _).bind fun delta _ => hvalue delta
  · refine (Gives.any _).bind fun delta _ => hvalue delta

/-! ### Distances -/

/-- If one bit decides whether `m` or `n` follows, reading moves by one bit more than these. -/
theorem moves_decision
    {α : Type} {m n : Reading α} {low high high' : Nat} (hm : Moves m low high)
    (hn : Moves n low high') (hle : high ≤ high') :
  Moves (BitReader.readBit >>= fun bit => if !bit then m else n) (1 + low) (1 + high')
  := by
  apply moves_readBit.bind
  intro bit
  apply Moves.ite
  · intro _
    apply hm.mono (Nat.le_refl _) hle
  · intro _
    apply hn

theorem moves_readDelta :
  Moves readDelta 1 (5 + 64)
  := by
  have hclass (width : Nat) : Moves (readSigned width) 0 width :=
    ((moves_readBits width).map _).mono (Nat.zero_le _) (Nat.le_refl _)
  have hlast := moves_decision (hclass 32) (hclass 64) (by decide)
  have hfourth := moves_decision (hclass 12) (hlast.mono (Nat.zero_le _) (Nat.le_refl _)) (by decide)
  have hthird := moves_decision (hclass 9) (hfourth.mono (Nat.zero_le _) (Nat.le_refl _)) (by decide)
  have hsecond := moves_decision (hclass 7) (hthird.mono (Nat.zero_le _) (Nat.le_refl _)) (by decide)
  apply moves_decision (Moves.pure 0) (hsecond.mono (Nat.zero_le _) (Nat.le_refl _)) (by decide)

theorem moves_readSame
    (w : Window) (index : Nat) :
  Moves (w.readSame index) 0 64
  := by
  rw [Window.readSame]
  apply Moves.unless
  intro _
  apply (moves_readBits_le _).bind_pure

theorem moves_readNew
    (index : Nat) :
  Moves (Window.readNew index) 0 (5 + 6 + 64)
  := by
  have hvalue (width : Nat) (next : Window) : Moves (do
      let raw ← BitReader.readBits width
      return (raw <<< next.trailing.toUInt64, next)) 0 64 := by
    apply (moves_readBits_le width).bind_pure
  have hmoves : Moves (Window.readNew index) (5 + (6 + 0)) (5 + (6 + 64)) := by
    rw [Window.readNew]
    apply (moves_readBits 5).bind
    intro leading
    apply (moves_readBits 6).bind
    intro width
    apply Moves.unless
    intro _
    apply hvalue
  apply hmoves.mono (by decide) (by decide)

theorem moves_readDifference
    (w : Window) (index : Nat) :
  Moves (w.readDifference index) 1 (2 + 5 + 6 + 64)
  := by
  have hsame : Moves (do return (← w.readSame index, w)) 0 64 := by
    apply (moves_readSame w index).bind_pure
  have hchanged := moves_decision hsame (moves_readNew index) (by decide)
  apply moves_decision (Moves.pure (0, w)) (hchanged.mono (Nat.zero_le _) (Nat.le_refl _)) (by decide)

/-- How far a sample at place `index` moves at least: the second sample has its difference
in full. -/
def leastSampleBits (index : Nat) : Nat := if index = 1 then 65 else 2

/-- How far a sample at place `index` moves at most. -/
def mostSampleBits (index : Nat) : Nat := if index = 1 then 141 else maxSampleBits

theorem moves_decode
    (s : Replay) (index : Nat) :
  Moves (decode s index) (leastSampleBits index) (mostSampleBits index)
  := by
  have hvalue (delta : Int64) : Moves (s.readValue delta index) 1 (2 + 5 + 6 + 64) := by
    apply (moves_readDifference _ _).bind_pure
  have hsecond := ((moves_readBits 64).map (signed 64)).bind hvalue
  have hlater := (moves_readDelta.map (s.delta + ·)).bind hvalue
  rw [decode]
  apply Moves.unless
  intro _
  apply Moves.ite
  · intro hindex
    rw [leastSampleBits, mostSampleBits, if_pos hindex, if_pos hindex]
    apply hsecond.mono (by decide) (by decide)
  · intro hindex
    rw [leastSampleBits, mostSampleBits, if_neg hindex, if_neg hindex]
    apply hlater.mono (by decide) (by decide)

/-! ### Costs -/

namespace Window

theorem width_le
    (w : Window) :
  w.width ≤ 64
  := Nat.sub_le _ _

/-- A field `f` of a difference of values can be written at once. -/
theorem width_le_of_mem_fields
    (w : Window) (difference : UInt64) {f : Field} (h : f ∈ (w.fields difference).1) :
  f.width ≤ 64
  := by
  rw [fields] at h
  split at h
  · simp_all
  · dsimp only at h
    split at h
    · simp only [List.mem_cons, List.not_mem_nil, or_false] at h
      rcases h with rfl | rfl
      · show 2 ≤ 64
        decide
      · apply w.width_le
    · simp only [List.mem_cons, List.not_mem_nil, or_false] at h
      rcases h with rfl | rfl | rfl | rfl
      · show 2 ≤ 64
        decide
      · show 5 ≤ 64
        decide
      · show 6 ≤ 64
        decide
      · apply width_le

end Window

theorem width_le_of_mem_deltaFields
    {change : Int64} {f : Field} (h : f ∈ deltaFields change) :
  f.width ≤ 64
  := by
  rw [deltaFields] at h
  split_ifs at h
  all_goals
    simp only [List.mem_cons, List.not_mem_nil, or_false] at h
    rcases h with rfl | rfl <;> simp

theorem Replay.width_le_of_mem_plan
    (s : Replay) (index : Nat) (x : Sample) {f : Field} (h : f ∈ (s.plan index x).1) :
  f.width ≤ 64
  := by
  rcases List.mem_append.mp h with h | h
  · rw [timestampFields] at h
    split at h
    · simp_all
    · apply width_le_of_mem_deltaFields h
  · apply Window.width_le_of_mem_fields _ _ h

/-- If `difference` is written in the window `w`, it has at most four fields. -/
theorem Window.length_fields_le
    (w : Window) (difference : UInt64) :
  (w.fields difference).1.length ≤ 4
  := by
  rw [fields]
  dsimp only
  split_ifs <;> simp

theorem Replay.length_timestampFields_le
    (s : Replay) (index : Nat) (t : Timestamp) :
  (s.timestampFields index t).length ≤ 2
  := by
  rw [timestampFields, deltaFields]
  split_ifs <;> simp

theorem length_fieldBits
    (fields : List Field) :
  (fieldBits fields).length = (fields.map Field.width).sum
  := by
  induction fields with
  | nil => rfl
  | cons f fields ih => simp [fieldBits_cons, ih]

theorem length_deltaFields_le
    (change : Int64) :
  (fieldBits (deltaFields change)).length ≤ 5 + 64
  := by
  rw [deltaFields]
  repeat' split
  all_goals simp [length_fieldBits]

theorem length_windowFields_le
    (w : Window) (difference : UInt64) :
  (fieldBits (w.fields difference).1).length ≤ 2 + 5 + 6 + 64
  := by
  rw [Window.fields]
  split
  · simp [length_fieldBits]
  · dsimp only
    split
    · have := w.width_le
      simp only [length_fieldBits, List.map_cons, List.map_nil, List.sum_cons, List.sum_nil]
      omega
    · have := Window.width_le ⟨UInt8.ofNat (min (leadingZeros difference) maxLeading),
        UInt8.ofNat (trailingZeros difference)⟩
      simp only [length_fieldBits, List.map_cons, List.map_nil, List.sum_cons, List.sum_nil]
      omega

/-- Every sample `x` takes at most `maxSampleBits`, in every state `s`. -/
theorem Replay.cost_le
    (s : Replay) (index : Nat) (x : Sample) :
  s.cost index x ≤ maxSampleBits
  := by
  have hwindow := length_windowFields_le s.window (s.value.bits ^^^ x.value.bits)
  have hdelta := length_deltaFields_le (x.timestamp - s.timestamp - s.delta)
  unfold Replay.cost Replay.plan Replay.timestampFields maxSampleBits
  rw [fieldBits_append, List.length_append]
  dsimp only
  split
  · simp only [length_fieldBits, List.map_cons, List.map_nil, List.sum_cons, List.sum_nil] at *
    omega
  · omega

end TimeSeries
