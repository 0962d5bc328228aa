import TimeSeries.Packing.Decode
import TimeSeries.Proofs.Gives

/-!
# What readings move past

A reading looks at the bits that are left, from the front.  `Reads m bits a` says that
`m` gives `a` wherever the rest begins with `bits`, and moves past these bits and no
further; what comes after them does not matter.  `Streams m` says that whenever `m`
succeeds it does so in this way.  Both are kept by sequencing, and so hold of every
reading that is put together from single reads.  `Moves m low high` bounds how far a reading moves.
-/

namespace TimeSeries

namespace BitReader

@[simp] theorem length_rest
    (r : BitReader) :
  r.rest.length = r.left
  := by
  simp [rest]

theorem left_of_rest
    {r : BitReader} {bits tail : List Bool} (h : r.rest = bits ++ tail) :
  r.left = bits.length + tail.length
  := by
  rw [← length_rest, h, List.length_append]

/-- If the rest of `r` begins with `bits`, these are the bits ahead of `r`. -/
theorem ahead_of_rest
    {r : BitReader} {bits tail : List Bool} (h : r.rest = bits ++ tail) :
  r.ahead bits.length = bits
  := by
  have hleft := left_of_rest h
  rw [ahead_eq_take r (by omega), h, List.take_left]

/-- If the rest of `r` is `bits ++ tail`, then behind `bits` it is `tail`. -/
theorem rest_advance_of_rest
    {r : BitReader} {bits tail : List Bool} (h : r.rest = bits ++ tail) :
  (r.advance bits.length).rest = tail
  := by
  rw [rest_advance, h, List.drop_left]

theorem advance_advance
    (r : BitReader) (first second : Nat) :
  (r.advance first).advance second = r.advance (first + second)
  := by
  simp [advance, Nat.add_assoc]

theorem atEnd_iff
    (r : BitReader) :
  r.atEnd = true ↔ r.rest = []
  := by
  rw [← List.length_eq_zero_iff, length_rest, atEnd, left, decide_eq_true_iff]
  omega

end BitReader

variable {α β : Type}

/-- Where the rest begins with `bits`, the computation gives `a` and moves past them. -/
def Reads (m : Reading α) (bits : List Bool) (a : α) : Prop :=
  ∀ (r : BitReader) (tail : List Bool), r.rest = bits ++ tail →
    m r = .ok a (r.advance bits.length)

/-- Where `m` succeeds, it does so for the sake of the bits it moves past: they read as the same
result whatever comes after. -/
def Streams (m : Reading α) : Prop :=
  ∀ (r r' : BitReader) (a : α), m r = .ok a r' →
    ∃ bits tail, r.rest = bits ++ tail ∧ r' = r.advance bits.length ∧ Reads m bits a

/-! ### Sequencing -/

theorem Reads.pure
    (a : α) :
  Reads (Pure.pure a) [] a
  := by
  intro r tail _
  rfl

theorem Reads.bind
    {m : Reading α} {f : α → Reading β} {first second : List Bool} {a : α} {b : β}
    (hm : Reads m first a) (hf : Reads (f a) second b) :
  Reads (m >>= f) (first ++ second) b
  := by
  intro r tail h
  rw [List.append_assoc] at h
  have hm := hm r _ h
  have hf := hf _ _ (BitReader.rest_advance_of_rest h)
  rw [BitReader.advance_advance] at hf
  rw [List.length_append, ← hf]
  simp only [Bind.bind, EStateM.bind, hm]

theorem Reads.map
    {m : Reading α} {bits : List Bool} {a : α} (f : α → β) (hm : Reads m bits a) :
  Reads (f <$> m) bits (f a)
  := by
  intro r tail h
  simp only [Functor.map, EStateM.map, hm r tail h]

/-- If the check `c` does not end the computation, it reads nothing, and `next` reads what it would
read alone. -/
theorem Reads.unless
    {c : Prop} [Decidable c] {e : PackingError} {next : PUnit → Reading α} {bits : List Bool}
    {a : α} (hc : ¬c) (hnext : Reads (next ⟨⟩) bits a) :
  Reads (if c then throw e >>= next else next ⟨⟩) bits a
  := by
  rwa [if_neg hc]

theorem Streams.pure
    (a : α) :
  Streams (Pure.pure a)
  := by
  intro r r' b h
  cases h
  use [], r.rest
  constructor
  · rfl
  · constructor
    · rfl
    · apply Reads.pure

theorem Streams.bind
    {m : Reading α} {f : α → Reading β} (hm : Streams m) (hf : ∀ a, Streams (f a)) :
  Streams (m >>= f)
  := by
  intro r r' b h
  obtain ⟨a, middle, hr, hb⟩ := exists_of_bind_eq_ok h
  obtain ⟨first, tail, hfirst, rfl, hreads⟩ := hm r middle a hr
  obtain ⟨second, tail', hsecond, rfl, hreads'⟩ := hf a _ r' b hb
  rw [BitReader.rest_advance_of_rest hfirst] at hsecond
  use first ++ second, tail'
  constructor
  · rw [hfirst, hsecond, List.append_assoc]
  · constructor
    · rw [BitReader.advance_advance, List.length_append]
    · apply hreads.bind hreads'

theorem Streams.map
    {m : Reading α} (f : α → β) (hm : Streams m) :
  Streams (f <$> m)
  := by
  intro r r' b h
  obtain ⟨a, hr, rfl⟩ := exists_of_map_eq_ok h
  obtain ⟨bits, tail, hrest, hr', hreads⟩ := hm r _ a hr
  use bits, tail, hrest, hr'
  apply hreads.map

theorem Streams.ite
    {c : Prop} [Decidable c] {m n : Reading α} (hm : Streams m) (hn : Streams n) :
  Streams (if c then m else n)
  := by
  split
  · apply hm
  · apply hn

theorem Streams.unless
    {c : Prop} [Decidable c] {e : PackingError} {next : PUnit → Reading α}
    (hnext : Streams (next ⟨⟩)) :
  Streams (if c then throw e >>= next else next ⟨⟩)
  := by
  apply Streams.ite
  · intro r r' a h
    cases h
  · apply hnext

/-- Where the computation succeeds, it moves by at least `low` and at most `high` bits. -/
def Moves (m : Reading α) (low high : Nat) : Prop :=
  ∀ (r r' : BitReader) (a : α), m r = .ok a r' →
    ∃ width, low ≤ width ∧ width ≤ high ∧ r' = r.advance width

theorem Moves.mono
    {m : Reading α} {low high low' high' : Nat} (hm : Moves m low high) (hlow : low' ≤ low)
    (hhigh : high ≤ high') :
  Moves m low' high'
  := by
  intro r r' a h
  obtain ⟨width, hge, hle, hr'⟩ := hm r r' a h
  use width, Nat.le_trans hlow hge, Nat.le_trans hle hhigh

theorem Moves.pure
    (a : α) :
  Moves (Pure.pure a) 0 0
  := by
  intro r r' b h
  cases h
  use 0, Nat.le_refl 0, Nat.le_refl 0
  rfl

theorem Moves.bind
    {m : Reading α} {f : α → Reading β} {low high low' high' : Nat} (hm : Moves m low high)
    (hf : ∀ a, Moves (f a) low' high') :
  Moves (m >>= f) (low + low') (high + high')
  := by
  intro r r' b h
  obtain ⟨a, middle, hr, hb⟩ := exists_of_bind_eq_ok h
  obtain ⟨first, hge, hle, rfl⟩ := hm r middle a hr
  obtain ⟨second, hge', hle', rfl⟩ := hf a _ r' b hb
  use first + second, Nat.add_le_add hge hge', Nat.add_le_add hle hle'
  apply BitReader.advance_advance

theorem Moves.map
    {m : Reading α} {low high : Nat} (f : α → β) (hm : Moves m low high) :
  Moves (f <$> m) low high
  := by
  intro r r' b h
  obtain ⟨a, hr, rfl⟩ := exists_of_map_eq_ok h
  apply hm r _ a hr

theorem Moves.bind_pure
    {m : Reading α} {low high : Nat} (f : α → β) (hm : Moves m low high) :
  Moves (m >>= fun a => Pure.pure (f a)) low high
  := hm.bind fun a => Moves.pure (f a)

theorem Moves.ite
    {c : Prop} [Decidable c] {m n : Reading α} {low high : Nat} (hm : c → Moves m low high)
    (hn : ¬c → Moves n low high) :
  Moves (if c then m else n) low high
  := by
  split
  · rename_i h
    apply hm h
  · rename_i h
    apply hn h

theorem Moves.unless
    {c : Prop} [Decidable c] {e : PackingError} {next : PUnit → Reading α} {low high : Nat}
    (hnext : ¬c → Moves (next ⟨⟩) low high) :
  Moves (if c then throw e >>= next else next ⟨⟩) low high
  := by
  apply Moves.ite
  · intro _ r r' a h
    cases h
  · apply hnext

/-- Any `bits` can be put before a reader. -/
theorem exists_rest_eq
    (bits : List Bool) :
  ∃ r : BitReader, r.rest = bits
  := by
  have hroom : bits.length ≤ (BitBuffer.zeros bits.length).free := by
    simp only [BitBuffer.free, BitBuffer.zeros, Array.size_replicate]
    omega
  use ((BitBuffer.zeros bits.length).append bits hroom).reader
  rw [BitBuffer.rest_reader, BitBuffer.toList_append, BitBuffer.toList_zeros, List.nil_append]

theorem Reads.gives
    {m : Reading α} {bits : List Bool} {a : α} {P : α → Prop} (hm : Reads m bits a)
    (h : Gives m P) :
  P a
  := by
  obtain ⟨r, hr⟩ := exists_rest_eq bits
  apply h r _ a
  apply hm r []
  rw [hr, List.append_nil]

theorem Reads.length_mem
    {m : Reading α} {bits : List Bool} {a : α} {low high : Nat} (hm : Reads m bits a)
    (h : Moves m low high) :
  low ≤ bits.length ∧ bits.length ≤ high
  := by
  obtain ⟨r, hr⟩ := exists_rest_eq bits
  have hread := hm r [] (by rw [hr, List.append_nil])
  obtain ⟨width, hge, hle, hadvance⟩ := h r _ a hread
  have hposition := congrArg BitReader.position hadvance
  simp only [BitReader.advance, Nat.add_left_cancel_iff] at hposition
  omega

/-! ### Single reads -/

theorem reads_readBit
    (bit : Bool) :
  Reads BitReader.readBit [bit] bit
  := by
  intro r tail h
  have hleft := BitReader.left_of_rest h
  have hahead := BitReader.ahead_of_rest h
  have hend : r.atEnd = false := by
    simp only [BitReader.left, List.length_singleton] at hleft
    simp only [BitReader.atEnd, decide_eq_false_iff_not]
    omega
  have hbit : bitAt r.bytes r.position = bit := by
    simpa [BitReader.ahead] using hahead
  simp only [BitReader.readBit, hend, hbit, List.length_singleton]
  rfl

theorem reads_readBits
    {bits : List Bool} (h : bits.length ≤ 64) :
  Reads (BitReader.readBits bits.length) bits (UInt64.ofNat (numberOf bits))
  := by
  intro r tail hrest
  have hleft := BitReader.left_of_rest hrest
  rw [BitReader.readBits, if_neg (by omega), if_neg (by omega), BitReader.ahead_of_rest hrest]

/-- The low bits of `value` read back as `value` without its high bits. -/
theorem reads_lowBits
    (value : UInt64) {width : Nat} (h : width ≤ 64) :
  Reads (BitReader.readBits width) (lowBits value width)
    (UInt64.ofNat (value.toNat % 2 ^ width))
  := by
  have hreads := reads_readBits (show (lowBits value width).length ≤ 64 by rwa [length_lowBits])
  rwa [length_lowBits, numberOf_lowBits] at hreads

theorem streams_readBit :
  Streams BitReader.readBit
  := by
  intro r r' bit h
  rw [BitReader.readBit] at h
  split at h
  · cases h
  · rename_i hend
    cases h
    have hleft : 0 < r.rest.length := by
      simp only [BitReader.atEnd, decide_eq_true_eq] at hend
      simp only [BitReader.length_rest, BitReader.left]
      omega
    have hrest : r.rest = [bitAt r.bytes r.position] ++ r.rest.drop 1 := by
      have htake : r.ahead 1 = r.rest.take 1 :=
        BitReader.ahead_eq_take r (by rwa [BitReader.length_rest] at hleft)
      rw [← List.take_append_drop 1 r.rest, ← htake]
      simp [BitReader.ahead]
    use [bitAt r.bytes r.position], r.rest.drop 1, hrest, rfl
    apply reads_readBit

theorem streams_readBits
    (width : Nat) :
  Streams (BitReader.readBits width)
  := by
  intro r r' value h
  rw [BitReader.readBits] at h
  split at h
  · cases h
  · split at h
    · cases h
    · rename_i hwide hleft
      cases h
      have hlength : (r.ahead width).length = width := by simp [BitReader.ahead]
      have hrest : r.rest = r.ahead width ++ r.rest.drop width := by
        rw [BitReader.ahead_eq_take r (by omega), List.take_append_drop]
      use r.ahead width, r.rest.drop width, hrest, by rw [hlength]
      have hreads := reads_readBits (show (r.ahead width).length ≤ 64 by omega)
      rwa [hlength] at hreads

theorem moves_readBit :
  Moves BitReader.readBit 1 1
  := by
  intro r r' bit h
  rw [BitReader.readBit] at h
  split at h
  · cases h
  · cases h
    use 1, Nat.le_refl 1, Nat.le_refl 1

theorem moves_readBits
    (width : Nat) :
  Moves (BitReader.readBits width) width width
  := by
  intro r r' value h
  rw [BitReader.readBits] at h
  split at h
  · cases h
  · split at h
    · cases h
    · cases h
      use width, Nat.le_refl width, Nat.le_refl width

/-- Reading `width` bits takes at most a word, whatever the `width`. -/
theorem moves_readBits_le
    (width : Nat) :
  Moves (BitReader.readBits width) 0 64
  := by
  by_cases hwide : 64 < width
  · intro r r' value h
    rw [BitReader.readBits, if_pos hwide] at h
    cases h
  · apply (moves_readBits width).mono (Nat.zero_le _) (by omega)

theorem gives_readBits
    (width : Nat) :
  Gives (BitReader.readBits width) fun value => value.toNat < 2 ^ width
  := by
  intro r r' value h
  rw [BitReader.readBits] at h
  split at h
  · cases h
  · split at h
    · cases h
    · rename_i hwide _
      cases h
      have hpow : 2 ^ width ≤ 2 ^ 64 := Nat.pow_le_pow_right (by decide) (by omega)
      have hlt := numberOf_lt (r.ahead width)
      rw [show (r.ahead width).length = width by simp [BitReader.ahead]] at hlt
      rw [UInt64.toNat_ofNat', Nat.mod_eq_of_lt (by omega)]
      apply hlt

/-! ### Samples -/

theorem streams_readDelta :
  Streams readDelta
  := by
  have hsigned (width : Nat) : Streams (readSigned width) := (streams_readBits width).map _
  rw [readDelta]
  -- One bit at each level tells whether the class is found.
  iterate 5
    apply streams_readBit.bind
    intro bit
    apply Streams.ite
    · first | apply hsigned | apply Streams.pure
  apply hsigned

theorem streams_readSame
    (w : Window) (index : Nat) :
  Streams (w.readSame index)
  := by
  rw [Window.readSame]
  apply Streams.unless
  apply (streams_readBits _).bind
  intro raw
  apply Streams.pure

theorem streams_readNew
    (index : Nat) :
  Streams (Window.readNew index)
  := by
  apply (streams_readBits 5).bind
  intro leading
  apply (streams_readBits 6).bind
  intro width
  apply Streams.unless
  apply (streams_readBits _).bind
  intro raw
  apply Streams.pure

theorem streams_readDifference
    (w : Window) (index : Nat) :
  Streams (w.readDifference index)
  := by
  apply streams_readBit.bind
  intro changed
  apply Streams.ite
  · apply Streams.pure
  · apply streams_readBit.bind
    intro opens
    apply Streams.ite
    · apply (streams_readSame w index).bind
      intro difference
      apply Streams.pure
    · apply streams_readNew

/-- Reads the value of the sample that comes `delta` after the last one. -/
def Replay.readValue (s : Replay) (delta : Int64) (index : Nat) : Reading (Sample × Replay) := do
  let (difference, window) ← s.window.readDifference index
  let sample : Sample := ⟨s.timestamp + delta, ⟨s.value.bits ^^^ difference⟩⟩
  return (sample, ⟨sample.timestamp, delta, sample.value, window⟩)

/-- Where `decode s index` succeeds, the sample comes from the bits that are moved past, whatever
comes after. -/
theorem streams_decode
    (s : Replay) (index : Nat) :
  Streams (decode s index)
  := by
  have hvalue (delta : Int64) : Streams (s.readValue delta index) := by
    apply (streams_readDifference _ _).bind
    intro x
    apply Streams.pure
  rw [decode]
  apply Streams.unless
  apply Streams.ite
  · apply ((streams_readBits 64).map _).bind hvalue
  · apply (streams_readDelta.map _).bind hvalue

end TimeSeries
