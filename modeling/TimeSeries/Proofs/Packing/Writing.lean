import TimeSeries.Proofs.Packing.Buffer
import TimeSeries.Proofs.Packing.Guarded

/-!
# Bit buffers as lists of bits

To its user a bit buffer is a list of bits, with bytes in which there is room for it.
`w.Answers request outcome w'` says how such a list answers a request to write, to grow or to
trim, and what it is afterwards.  Whatever a buffer was made from, it answers like this list at
every point of a run; and a reader that starts there gives the list from its first bit to its
last, in whichever slices it is asked for.  What fails changes nothing and moves nothing.

A buffer is written bit by bit where it is.  That a write which has begun also ends is a matter
of its own: the guarded write, which stops at a place behind the end, does what the write does.
-/

namespace TimeSeries

/-! ### Requests -/

/-- What a buffer is asked to do. -/
inductive WriteRequest where
  | bit (bit : Bool)
  | bits (value : UInt64) (width : UInt8)
  | grow (memory : Memory) (additional : Nat)
  | trim (bytes : Nat)

/-- Why a buffer does not do what it is asked to. -/
inductive Refusal where
  | fault (cause : PackingError)
  | breach (cause : Breach)

/-- What a reader is asked for. -/
inductive ReadRequest where
  | bit
  | bits (width : UInt8)

/-- The outcome of an attempt to change `b`, and the buffer there is then. -/
def BitBuffer.settle {ε : Type} (b : BitBuffer) (refusal : ε → Refusal) :
    Except ε BitBuffer → Except Refusal Unit × BitBuffer
  | .ok changed => (.ok (), changed)
  | .error e => (.error (refusal e), b)

/-- What `b` answers to a request, and what it is then. -/
def BitBuffer.ask (b : BitBuffer) : WriteRequest → Except Refusal Unit × BitBuffer
  | .bit bit => b.settle .fault (b.writeBit bit)
  | .bits value width => b.settle .fault (b.write value width.toNat)
  | .grow memory additional => b.settle .fault (b.grow memory additional)
  | .trim bytes => b.settle .breach (b.trimTo bytes)

/-- What `r` answers to a request, and where it is then. -/
def BitReader.ask (r : BitReader) : ReadRequest → Except PackingError Nat × BitReader
  | .bit =>
    match BitReader.readBit r with
    | .ok bit r => (.ok bit.toNat, r)
    | .error e r => (.error e, r)
  | .bits width =>
    match BitReader.readBits width.toNat r with
    | .ok value r => (.ok value.toNat, r)
    | .error e r => (.error e, r)

/-! ### Lists of bits -/

/-- A list of bits, and the number of bytes there are for it. -/
structure Written where
  bits : List Bool
  capacity : Nat

namespace Written

/-- The number of bits for which `w` has room. -/
def free (w : Written) : Nat := 8 * w.capacity - w.bits.length

/-- The number of bytes that the bits of `w` take. -/
def used (w : Written) : Nat := (w.bits.length + 7) / 8

/-- How the list of bits `w` answers a request, and what it is afterwards. -/
inductive Answers (w : Written) : WriteRequest → Except Refusal Unit → Written → Prop where
  /-- A bit is appended. -/
  | bit {bit : Bool} (hroom : 1 ≤ w.free) :
      Answers w (.bit bit) (.ok ()) { w with bits := w.bits ++ [bit] }
  /-- There is no room for a bit. -/
  | bitFull {bit : Bool} (hfull : w.free < 1) :
      Answers w (.bit bit) (.error (.fault (.bufferFull 1 w.free))) w
  /-- The low bits of a number are appended, the most significant one first. -/
  | bits {value : UInt64} {width : UInt8} (hwidth : width.toNat ≤ 64)
      (hroom : width.toNat ≤ w.free) :
      Answers w (.bits value width) (.ok ())
        { w with bits := w.bits ++
            (List.range width.toNat).map fun i => value.toNat.testBit (width.toNat - 1 - i) }
  /-- A number does not have so many bits. -/
  | wide {value : UInt64} {width : UInt8} (hwidth : 64 < width.toNat) :
      Answers w (.bits value width) (.error (.fault (.invalid (.wideWrite width.toNat)))) w
  /-- There is no room for so many bits. -/
  | full {value : UInt64} {width : UInt8} (hwidth : width.toNat ≤ 64)
      (hfull : w.free < width.toNat) :
      Answers w (.bits value width) (.error (.fault (.bufferFull width.toNat w.free))) w
  /-- There are more bytes. -/
  | grown {memory : Memory} {additional : Nat} :
      Answers w (.grow memory additional) (.ok ())
        { w with capacity := w.capacity + additional }
  /-- The memory for more bytes cannot be had. -/
  | refused {memory : Memory} {additional : Nat} {shortage : Shortage}
      (hmemory : ¬memory.Reaches (w.capacity + additional)) :
      Answers w (.grow memory additional) (.error (.fault (.outOfMemory shortage))) w
  /-- There are as many bytes as are asked for. -/
  | trimmed {bytes : Nat} (hused : w.used ≤ bytes) :
      Answers w (.trim bytes) (.ok ()) { w with capacity := bytes }
  /-- The bits take more bytes than are asked for. -/
  | cut {bytes : Nat} (hused : bytes < w.used) :
      Answers w (.trim bytes) (.error (.breach (.trimBelowUse bytes w.bits.length))) w

end Written

/-- What the list `bits` answers to a read, and what is left of it. -/
inductive ReadRequest.Answers (bits : List Bool) :
    ReadRequest → Except PackingError Nat → List Bool → Prop where
  /-- The next bit is given. -/
  | bit {bit : Bool} {left : List Bool} (hbits : bits = bit :: left) :
      Answers bits .bit (.ok bit.toNat) left
  /-- No bit is left. -/
  | ended (hbits : bits = []) : Answers bits .bit (.error (.corrupted .noBitLeft)) bits
  /-- The next bits are given, as the number that they stand for. -/
  | bits {width : UInt8} (hwidth : width.toNat ≤ 64) (hleft : width.toNat ≤ bits.length) :
      Answers bits (.bits width) (.ok (numberOf (bits.take width.toNat)))
        (bits.drop width.toNat)
  /-- A number does not have so many bits. -/
  | wide {width : UInt8} (hwidth : 64 < width.toNat) :
      Answers bits (.bits width) (.error (.invalid (.wideRead width.toNat))) bits
  /-- Not so many bits are left. -/
  | short {width : UInt8} (hwidth : width.toNat ≤ 64) (hleft : bits.length < width.toNat) :
      Answers bits (.bits width) (.error (.corrupted (.tooFewBits width.toNat bits.length))) bits

/-- Asked for bits one time after the other, the reader gives those of the list.  At every point it
is behind the bits that are gone, and at its end when none is left and not before.  The list was
`total` bits long at first. -/
inductive BitReader.Slices (total : Nat) : BitReader → List Bool → List ReadRequest → Prop where
  | stop {r : BitReader} {bits : List Bool} (hposition : r.position + bits.length = total)
      (hend : r.atEnd = true ↔ bits = []) : Slices total r bits []
  | next {r : BitReader} {bits left : List Bool} {request : ReadRequest}
      {requests : List ReadRequest} (hposition : r.position + bits.length = total)
      (hend : r.atEnd = true ↔ bits = []) (hanswers : request.Answers bits (r.ask request).1 left)
      (hslices : Slices total (r.ask request).2 left requests) :
      Slices total r bits (request :: requests)

/-! ### Writing bit by bit -/

namespace Guarded

/-- Sets or clears the bit behind the written ones, in the byte that it is in. -/
def putBit (bit : Bool) : Guarded PackingError BitBuffer PUnit := fun b =>
  if h : 1 ≤ b.free then .ok ⟨⟩ (b.put bit h)
  else .error (.inl (.outOfBounds (b.length / 8) b.bytes.size)) b

/-- Puts the low bits of `value` behind the written ones, whether there is room or not. -/
def putBits (value : UInt64) : (width : Nat) → Guarded PackingError BitBuffer PUnit
  | 0 => return ⟨⟩
  | width + 1 => do
    require (width < 64) (.shift width)
    putBit (value >>> UInt64.ofNat width &&& 1 == 1)
    putBits value width

/-- Writes the low bits of `value` one by one, after a look at the room there is. -/
def write (value : UInt64) (width : Nat) : Guarded PackingError BitBuffer PUnit := fun b =>
  if 64 < width then .error (.inr (.invalid (.wideWrite width))) b
  else if b.free < width then .error (.inr (.bufferFull width b.free)) b
  else putBits value width b

end Guarded

/-! ### Behaviour -/

namespace BitBuffer

/-- The buffer `b` shows the list `w` and no others: it is as long, it reads as the list, a write
into it that begins is done to its end, and if it was `blank` once, it has only zeros behind the
list. -/
structure Shows (blank : Bool) (b : BitBuffer) (w : Written) : Prop where
  length_eq : b.length = w.bits.length
  capacity_eq : b.capacity = w.capacity
  length_le : w.bits.length ≤ 8 * w.capacity
  slices : ∀ requests, b.reader.Slices w.bits.length w.bits requests
  write_eq : ∀ value width,
    Guarded.write value width b
      = match b.write value width with
        | .ok b' => .ok ⟨⟩ b'
        | .error e => .error (.inr e) b
  clean : blank = true → ∀ i, w.bits.length ≤ i → bitAt b.bytes i = false

/-- Asked for one thing after the other, the buffer gives the answers of the list. -/
inductive Follows (blank : Bool) : BitBuffer → Written → List WriteRequest → Prop where
  | stop {b : BitBuffer} {w : Written} (hshows : b.Shows blank w) : Follows blank b w []
  | next {b : BitBuffer} {w w' : Written} {request : WriteRequest}
      {requests : List WriteRequest} (hshows : b.Shows blank w)
      (hanswers : w.Answers request (b.ask request).1 w')
      (hfollows : Follows blank (b.ask request).2 w' requests) :
      Follows blank b w (request :: requests)

/-- The ways to come by a buffer, with the bits it has then: blank, blank if the memory can be had,
and from bytes of which some bits count as written. -/
inductive Started : (blank : Bool) → BitBuffer → List Bool → Prop where
  | zeros (bytes : Nat) : Started true (.zeros bytes) []
  | allocate {memory : Memory} {bytes : Nat} {b : BitBuffer}
      (h : allocate memory bytes = .ok b) : Started true b []
  | ofBytes {bytes : Array UInt8} {length : Nat} {b : BitBuffer}
      (h : ofBytes bytes length = .ok b) :
      Started false b ((List.range length).map (bitAt bytes))

end BitBuffer

/-! ### Reading -/

namespace BitReader

variable {r : BitReader} {bits : List Bool} {total : Nat}

/-- The reader `r` is before `bits`, which are the last of `total`. -/
structure Before (total : Nat) (r : BitReader) (bits : List Bool) : Prop where
  rest_eq : r.rest = bits
  position_eq : r.position + bits.length = total

namespace Before

theorem left_eq
    (h : r.Before total bits) :
  r.left = bits.length
  := by
  rw [← length_rest, h.rest_eq]

theorem advance
    (h : r.Before total bits) {width : Nat} (hle : width ≤ bits.length) :
  (r.advance width).Before total (bits.drop width)
  := by
  have hposition := h.position_eq
  constructor
  · rw [rest_advance, h.rest_eq]
  · show r.position + width + (bits.drop width).length = total
    rw [List.length_drop]
    omega

/-- If `r` is before `bits`, the next `width` of them are read as the number that they stand for. -/
theorem exists_readBits_eq
    (h : r.Before total bits) {width : Nat} (hwidth : width ≤ 64) (hle : width ≤ bits.length) :
  ∃ value, readBits width r = .ok value (r.advance width)
    ∧ value.toNat = numberOf (bits.take width)
  := by
  have htake : (bits.take width).length = width := List.length_take_of_le hle
  have hread := reads_readBits (show (bits.take width).length ≤ 64 by omega) r (bits.drop width)
    (by rw [List.take_append_drop, h.rest_eq])
  have hlt := numberOf_lt (bits.take width)
  rw [htake] at hread hlt
  have hpow : 2 ^ width ≤ 2 ^ 64 := Nat.pow_le_pow_right (by decide) hwidth
  use UInt64.ofNat (numberOf (bits.take width)), hread
  apply UInt64.toNat_ofNat_of_lt
  apply Nat.lt_of_lt_of_le hlt hpow

/-- One read: if `r` is before `bits`, it answers as the list, and is before what is left. -/
theorem exists_answers
    (h : r.Before total bits) (request : ReadRequest) :
  ∃ left, request.Answers bits (r.ask request).1 left ∧ (r.ask request).2.Before total left
  := by
  cases request with
  | bit =>
    cases bits with
    | nil =>
      have hread : readBit r = .error (.corrupted .noBitLeft) r :=
        if_pos ((atEnd_iff r).mpr h.rest_eq)
      rw [ask, hread]
      exact ⟨[], .ended rfl, h⟩
    | cons bit left =>
      have hread := reads_readBit bit r left h.rest_eq
      rw [ask, hread]
      exact ⟨left, .bit rfl, h.advance (Nat.le_add_left _ _)⟩
  | bits width =>
    by_cases hwidth : 64 < width.toNat
    · have hread : readBits width.toNat r = .error (.invalid (.wideRead width.toNat)) r :=
        if_pos hwidth
      rw [ask, hread]
      exact ⟨bits, .wide hwidth, h⟩
    · have hwidth := Nat.le_of_not_lt hwidth
      by_cases hshort : bits.length < width.toNat
      · have hread : readBits width.toNat r
            = .error (.corrupted (.tooFewBits width.toNat bits.length)) r := by
          rw [readBits, if_neg (Nat.not_lt_of_le hwidth), h.left_eq, if_pos hshort]
        rw [ask, hread]
        exact ⟨bits, .short hwidth hshort, h⟩
      · have hle := Nat.le_of_not_lt hshort
        obtain ⟨value, hread, hvalue⟩ := h.exists_readBits_eq hwidth hle
        rw [ask, hread]
        dsimp only
        rw [hvalue]
        exact ⟨bits.drop width.toNat, .bits hwidth hle, h.advance hle⟩

theorem slices
    (h : r.Before total bits) (requests : List ReadRequest) :
  r.Slices total bits requests
  := by
  induction requests generalizing r bits with
  | nil =>
    apply Slices.stop h.position_eq
    rw [atEnd_iff, h.rest_eq]
  | cons request requests ih =>
    obtain ⟨left, hanswers, hleft⟩ := h.exists_answers request
    apply Slices.next h.position_eq _ hanswers (ih hleft)
    rw [atEnd_iff, h.rest_eq]

end Before

end BitReader

/-- A fresh reader of `b` is before all that was written. -/
theorem BitBuffer.before_reader
    (b : BitBuffer) :
  b.reader.Before b.toList.length b.toList
  where
  rest_eq := b.rest_reader
  position_eq := Nat.zero_add _

/-! ### Writing -/

theorem lowBits_eq_map
    (value : UInt64) (width : Nat) :
  lowBits value width = (List.range width).map fun i => value.toNat.testBit (width - 1 - i)
  := by
  apply List.ext_getElem?
  intro k
  rw [getElem?_lowBits, List.getElem?_map]
  by_cases hk : k < width
  · rw [if_pos hk, List.getElem?_range hk, Option.map_some]
  · rw [if_neg hk, List.getElem?_eq_none (by rw [List.length_range]; omega), Option.map_none]

namespace Guarded

/-- If `value` is shifted by `place`, its lowest bit is the one at `place`. -/
theorem shiftRight_and_one_beq
    (value : UInt64) {place : Nat} (hplace : place < 64) :
  (value >>> UInt64.ofNat place &&& 1 == 1) = value.toNat.testBit place
  := by
  have hshift : (UInt64.ofNat place).toNat = place := by
    rw [UInt64.toNat_ofNat']
    omega
  rw [Nat.testBit_eq_decide_div_mod_eq, Bool.eq_iff_iff, beq_iff_eq, decide_eq_true_eq,
    ← UInt64.toNat_inj, UInt64.toNat_and, UInt64.toNat_shiftRight, hshift,
    Nat.mod_eq_of_lt hplace, Nat.shiftRight_eq_div_pow, UInt64.toNat_one, Nat.and_one_is_mod]

/-- If there is room in `b` for the low bits of `value`, they are put into it bit by bit. -/
theorem putBits_eq
    (b : BitBuffer) (value : UInt64) {width : Nat} (hwidth : width ≤ 64)
    (hroom : (lowBits value width).length ≤ b.free) :
  putBits value width b = .ok ⟨⟩ (b.append (lowBits value width) hroom)
  := by
  induction width generalizing b with
  | zero => rfl
  | succ width ih =>
    have hfirst : 1 ≤ b.free := by
      rw [length_lowBits] at hroom
      omega
    rw [putBits, shiftRight_and_one_beq value (by omega), require_of (by omega)]
    show (putBit (value.toNat.testBit width) >>= fun _ => putBits value width) b = _
    simp only [Bind.bind, EStateM.bind, putBit, dif_pos hfirst]
    apply ih _ (by omega)

/-- Writing `value` bit by bit is done to its end or not begun, as `b.write value width` says. -/
theorem write_eq
    (b : BitBuffer) (value : UInt64) (width : Nat) :
  write value width b
    = match b.write value width with
      | .ok b' => .ok ⟨⟩ b'
      | .error e => .error (.inr e) b
  := by
  rw [write, BitBuffer.write]
  by_cases hwidth : 64 < width
  · rw [if_pos hwidth, if_pos hwidth]
  · rw [if_neg hwidth, if_neg hwidth]
    by_cases hroom : width ≤ b.free
    · rw [if_neg (Nat.not_lt_of_le hroom), dif_pos hroom]
      apply putBits_eq b value (Nat.le_of_not_lt hwidth)
    · rw [if_pos (Nat.lt_of_not_le hroom), dif_neg hroom]

end Guarded

namespace BitBuffer

variable {b : BitBuffer} {blank : Bool} {bits : List Bool}

/-- If `b` is clean where it was `blank` once, it shows its own bits. -/
theorem shows_toList
    (hclean : blank = true → b.Clean) :
  b.Shows blank ⟨b.toList, b.capacity⟩
  := by
  constructor
  · rw [length_toList]
  · rfl
  · rw [length_toList]
    apply b.length_le
  · apply b.before_reader.slices
  · apply Guarded.write_eq
  · rw [length_toList]
    apply hclean

/-- One request to `b` is answered as the list of its bits answers it. -/
theorem answers_ask
    (b : BitBuffer) (request : WriteRequest) :
  Written.Answers ⟨b.toList, b.capacity⟩ request (b.ask request).1
    ⟨(b.ask request).2.toList, (b.ask request).2.capacity⟩
  := by
  have hfree : Written.free ⟨b.toList, b.capacity⟩ = b.free := by
    rw [Written.free, length_toList]
    rfl
  have hused : Written.used ⟨b.toList, b.capacity⟩ = b.usedBytes := by
    rw [Written.used, length_toList]
    rfl
  cases request with
  | bit bit =>
    rw [ask, writeBit]
    by_cases hroom : 1 ≤ b.free
    · have hcapacity : (b.put bit hroom).capacity = b.capacity := b.capacity_append [bit] hroom
      rw [dif_pos hroom, settle, toList_put, hcapacity]
      apply Written.Answers.bit
      rwa [hfree]
    · rw [dif_neg hroom, ← hfree]
      apply Written.Answers.bitFull
      omega
  | bits value width =>
    rw [ask, write]
    by_cases hwidth : 64 < width.toNat
    · rw [if_pos hwidth]
      apply Written.Answers.wide hwidth
    · rw [if_neg hwidth]
      by_cases hroom : width.toNat ≤ b.free
      · rw [dif_pos hroom, settle, toList_append, capacity_append]
        dsimp only
        rw [lowBits_eq_map]
        apply Written.Answers.bits (Nat.le_of_not_lt hwidth)
        rwa [hfree]
      · rw [dif_neg hroom, ← hfree]
        apply Written.Answers.full (Nat.le_of_not_lt hwidth)
        omega
  | grow memory additional =>
    rw [ask]
    obtain hgrow | ⟨⟨shortage, hgrow⟩, hmemory⟩ := grow_cases memory b additional
    · rw [hgrow, settle, toList_extend, capacity_extend]
      apply Written.Answers.grown
    · rw [hgrow]
      apply Written.Answers.refused hmemory
  | trim bytes =>
    rw [ask, trimTo]
    by_cases hbytes : b.usedBytes ≤ bytes
    · rw [dif_pos hbytes, settle, toList_resize, capacity_resize]
      apply Written.Answers.trimmed
      rwa [hused]
    · rw [dif_neg hbytes, ← length_toList]
      apply Written.Answers.cut
      omega

/-- If `b` is clean, it is clean after any request. -/
theorem Clean.ask
    (hb : b.Clean) (request : WriteRequest) :
  (b.ask request).2.Clean
  := by
  cases request with
  | bit bit =>
    rw [BitBuffer.ask, writeBit]
    split
    · rename_i hroom
      apply hb.put bit hroom
    · apply hb
  | bits value width =>
    rw [BitBuffer.ask, write]
    split
    · apply hb
    · split
      · apply hb.append
      · apply hb
  | grow memory additional =>
    rw [BitBuffer.ask]
    obtain hgrow | ⟨⟨shortage, hgrow⟩, _⟩ := grow_cases memory b additional
    · rw [hgrow]
      apply hb.extend
    · rw [hgrow]
      apply hb
  | trim bytes =>
    rw [BitBuffer.ask, trimTo]
    split
    · rename_i hused
      apply hb.resize bytes hused
    · apply hb

theorem follows_of_clean
    (hclean : blank = true → b.Clean) (requests : List WriteRequest) :
  b.Follows blank ⟨b.toList, b.capacity⟩ requests
  := by
  induction requests generalizing b with
  | nil => apply Follows.stop (shows_toList hclean)
  | cons request requests ih =>
    apply Follows.next (shows_toList hclean) (b.answers_ask request)
    apply ih
    intro hblank
    apply (hclean hblank).ask

namespace Started

theorem toList_eq
    (h : Started blank b bits) :
  b.toList = bits
  := by
  cases h with
  | zeros bytes => rfl
  | allocate h =>
    rw [eq_zeros_of_allocate h]
    rfl
  | ofBytes h =>
    obtain ⟨rfl, rfl⟩ := parts_of_ofBytes h
    rfl

theorem clean
    (h : Started true b bits) :
  b.Clean
  := by
  cases h with
  | zeros bytes => apply clean_zeros
  | allocate h =>
    rw [eq_zeros_of_allocate h]
    apply clean_zeros

end Started

/-- If `b` is started with `bits`, it behaves as this list, whatever the `requests` are. -/
theorem follows_of_started
    (h : Started blank b bits) (requests : List WriteRequest) :
  b.Follows blank ⟨bits, b.capacity⟩ requests
  := by
  rw [← h.toList_eq]
  apply follows_of_clean
  rintro rfl
  apply h.clean

/-- A case of `follows_of_started`: a byte of which three bits count as written is written full,
refuses one bit more, grows by two bytes and is cut to one of them; less than that it cannot be cut
to. -/
theorem follows_of_started_amid_byte :
  ofBytes #[0b10111111] 3 = .ok ⟨#[0b10111111], 3, by decide⟩
    ∧ Follows false ⟨#[0b10111111], 3, by decide⟩ ⟨[true, false, true], 1⟩
      [.bits 0b1001 4, .bit false, .bit true, .grow .ample 2, .bits 0b100000001 5, .bits 0 65,
        .trim 2, .trim 1]
  := by
  have hbytes : ofBytes #[0b10111111] 3 = .ok ⟨#[0b10111111], 3, by decide⟩ := rfl
  use hbytes
  apply follows_of_started (.ofBytes hbytes)

end BitBuffer

end TimeSeries
