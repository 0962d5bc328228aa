import Mathlib.Order.Bounds.Basic
import TimeSeries.Proofs.Chunk.Canonical
import TimeSeries.Proofs.Chunk.Growing
import TimeSeries.Proofs.Chunk.Loaded

/-!
# Conversions

A conversion makes a chunk of the other encoding from the samples, one after the other.  It is
done when none is missing.  A plain chunk gets the slots that the bytes allow, or one for each
sample if that is more.  A packed chunk starts with the bytes there were and grows when a
sample does not fit, so that in the end it has grown no more often than its bits need, and
these are the bits that additions to an empty chunk write.  In its own encoding a chunk is
taken over as it is.  So the bits of a chunk that was loaded need not be those of additions.
-/

namespace TimeSeries

namespace PackedChunk

variable {c d : PackedChunk} {s : Sample} {samples : List Sample}

/-- The `samples` are added to the first chunk one by one, none of them is refused, and the last
chunk is left. -/
inductive Adds : PackedChunk → List Sample → PackedChunk → Prop where
  | nothing {c : PackedChunk} : Adds c [] c
  | next {c d : PackedChunk} {s : Sample} {samples : List Sample}
      (hadd : (c.add s).outcome = .ok ()) (hlater : Adds (c.add s).after samples d) :
      Adds c (s :: samples) d

/-- The buffer of `c` has grown from `bytes` by no more portions than its bits need. -/
def LeastGrown (bytes : Nat) (c : PackedChunk) : Prop :=
  ∃ portions, c.capacity = bytes + growthBytes * portions
    ∧ IsLeast {n | c.buffer.length ≤ 8 * (bytes + growthBytes * n)} portions

/-! ### Bits -/

theorem length_packed
    (c : PackedChunk) (s : Sample) :
  (c.packed s).buffer.length = c.buffer.length + c.state.cost c.count s
  := by
  rw [← BitBuffer.length_toList, toList_packed, List.length_append, BitBuffer.length_toList]
  rfl

/-- If `s` is appended to `c`, the stream is no shorter than before. -/
theorem length_le_appended
    (c : PackedChunk) (s : Sample) :
  c.buffer.length ≤ (c.appended s).buffer.length
  := by
  rw [appended]
  split
  · apply Nat.le_refl
  · rw [length_packed]
    apply Nat.le_add_right

theorem length_le_appendedAll
    (c : PackedChunk) (samples : List Sample) :
  c.buffer.length ≤ (c.appendedAll samples).buffer.length
  := by
  induction samples generalizing c with
  | nil => apply Nat.le_refl
  | cons s samples ih => apply Nat.le_trans (c.length_le_appended s) (ih (c.appended s))

/-- If the bits of `c.appended s` are no more than those of the buffer of `c`, there is room for
`s`. -/
theorem room_of_length_appended_le
    (h : (c.appended s).buffer.length ≤ 8 * c.capacity) :
  c.count = 0 ∨ c.Fits s
  := by
  by_cases hcount : c.count = 0
  · left
    apply hcount
  · right
    rw [appended, if_neg hcount, length_packed] at h
    have hle := c.buffer.length_le
    rw [capacity, BitBuffer.capacity] at h
    show c.state.cost c.count s ≤ 8 * c.buffer.bytes.size - c.buffer.length
    omega

/-! ### Growth -/

theorem leastGrown_new
    (bytes : Nat) :
  (new bytes).LeastGrown bytes
  := by
  use 0, capacity_new bytes
  constructor
  · apply Nat.zero_le
  · intro n _
    apply Nat.zero_le

/-- If `c` has grown from `bytes` by no more than it needed, so has `c.appended s`, as the buffer
grows only for a sample that does not fit. -/
theorem LeastGrown.appended
    {bytes : Nat} (h : c.LeastGrown bytes) (s : Sample) :
  (c.appended s).LeastGrown bytes
  := by
  obtain ⟨portions, hcapacity, hholds, hleast⟩ := h
  have hle := (c.appended s).buffer.length_le
  by_cases hroom : c.count = 0 ∨ c.Fits s
  · have hsame := capacity_appended_of_room hroom
    use portions, hsame.trans hcapacity
    constructor
    · rw [Set.mem_ofPred_eq, ← hcapacity, ← hsame]
      apply hle
    · intro n hn
      apply hleast
      apply Nat.le_trans (c.length_le_appended s) hn
  · obtain ⟨hcount, hfits⟩ := not_or.mp hroom
    have hgrown : (c.appended s).capacity = bytes + growthBytes * (portions + 1) := by
      rw [PackedChunk.appended, if_neg hcount, capacity_packed, if_neg hfits, hcapacity,
        Nat.mul_succ]
      omega
    use portions + 1, hgrown
    constructor
    · rw [Set.mem_ofPred_eq, ← hgrown]
      apply hle
    · intro n hn
      by_contra hlt
      apply hroom
      apply room_of_length_appended_le
      have hportions : growthBytes * n ≤ growthBytes * portions := Nat.mul_le_mul_left _ (by omega)
      rw [hcapacity]
      apply Nat.le_trans hn
      omega

theorem LeastGrown.appendedAll
    {bytes : Nat} (h : c.LeastGrown bytes) (samples : List Sample) :
  (c.appendedAll samples).LeastGrown bytes
  := by
  induction samples generalizing c with
  | nil => apply h
  | cons s samples ih => apply ih (h.appended s)

/-! ### Additions one by one -/

theorem after_add_of_ok
    (h : (c.add s).outcome = .ok ()) :
  (c.add s).after = c.appended s
  := ((c.append_ends .ample s false).of_ok h).1

/-- If adding `samples` to `c` leaves `d`, then `d` is what appending them leaves. -/
theorem Adds.eq
    (h : c.Adds samples d) :
  d = c.appendedAll samples
  := by
  induction h with
  | nothing => rfl
  | next hadd _ ih =>
    rw [after_add_of_ok hadd] at ih
    apply ih

/-- If `c` holds `samples`, `more` follow them and the bits of all have room in the buffer, then
adding `more` is not refused, and the buffer stays as large. -/
theorem Holds.adds
    (h : c.Holds samples) (more : List Sample)
    (hincreasing : (samples ++ more).Pairwise fun a b => a.timestamp < b.timestamp)
    (hroom : (c.appendedAll more).buffer.length ≤ 8 * c.capacity) :
  c.Adds more (c.appendedAll more) ∧ (c.appendedAll more).capacity = c.capacity
  := by
  induction more generalizing c samples with
  | nil => exact ⟨.nothing, rfl⟩
  | cons s more ih =>
    rw [← List.singleton_append, ← List.append_assoc] at hincreasing
    have hlast := h.last_lt_of_increasing (List.pairwise_append.mp hincreasing).1
    have hlength := (c.appended s).length_le_appendedAll more
    have hfirst : c.count = 0 ∨ c.Fits s :=
      room_of_length_appended_le (Nat.le_trans hlength hroom)
    have hadd : c.add s = .done (c.appended s) () := append_of_room .ample false hfirst hlast
    have hcapacity := capacity_appended_of_room hfirst
    rw [← hcapacity] at hroom
    obtain ⟨hadds, hsame⟩ := ih (h.appended s) hincreasing hroom
    constructor
    · apply Adds.next
      · rw [hadd]
        rfl
      · rw [hadd]
        apply hadds
    · apply hsame.trans hcapacity

/-- If `c` packs the samples of `l`, it is what adding them to an empty chunk of its size leaves,
and like what that leaves in a chunk of any size. -/
theorem Packs.adds
    {l : Timeline} (h : c.Packs l.samples) :
  (new c.capacity).Adds l.samples c
    ∧ ∀ bytes d, (new bytes).Adds l.samples d → d.Alike c
  := by
  have hpacks (bytes : Nat) : ((new bytes).appendedAll l.samples).Packs l.samples :=
    (packs_new bytes).appendedAll l.samples
  constructor
  · have hroom : ((new c.capacity).appendedAll l.samples).buffer.length
        ≤ 8 * (new c.capacity).capacity := by
      rw [((hpacks c.capacity).alike h).length, capacity_new]
      apply c.buffer.length_le
    obtain ⟨hadds, hcapacity⟩ := (packs_new c.capacity).holds.adds _ l.increasing hroom
    rw [capacity_new] at hcapacity
    rwa [(hpacks c.capacity).eq h hcapacity] at hadds
  · rintro bytes d hd
    rw [hd.eq]
    apply (hpacks bytes).alike h

end PackedChunk

namespace Chunk

variable {c : Chunk} {l : Timeline}

/-- The chunks `c` and `d` show the same samples. -/
def Matches (c d : Chunk) : Prop := ∃ l, c.Shows l ∧ d.Shows l

/-- The chunk `d` is `c` in the encoding `target`: with its samples, and with the room and the bits
that `target` calls for. -/
structure Conversion (c : Chunk) (target : Encoding) (d : Chunk) : Prop where
  encoding : d.encoding = target
  valid : d.Valid
  sustains : ∀ e, d.Leads e → ∃ l, e.Sustains l
  shows : c.Matches d
  own : target = c.encoding → d = c
  back : ∀ memory, (d.encoding = .plain → c.encoding = .packed → memory.Reaches d.reach) →
    ∃ e, (d.convert memory c.encoding).outcome = .ok e ∧ e.encoding = c.encoding ∧ c.Matches e
  slots : ∀ p, d = plain p → p.slots = max c.length (c.capacity / Sample.byteSize)
  bytes : ∀ p, d = packed p → p.LeastGrown c.capacity
  /-- A packed chunk is taken over with its bits, which need not be those of additions if they
  come from elsewhere. -/
  bits : (∀ q, c = packed q → q.Built) → ∀ p, d = packed p →
    (PackedChunk.new p.capacity).Adds c.samples p
      ∧ ∀ bytes e, (PackedChunk.new bytes).Adds c.samples e → e.Alike p

/-! ### What chunks are converted to -/

namespace Converted

variable {target : Encoding} {d : Chunk}

theorem eq_own
    (h : c.Converted l target d) (hown : target = c.encoding) :
  d = c
  := by
  cases h with
  | own => rfl
  | unpacked hsource =>
    rw [hsource] at hown
    cases hown
  | repacked hsource =>
    rw [hsource] at hown
    cases hown

theorem slots_eq
    (h : c.Converted l target d) {p : PlainChunk} (hp : d = plain p) :
  p.slots = max c.length (c.capacity / Sample.byteSize)
  := by
  cases h with
  | own =>
    subst hp
    have hslots : (plain p).capacity / Sample.byteSize = p.slots :=
      Nat.mul_div_cancel _ (by decide)
    rw [hslots]
    apply (Nat.max_eq_right p.length_le).symm
  | unpacked _ _ hslots =>
    cases hp
    apply hslots
  | repacked => cases hp

theorem leastGrown
    (h : c.Converted l target d) {p : PackedChunk} (hp : d = packed p) :
  p.LeastGrown c.capacity
  := by
  cases h with
  | own =>
    subst hp
    use 0, rfl
    constructor
    · apply p.buffer.length_le
    · intro n _
      apply Nat.zero_le
  | unpacked => cases hp
  | repacked =>
    cases hp
    apply (PackedChunk.leastGrown_new c.capacity).appendedAll

theorem packs
    (h : c.Converted l target d) (hc : c.Holds l) (hbuilt : ∀ q, c = packed q → q.Built)
    {p : PackedChunk} (hp : d = packed p) :
  p.Packs l.samples
  := by
  cases h with
  | own =>
    subst hp
    obtain ⟨l', hl'⟩ := (hbuilt p rfl).canonical
    have hsamples : p.samples = l.samples := hc.samples_eq
    rw [← hsamples, hl'.holds.samples_eq]
    apply hl'
  | unpacked => cases hp
  | repacked =>
    cases hp
    apply (PackedChunk.packs_new c.capacity).appendedAll l.samples

end Converted

/-- If `c` holds `l` and `memory` reaches far enough, `c.convert memory target` succeeds with what
`Converted` says. -/
theorem Holds.convert_of_reaches
    (h : c.Holds l) {memory : Memory} {target : Encoding}
    (hmemory : c.encoding = .plain → target = .packed → memory.Reaches c.reach) :
  ∃ d, (c.convert memory target).outcome = .ok d ∧ c.Converted l target d
  := by
  rcases h.convert_converted memory target with hconverted | ⟨e, _, hsource, htarget, hrefuses⟩
  · apply hconverted
  · cases hrefuses.not_reaches (hmemory hsource htarget)

/-- If `c` is reachable and `memory` reaches far enough, `c.convert memory target` succeeds and
leads to `c` in the encoding `target`.  Only the packing of a plain chunk asks for memory. -/
theorem conversion_of_reaches
    (h : c.Reachable) {memory : Memory} {target : Encoding}
    (hmemory : c.encoding = .plain → target = .packed → memory.Reaches c.reach) :
  ∃ d, (c.convert memory target).outcome = .ok d ∧ c.Conversion target d
  := by
  obtain ⟨l, hl⟩ := h.holds
  obtain ⟨d, hok, hconverted⟩ := hl.convert_of_reaches hmemory
  obtain ⟨hd, hencoding⟩ := hconverted.holds hl
  use d, hok
  constructor
  · apply hencoding
  · apply hd.valid
  · intro e he
    apply (h.convert hok).sustains he
  · exact ⟨l, hl.shows, hd.shows⟩
  · apply hconverted.eq_own
  · intro memory' hback
    obtain ⟨e, hok', hconverted'⟩ := hd.convert_of_reaches hback
    obtain ⟨he, hencoding'⟩ := hconverted'.holds hd
    exact ⟨e, hok', hencoding', l, hl.shows, he.shows⟩
  · intro p hp
    apply hconverted.slots_eq hp
  · intro p hp
    apply hconverted.leastGrown hp
  · intro hbuilt p hp
    rw [hl.samples_eq]
    apply (hconverted.packs hl hbuilt hp).adds

/-- A case of `conversion_of_reaches`: two plain samples, which are packed into the bytes of their
slots. -/
theorem conversion_of_reaches_packed :
  let c := (((Chunk.new .plain 32).change .ample (.add ⟨7, ⟨1⟩⟩)).after.change .ample
    (.add ⟨9, ⟨2⟩⟩)).after
  c.Reachable ∧ c.encoding = .plain ∧ Memory.ample.Reaches c.reach
    ∧ ∃ d, (c.convert .ample .packed).outcome = .ok d ∧ c.Conversion .packed d
  := by
  intro c
  have hreachable : c.Reachable := ((Chunk.Reachable.new .plain 32).change _ _).change _ _
  have hmemory : Memory.ample.Reaches c.reach := by
    constructor
    · decide +kernel
    · intro _ _
      rfl
  exact ⟨hreachable, rfl, hmemory, conversion_of_reaches hreachable fun _ _ => hmemory⟩

/-- Why `Conversion.bits` is about chunks that are `Built`: a loaded chunk whose third sample has a
change of zero in nine bits is taken over as it is, although an addition writes one bit. -/
theorem bits_ne_of_convert_own :
  let cursor : Cursor := ⟨encodeFrames [.unsigned 1, .signed 7, .count 3, .count 10,
    .bytes [0, 0, 0, 0, 0, 0, 0, 5, 64, 0], .count 75, .double ⟨4⟩, .signed 17, .signed 5,
    .double ⟨4⟩, .count 32, .count 32]⟩
  ∃ p, (packed p).Reachable ∧ load cursor = .ok (packed p) ⟨[]⟩
    ∧ (packed p).samples = [⟨7, ⟨4⟩⟩, ⟨12, ⟨4⟩⟩, ⟨17, ⟨4⟩⟩]
    ∧ ((packed p).convert .ample .packed).outcome = .ok (packed p)
    ∧ ∃ d, (PackedChunk.new 10).Adds (packed p).samples d ∧ d.buffer.toList ≠ p.buffer.toList
  := by
  intro cursor
  have hloaded : (match load cursor with
      | .ok (.packed p) rest => decide (p.samples = [⟨7, ⟨4⟩⟩, ⟨12, ⟨4⟩⟩, ⟨17, ⟨4⟩⟩]
          ∧ p.buffer.length = 75 ∧ rest = ⟨[]⟩)
      | _ => false) = true := by decide +kernel
  split at hloaded
  · rename_i p rest hload
    obtain ⟨hsamples, hlength, rfl⟩ := of_decide_eq_true hloaded
    obtain ⟨d, hadds, hadded⟩ : ∃ d, (PackedChunk.new 10).Adds
        [⟨7, ⟨4⟩⟩, ⟨12, ⟨4⟩⟩, ⟨17, ⟨4⟩⟩] d ∧ d.buffer.length = 67 := by
      obtain ⟨hadds, _⟩ := (PackedChunk.packs_new 10).holds.adds
        [⟨7, ⟨4⟩⟩, ⟨12, ⟨4⟩⟩, ⟨17, ⟨4⟩⟩] (by decide) (by decide +kernel)
      exact ⟨_, hadds, by decide +kernel⟩
    rw [← hsamples] at hadds
    use p, .load hload, hload, hsamples, rfl, d, hadds
    intro hbits
    rw [← BitBuffer.length_toList, hbits, BitBuffer.length_toList, hlength] at hadded
    omega
  · cases hloaded

end Chunk

end TimeSeries
