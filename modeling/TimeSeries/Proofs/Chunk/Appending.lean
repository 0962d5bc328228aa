import TimeSeries.Proofs.Chunk.Change
import TimeSeries.Proofs.Chunk.Content
import TimeSeries.Proofs.Chunk.Ends
import TimeSeries.Proofs.Packing.RoundTrip

/-!
# Appending to packed chunks

`c.appended s` is the chunk `c` with the sample `s` behind its others, in a buffer that
has grown by one portion if the sample did not fit.  An append that succeeds leaves this
chunk, and one that fails leaves the chunk as it was.  A chunk packs samples when it is
what appending them one after the other to an empty chunk gives, up to the size of its
buffer.
-/

namespace TimeSeries

namespace PackedChunk

/-- The bits that `c` would write for `s` fit in what is free of its buffer. -/
def Fits (c : PackedChunk) (s : Sample) : Prop :=
  (fieldBits (c.state.plan c.count s).1).length ≤ c.buffer.free

instance (c : PackedChunk) (s : Sample) : Decidable (c.Fits s) :=
  inferInstanceAs (Decidable (_ ≤ _))

/-- The chunk `c` in a buffer that has grown by one portion, `growthBytes`. -/
def grown (c : PackedChunk) : PackedChunk := { c with buffer := c.buffer.extend growthBytes }

/-- Once the buffer of `c` has grown by one portion, it has room for any `s`. -/
theorem fits_grown
    (c : PackedChunk) (s : Sample) :
  c.grown.Fits s
  := by
  have hcost := c.state.cost_le c.count s
  rw [Replay.cost, maxSampleBits] at hcost
  rw [Fits, grown]
  dsimp only
  rw [BitBuffer.free_extend, growthBytes]
  omega

/-- The chunk `c` in a buffer with room for `s`, which has grown only if it had to. -/
def widened (c : PackedChunk) (s : Sample) : PackedChunk := if c.Fits s then c else c.grown

theorem fits_widened
    (c : PackedChunk) (s : Sample) :
  (c.widened s).Fits s
  := by
  rw [widened]
  split
  · assumption
  · apply c.fits_grown

/-- The chunk `c` with `s`, for which there is room by `h`, behind the others in its stream. -/
def pushed (c : PackedChunk) (s : Sample) (h : c.Fits s) : PackedChunk where
  buffer := c.buffer.append (fieldBits (c.state.plan c.count s).1) h
  count := c.count + 1
  base := c.base
  state := (c.state.plan c.count s).2

/-- The chunk `c` with `s` behind the others in its stream. -/
def packed (c : PackedChunk) (s : Sample) : PackedChunk :=
  (c.widened s).pushed s (c.fits_widened s)

/-- The chunk `c` with `s` behind its others.  The first sample is the base and takes no bits. -/
def appended (c : PackedChunk) (s : Sample) : PackedChunk :=
  if c.count = 0 then { c with base := s, state := .start s, count := 1 } else c.packed s

/-- The chunk `c` with each of `samples` behind its others. -/
def appendedAll (c : PackedChunk) (samples : List Sample) : PackedChunk :=
  samples.foldl appended c

theorem packed_of_fits
    {c : PackedChunk} {s : Sample} (h : c.Fits s) :
  c.packed s = c.pushed s h
  := by
  have hwidened : c.widened s = c := if_pos h
  simp only [packed, hwidened]

theorem packed_of_not_fits
    {c : PackedChunk} {s : Sample} (h : ¬c.Fits s) :
  c.packed s = c.grown.pushed s (c.fits_grown s)
  := by
  have hwidened : c.widened s = c.grown := if_neg h
  simp only [packed, hwidened]

/-! ### Steps -/

theorem pack_of_fits
    (memory : Memory) {c : PackedChunk} {s : Sample} (grow : Bool) (hcount : c.count ≠ 0)
    (h : c.Fits s) :
  c.pack memory s grow = .done (c.pushed s h) ()
  := by
  have hencode := encode_eq (Nat.pos_of_ne_zero hcount) h
  rw [pack]
  split
  · rename_i heq
    rw [hencode] at heq
    cases heq
    rfl
  · rename_i heq
    rw [hencode] at heq
    cases heq
  · rename_i heq
    rw [hencode] at heq
    cases heq

theorem encode_of_not_fits
    {c : PackedChunk} {s : Sample} (hcount : c.count ≠ 0) (h : ¬c.Fits s) :
  encode c.buffer c.state c.count s
    = .error (.bufferFull (c.state.cost c.count s) c.buffer.free)
  := by
  rw [encode, if_neg hcount]
  apply dif_neg h

/-- If `s` does not fit in `c`, packing is tried again in a buffer that has grown where `grow`
holds, and fails otherwise. -/
theorem pack_of_not_fits
    (memory : Memory) {c : PackedChunk} {s : Sample} (grow : Bool) (hcount : c.count ≠ 0)
    (h : ¬c.Fits s) :
  c.pack memory s grow =
    if grow then
      match c.buffer.grow memory growthBytes with
      | .ok buffer => (pack memory { c with buffer } s grow).preceded [⟨.growth, growthBytes⟩]
      | .error e => .fail c (.packing e)
    else .fail c (.full c.capacity)
  := by
  have hencode := encode_of_not_fits hcount h
  rw [pack]
  split
  · rename_i heq
    rw [hencode] at heq
    cases heq
  · split
    · split
      · rename_i hgrow
        rw [hgrow]
      · rename_i hgrow
        rw [hgrow]
    · rfl
  · rename_i hother heq
    rw [hencode] at heq
    cases heq
    cases hother _ _ rfl

/-- If `s` does not fit in `c` and the memory for one portion is had, `s` is packed behind the
others and the growth is noted. -/
theorem pack_of_grown
    {memory : Memory} {c : PackedChunk} {s : Sample} (hcount : c.count ≠ 0) (h : ¬c.Fits s)
    (hgrow : c.buffer.grow memory growthBytes = .ok (c.buffer.extend growthBytes)) :
  c.pack memory s true = (Step.done (c.packed s) ()).preceded [⟨.growth, growthBytes⟩]
  := by
  have hcount' : c.grown.count ≠ 0 := by rwa [grown]
  rw [pack_of_not_fits memory true hcount h, if_pos rfl, hgrow, packed_of_not_fits h]
  show Step.preceded _ (c.grown.pack memory s true) = _
  rw [pack_of_fits memory true hcount' (c.fits_grown s)]

/-- The step `c.pack memory s grow` leaves `c.packed s`, or leaves `c` where `s` does not fit, with
an error that says which of `grow` and `memory` was in the way. -/
theorem pack_ends
    (memory : Memory) {c : PackedChunk} (s : Sample) (grow : Bool) (hcount : c.count ≠ 0) :
  (c.pack memory s grow).Ends (fun _ d => d = c.packed s ∧ (c.Fits s ∨ grow = true))
    fun e d => d = c ∧ ¬c.Fits s
      ∧ (grow = true ∧ memory.Refuses (c.capacity + growthBytes) e
        ∨ grow = false ∧ e = .full c.capacity)
  := by
  by_cases hfits : c.Fits s
  · rw [pack_of_fits memory grow hcount hfits]
    apply Step.ends_done
    use (packed_of_fits hfits).symm
    left
    apply hfits
  · cases grow with
    | false =>
      rw [pack_of_not_fits memory false hcount hfits]
      apply Step.ends_fail
      use rfl, hfits
      right
      use rfl
    | true =>
      rcases c.buffer.grow_cases memory growthBytes with hgrow | ⟨⟨shortage, hgrow⟩, hreaches⟩
      · rw [pack_of_grown hcount hfits hgrow]
        apply Step.Ends.preceded
        apply Step.ends_done
        use rfl
        right
        rfl
      · rw [pack_of_not_fits memory true hcount hfits, if_pos rfl, hgrow]
        apply Step.ends_fail
        use rfl, hfits
        left
        use rfl, ⟨shortage, rfl⟩, hreaches

/-- Why `s` is not appended to `c`. -/
inductive Refuses (memory : Memory) (c : PackedChunk) (s : Sample) (grow : Bool) :
    ChunkError → Prop where
  | outOfOrder {last : Timestamp} (hlast : c.last? = some last) (h : s.timestamp ≤ last) :
      Refuses memory c s grow (.outOfOrder s.timestamp last)
  | full {last : Timestamp} (hlast : c.last? = some last) (h : last < s.timestamp)
      (hfits : ¬c.Fits s) (hgrow : grow = false) : Refuses memory c s grow (.full c.capacity)
  | outOfMemory {last : Timestamp} (hlast : c.last? = some last) (h : last < s.timestamp)
      (hfits : ¬c.Fits s) (hgrow : grow = true) {e : ChunkError}
      (hrefuses : memory.Refuses (c.capacity + growthBytes) e) : Refuses memory c s grow e

/-- The step `c.append memory s grow` leaves `c.appended s` with `s` after the others, or leaves `c`
for one of the reasons in `Refuses`. -/
theorem append_ends
    (memory : Memory) (c : PackedChunk) (s : Sample) (grow : Bool) :
  (c.append memory s grow).Ends
    (fun _ d => d = c.appended s ∧ (∀ last ∈ c.last?, last < s.timestamp)
      ∧ (c.count = 0 ∨ c.Fits s ∨ grow = true))
    fun e d => d = c ∧ Refuses memory c s grow e
  := by
  rw [append, appended]
  by_cases hcount : c.count = 0
  · rw [if_pos hcount, if_pos hcount, last?, if_pos hcount]
    apply Step.ends_done
    simp [hcount]
  · have hlast : c.last? = some c.state.timestamp := if_neg hcount
    rw [if_neg hcount, if_neg hcount, hlast]
    by_cases hle : s.timestamp ≤ c.state.timestamp
    · rw [if_pos hle]
      apply Step.ends_fail
      use rfl
      apply Refuses.outOfOrder hlast hle
    · rw [if_neg hle]
      rw [Int64.not_le] at hle
      apply (c.pack_ends memory s grow hcount).mono
      · rintro _ _ ⟨rfl, hfits⟩
        use rfl
        constructor
        · rintro _ ⟨⟩
          apply hle
        · right
          apply hfits
      · rintro _ _ ⟨rfl, hfits, hcause⟩
        use rfl
        rcases hcause with ⟨hgrow, hrefuses⟩ | ⟨hgrow, rfl⟩
        · apply Refuses.outOfMemory hlast hle hfits hgrow hrefuses
        · apply Refuses.full hlast hle hfits hgrow

/-! ### Contents -/

theorem toList_widened
    (c : PackedChunk) (s : Sample) :
  (c.widened s).buffer.toList = c.buffer.toList
  := by
  rw [widened]
  split
  · rfl
  · apply BitBuffer.toList_extend

theorem state_widened
    (c : PackedChunk) (s : Sample) :
  (c.widened s).state = c.state
  := by
  rw [widened, grown]
  split <;> rfl

theorem count_widened
    (c : PackedChunk) (s : Sample) :
  (c.widened s).count = c.count
  := by
  rw [widened, grown]
  split <;> rfl

theorem base_widened
    (c : PackedChunk) (s : Sample) :
  (c.widened s).base = c.base
  := by
  rw [widened, grown]
  split <;> rfl

theorem base_pushed
    {c : PackedChunk} {s : Sample} (h : c.Fits s) :
  (c.pushed s h).base = c.base
  := rfl

theorem count_pushed
    {c : PackedChunk} {s : Sample} (h : c.Fits s) :
  (c.pushed s h).count = c.count + 1
  := rfl

theorem state_pushed
    {c : PackedChunk} {s : Sample} (h : c.Fits s) :
  (c.pushed s h).state = (c.state.plan c.count s).2
  := rfl

theorem capacity_pushed
    {c : PackedChunk} {s : Sample} (h : c.Fits s) :
  (c.pushed s h).capacity = c.capacity
  := c.buffer.capacity_append _ h

theorem toList_pushed
    {c : PackedChunk} {s : Sample} (h : c.Fits s) :
  (c.pushed s h).buffer.toList = c.buffer.toList ++ fieldBits (c.state.plan c.count s).1
  := c.buffer.toList_append _ h

/-- The stream of `c.packed s` is that of `c` followed by the bits of `s`, encoded from the state of
`c`. -/
theorem toList_packed
    (c : PackedChunk) (s : Sample) :
  (c.packed s).buffer.toList = c.buffer.toList ++ fieldBits (c.state.plan c.count s).1
  := by
  rw [packed, toList_pushed, toList_widened, state_widened, count_widened]

theorem state_packed
    (c : PackedChunk) (s : Sample) :
  (c.packed s).state = (c.state.plan c.count s).2
  := by
  rw [packed, state_pushed, state_widened, count_widened]

theorem count_packed
    (c : PackedChunk) (s : Sample) :
  (c.packed s).count = c.count + 1
  := by
  rw [packed, count_pushed, count_widened]

theorem base_packed
    (c : PackedChunk) (s : Sample) :
  (c.packed s).base = c.base
  := by
  rw [packed, base_pushed, base_widened]

theorem clean_packed
    {c : PackedChunk} (s : Sample) (h : c.buffer.Clean) :
  (c.packed s).buffer.Clean
  := by
  apply BitBuffer.Clean.append
  rw [widened]
  split
  · apply h
  · apply h.extend

theorem capacity_packed
    (c : PackedChunk) (s : Sample) :
  (c.packed s).capacity = if c.Fits s then c.capacity else c.capacity + growthBytes
  := by
  rw [packed, capacity_pushed, widened]
  split
  · rfl
  · apply BitBuffer.capacity_extend

theorem capacity_appended_le
    (c : PackedChunk) (s : Sample) :
  (c.appended s).capacity ≤ c.capacity + growthBytes
  := by
  rw [appended]
  split
  · apply Nat.le_add_right
  · rw [capacity_packed]
    split
    · apply Nat.le_add_right
    · apply Nat.le_refl

theorem capacity_appendedAll_le
    (c : PackedChunk) (samples : List Sample) :
  (c.appendedAll samples).capacity ≤ c.capacity + growthBytes * samples.length
  := by
  induction samples generalizing c with
  | nil => apply Nat.le_refl
  | cons s samples ih =>
    have hfirst := c.capacity_appended_le s
    have hlater := ih (c.appended s)
    rw [List.length_cons, Nat.mul_succ]
    apply Nat.le_trans hlater
    omega

/-- If `c` holds `samples`, then `c.appended s` holds `samples ++ [s]`. -/
theorem Holds.appended
    {c : PackedChunk} {samples : List Sample} (h : c.Holds samples) (s : Sample) :
  (c.appended s).Holds (samples ++ [s])
  := by
  rw [PackedChunk.appended]
  cases h with
  | nothing hcount hbits =>
    rw [if_pos hcount]
    apply Holds.stream rfl
    dsimp only
    rw [hbits]
    apply Replays.nil
  | @stream later hcount hreplays =>
    have hsnoc := hreplays.snoc (Nat.le_refl 1) s
    rw [Nat.add_comm 1, ← hcount, ← toList_packed, ← state_packed] at hsnoc
    rw [if_neg (by omega), ← base_packed c s, List.cons_append]
    apply Holds.stream
    · rw [count_packed, hcount, List.length_append, List.length_singleton]
    · rw [base_packed]
      apply hsnoc

/-- The chunk `c` is what appending `samples` one after the other to an empty chunk gives, up to the
size of the buffer. -/
structure Packs (c : PackedChunk) (samples : List Sample) : Prop where
  count : c.count = samples.length
  base : c.base = samples.headD ⟨0, .zero⟩
  state : c.state = (Replay.start c.base).after 1 samples.tail
  bits : c.buffer.toList = (Replay.start c.base).bits 1 samples.tail
  clean : c.buffer.Clean

/-- If `c` packs `samples`, it holds them. -/
theorem Packs.holds
    {c : PackedChunk} {samples : List Sample} (h : c.Packs samples) :
  c.Holds samples
  := by
  cases samples with
  | nil => apply Holds.nothing h.count h.bits
  | cons first later =>
    have hbase : c.base = first := h.base
    rw [← hbase]
    apply Holds.stream h.count
    rw [h.bits, h.state]
    apply replays_bits _ (Nat.le_refl 1)

theorem Packs.appended
    {c : PackedChunk} {samples : List Sample} (h : c.Packs samples) (s : Sample) :
  (c.appended s).Packs (samples ++ [s])
  := by
  rw [PackedChunk.appended]
  cases samples with
  | nil =>
    have hcount : c.count = 0 := h.count
    rw [if_pos hcount]
    constructor
    · rfl
    · rfl
    · rfl
    · apply h.bits
    · apply h.clean
  | cons first later =>
    have hcount : c.count = 1 + later.length := by rw [h.count, List.length_cons, Nat.add_comm]
    have hstate := h.state
    have hbits := h.bits
    rw [List.tail_cons] at hstate hbits
    rw [if_neg (by omega)]
    constructor
    · rw [count_packed, h.count, List.length_append, List.length_singleton]
    · rw [base_packed, h.base]
      rfl
    · rw [state_packed, base_packed, List.cons_append, List.tail_cons, Replay.after_append,
        ← hstate, ← hcount]
      rfl
    · rw [toList_packed, base_packed, List.cons_append, List.tail_cons, Replay.bits_append,
        ← hstate, ← hcount, ← hbits, Replay.bits, Replay.bits, List.append_nil]
    · apply clean_packed s h.clean

/-- If `c` and `d` pack the same `samples` and have the same size, they are equal. -/
theorem Packs.eq
    {c d : PackedChunk} {samples : List Sample} (h : c.Packs samples) (h' : d.Packs samples)
    (hcapacity : c.capacity = d.capacity) :
  c = d
  := by
  have hbase : c.base = d.base := by rw [h.base, h'.base]
  have hcount : c.count = d.count := by rw [h.count, h'.count]
  have hstate : c.state = d.state := by rw [h.state, h'.state, hbase]
  have hbits : c.buffer.toList = d.buffer.toList := by rw [h.bits, h'.bits, hbase]
  have hbuffer := h.clean.eq_of_toList_eq h'.clean hbits hcapacity
  cases c
  cases d
  simp_all

/-! ### Many samples -/

theorem Holds.appendedAll
    {c : PackedChunk} {samples : List Sample} (h : c.Holds samples) (more : List Sample) :
  (c.appendedAll more).Holds (samples ++ more)
  := by
  induction more generalizing c samples with
  | nil => rwa [List.append_nil]
  | cons s more ih =>
    have hmore := ih (h.appended s)
    rwa [List.append_assoc, List.singleton_append] at hmore

theorem Packs.appendedAll
    {c : PackedChunk} {samples : List Sample} (h : c.Packs samples) (more : List Sample) :
  (c.appendedAll more).Packs (samples ++ more)
  := by
  induction more generalizing c samples with
  | nil => rwa [List.append_nil]
  | cons s more ih =>
    have hmore := ih (h.appended s)
    rwa [List.append_assoc, List.singleton_append] at hmore

theorem Holds.last_lt_of_increasing
    {c : PackedChunk} {samples : List Sample} {s : Sample} (h : c.Holds samples)
    (hincreasing : (samples ++ [s]).Pairwise fun a b => a.timestamp < b.timestamp) :
  ∀ last ∈ c.last?, last < s.timestamp
  := by
  rw [h.last?_eq]
  apply Timeline.last_lt_of_increasing hincreasing

/-- If `c` holds `samples` and `s` follows them, `c.append memory s true` leaves `c.appended s`,
unless `memory` is refused. -/
theorem append_ends_of_increasing
    (memory : Memory) {c : PackedChunk} {samples : List Sample} {s : Sample}
    (h : c.Holds samples)
    (hincreasing : (samples ++ [s]).Pairwise fun a b => a.timestamp < b.timestamp) :
  (c.append memory s true).Ends (fun _ d => d = c.appended s)
    fun e _ => memory.Refuses (c.capacity + growthBytes) e
  := by
  have hlast := h.last_lt_of_increasing hincreasing
  apply (c.append_ends memory s true).mono
  · rintro _ _ ⟨rfl, _⟩
    rfl
  · rintro _ _ ⟨rfl, hrefuses⟩
    cases hrefuses with
    | outOfOrder hsome hle =>
      cases Int64.lt_irrefl (Int64.lt_of_lt_of_le (hlast _ hsome) hle)
    | full _ _ _ hgrow => cases hgrow
    | outOfMemory _ _ _ _ hrefuses => apply hrefuses

/-- If `c` holds `samples` and `more` follow them, `c.appendAll memory more` leaves
`c.appendedAll more`, unless `memory` is refused. -/
theorem appendAll_ends
    (memory : Memory) {c : PackedChunk} {samples more : List Sample} (h : c.Holds samples)
    (hincreasing : (samples ++ more).Pairwise fun a b => a.timestamp < b.timestamp) :
  (c.appendAll memory more).Ends (fun _ d => d = c.appendedAll more)
    fun e _ => memory.Refuses (c.capacity + growthBytes * more.length) e
  := by
  induction more generalizing c samples with
  | nil =>
    apply Step.ends_done
    rfl
  | cons s more ih =>
    rw [← List.singleton_append, ← List.append_assoc] at hincreasing
    have hfirst := (List.pairwise_append.mp hincreasing).1
    have hcapacity := c.capacity_appended_le s
    rw [List.length_cons, Nat.mul_succ]
    apply Step.Ends.andThen
    · apply (append_ends_of_increasing memory h hfirst).mono_bad
      intro e _ he
      apply he.mono (by omega)
    · rintro _ _ rfl
      apply (ih (h.appended s) hincreasing).mono_bad
      intro e _ he
      apply he.mono (by omega)

end PackedChunk

end TimeSeries
