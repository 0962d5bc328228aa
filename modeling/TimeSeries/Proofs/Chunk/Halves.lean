import TimeSeries.Proofs.Chunk.Loaded
import TimeSeries.Proofs.Snapshot.Chunks

/-!
# Halves

A split leaves the older half of the samples in the chunk and gives the newer half as a chunk
of its own.  No sample is lost or touched, and each half is a chunk in its own right: it starts
at a base of its own, it can be saved and loaded, it answers all that is asked of it from then
on, and it takes just the bytes that it needs.
-/

namespace TimeSeries

/-- The part of `c` with `samples` has only the bytes that it uses, and these are no more than
writing `samples` behind the bytes of `c` takes. -/
theorem PackedChunk.capacity_part
    (c : PackedChunk) (samples : List Sample) :
  (c.part samples).capacity = (c.part samples).buffer.usedBytes
    ∧ (c.part samples).capacity ≤ c.capacity + growthBytes * samples.length
  := by
  have htight : (c.part samples).capacity
      = ((new c.capacity).appendedAll samples).buffer.usedBytes :=
    BitBuffer.capacity_resize _ _ (Nat.le_refl _)
  have hused := ((new c.capacity).appendedAll samples).buffer.usedBytes_le
  have hgrown := (new c.capacity).capacity_appendedAll_le samples
  rw [capacity_new] at hgrown
  constructor
  · apply htight
  · rw [htight]
    apply Nat.le_trans hused hgrown

namespace Chunk

variable {c : Chunk} {l : Timeline}

/-- The bytes that hold samples: those of the slots that are taken, or those of the bits that are
written. -/
def bytesInUse : Chunk → Nat
  | plain p => p.length * Sample.byteSize
  | packed p => p.buffer.usedBytes

/-- A forward scan of `c` gives `samples`, oldest first, and then ends. -/
def Iterates (c : Chunk) (samples : List Sample) : Prop :=
  ∀ n, ((c.scan .forward).take n).1 = samples.take n

/-- The chunk `c` depends on no other: it is valid and stays so, whatever is done to it, it is what
its own snapshot loads to, and it has no byte that it does not use. -/
structure Whole (c : Chunk) : Prop where
  valid : c.Valid
  base_eq : ∀ first ∈ c.samples.head?, c.base = first.timestamp
  sustains : ∀ d, c.Leads d → ∃ l, d.Sustains l
  reloads : ∃ cursor, Cursor.ofSealed (sealFrames c.frames) = .ok cursor
    ∧ load cursor = .ok c ⟨[]⟩
  capacity_eq : c.capacity = c.bytesInUse

/-- The chunks `older` and `newer` are the halves of `c`, of which `older` may have one sample
more. -/
structure Halves (c older newer : Chunk) : Prop where
  encoding : older.encoding = c.encoding ∧ newer.encoding = c.encoding
  length_older : older.length = c.length - c.length / 2
  length_newer : newer.length = c.length / 2
  iterates : ∃ xs ys, older.Iterates xs ∧ newer.Iterates ys ∧ c.Iterates (xs ++ ys)
    ∧ xs.length = older.length ∧ ys.length = newer.length
  last_lt_first : ∀ last ∈ older.last?, ∀ first ∈ newer.first?, last < first
  whole : older.Whole ∧ newer.Whole

/-! ### Whole chunks -/

theorem Holds.base_eq
    (h : c.Holds l) :
  ∀ first ∈ c.samples.head?, c.base = first.timestamp
  := by
  rw [h.samples_eq]
  intro first hfirst
  cases c with
  | plain p =>
    subst h
    apply p.valid.base_eq first hfirst
  | packed p => rw [PackedChunk.Holds.base_eq (PackedChunk.Sound.holds h) hfirst, base]

/-- If `c` holds a timeline and words count its sizes, its own snapshot opens and loads to `c`. -/
theorem Holds.reloads
    (h : c.Holds l) (hfits : c.Fits) :
  ∃ cursor, Cursor.ofSealed (sealFrames c.frames) = .ok cursor ∧ load cursor = .ok c ⟨[]⟩
  := (h.loads hfits).of_seal

theorem capacity_part
    (c : Chunk) (l : Timeline) :
  (c.part l).capacity = (c.part l).bytesInUse
  := by
  cases c with
  | plain p =>
    show l.length * Sample.byteSize = (p.part l).length * Sample.byteSize
    rw [PlainChunk.length_eq, PlainChunk.part, PlainChunk.timeline_ofTimeline]
  | packed p => apply (p.capacity_part l.samples).1

theorem encoding_part
    (c : Chunk) (l : Timeline) :
  (c.part l).encoding = c.encoding
  := by
  cases c with
  | plain p => rfl
  | packed p => rfl

/-- If words count the sizes of `c`, and `l` is no longer than `c`, they count those of the part of
`c` with `l`. -/
theorem fits_part
    (hfits : c.Fits) {memory : Memory} (hmemory : c.encoding = .packed → memory.Reaches c.reach)
    (hlength : l.length ≤ c.length) :
  (c.part l).Fits
  := by
  cases c with
  | plain p =>
    have hslots : l.length * Sample.byteSize ≤ p.slots * Sample.byteSize :=
      Nat.mul_le_mul_right _ (Nat.le_trans hlength p.length_le)
    apply Nat.lt_of_le_of_lt hslots hfits
  | packed p =>
    have hbits := (hmemory rfl).bits_lt
    have hcapacity := (p.capacity_part l.samples).2
    have hgrowth : PackedChunk.growthBytes * l.samples.length
        ≤ PackedChunk.growthBytes * (packed p).length := Nat.mul_le_mul_left _ hlength
    have hreach : (p.part l.samples).capacity ≤ (packed p).reach := by
      rw [reach, Nat.mul_succ, capacity]
      omega
    show 8 * (p.part l.samples).capacity < wordLimit
    omega

theorem whole_part
    (hreachable : (c.part l).Reachable) (hfits : (c.part l).Fits) :
  (c.part l).Whole
  := by
  have hholds := c.holds_part l
  constructor
  · apply hholds.valid
  · apply hholds.base_eq
  · intro d hd
    apply hreachable.sustains hd
  · apply hholds.reloads hfits
  · apply capacity_part

/-! ### Splits -/

/-- If `c` holds `l` and both its parts on the two sides of the middle are reachable, they are the
halves of `c`. -/
theorem Holds.halves
    (h : c.Holds l) (hfits : c.Fits) {memory : Memory}
    (hmemory : c.encoding = .packed → memory.Reaches c.reach)
    (holder : (c.part (l.take (l.length - l.length / 2))).Reachable)
    (hnewer : (c.part (l.drop (l.length - l.length / 2))).Reachable) :
  c.Halves (c.part (l.take (l.length - l.length / 2))) (c.part (l.drop (l.length - l.length / 2)))
  := by
  have hlength : c.length = l.length := h.length_eq
  generalize hkeep : l.length - l.length / 2 = keep at *
  have hkept : (l.take keep).length = keep := by
    rw [Timeline.length, Timeline.take, List.length_take, ← Timeline.length]
    omega
  have hmoved : (l.drop keep).length = l.length - keep := by
    rw [Timeline.length, Timeline.drop, List.length_drop, ← Timeline.length]
  constructor
  · use c.encoding_part _, c.encoding_part _
  · rw [(c.holds_part _).length_eq, hkept, hlength, hkeep]
  · rw [(c.holds_part _).length_eq, hmoved, hlength]
    omega
  · have hall : (l.take keep).samples ++ (l.drop keep).samples = l.samples :=
      List.take_append_drop keep l.samples
    use (l.take keep).samples, (l.drop keep).samples
    use (c.holds_part _).take_scan, (c.holds_part _).take_scan
    rw [hall, (c.holds_part _).length_eq, (c.holds_part _).length_eq]
    use h.take_scan, rfl
    rfl
  · rw [(c.holds_part _).last?_eq, (c.holds_part _).first?_eq]
    apply l.last_take_lt_first_drop
  · use whole_part holder (fits_part hfits hmemory (by omega))
    apply whole_part hnewer (fits_part hfits hmemory (by omega))

/-- If `c` is reachable and not empty, words count its sizes and `memory` reaches far enough, then
`c.split memory` leaves the older half of `c` and gives the `newer` one. -/
theorem halves_of_split
    (h : c.Reachable) (hne : c.length ≠ 0) (hfits : c.Fits) {memory : Memory}
    (hmemory : c.encoding = .packed → memory.Reaches c.reach) :
  ∃ step newer, c.split memory = .ok step ∧ step.outcome = .ok newer ∧ c.Halves step.after newer
  := by
  obtain ⟨l, hl⟩ := h.holds
  have hsamples : l.samples ≠ [] := by
    intro hempty
    rw [hl.length_eq, Timeline.length, hempty] at hne
    contradiction
  obtain ⟨step, hsplit, hends⟩ := hl.split_parts hsamples memory
  cases houtcome : step.outcome with
  | error e =>
    obtain ⟨_, hpacked, hrefuses⟩ := hends.of_error houtcome
    cases hrefuses.not_reaches (hmemory hpacked)
  | ok newer =>
    have holder := h.older hsplit
    have hnewer := h.newer hsplit houtcome
    obtain ⟨hafter, rfl⟩ := hends.of_ok houtcome
    rw [hafter] at holder
    use step, c.part (l.drop (l.length - l.length / 2)), hsplit, houtcome
    rw [hafter]
    apply hl.halves hfits hmemory holder hnewer

/-- A case of `halves_of_split`: three packed samples, of which the last is packed anew as the first
of its own chunk. -/
theorem halves_of_split_three :
  let c := ((((Chunk.new .packed 64).change .ample (.add ⟨7, ⟨1⟩⟩)).after.change .ample
    (.add ⟨9, ⟨2⟩⟩)).after.change .ample (.add ⟨12, ⟨2⟩⟩)).after
  c.Reachable ∧ c.length = 3 ∧ c.Fits ∧ Memory.ample.Reaches c.reach
    ∧ ∃ step newer, c.split .ample = .ok step ∧ step.outcome = .ok newer
      ∧ c.Halves step.after newer
  := by
  intro c
  have hreachable : c.Reachable :=
    (((Chunk.Reachable.new .packed 64).change _ _).change _ _).change _ _
  have hlength : c.length = 3 := by decide +kernel
  have hfits : c.Fits := by
    show 8 * c.capacity < wordLimit
    decide +kernel
  have hmemory : Memory.ample.Reaches c.reach := by
    constructor
    · decide +kernel
    · intro _ _
      rfl
  have hne : c.length ≠ 0 := by
    rw [hlength]
    decide
  exact ⟨hreachable, hlength, hfits, hmemory, halves_of_split hreachable hne hfits fun _ => hmemory⟩

end Chunk

end TimeSeries
