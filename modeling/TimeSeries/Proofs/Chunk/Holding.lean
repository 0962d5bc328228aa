import TimeSeries.Proofs.Chunk.Plain
import TimeSeries.Proofs.Chunk.Rewriting

/-!
# Chunks that hold timelines

A plain chunk holds its own timeline.  A packed chunk holds the timeline that its stream
replays as, provided that the sides of its window are numbers of bits.  In either encoding
a change that succeeds acts on the timeline, and one that fails leaves the chunk as it
was.
-/

namespace TimeSeries

/-! ### Packed chunks -/

/-- The chunk `c` holds the samples of `l`, and the sides of its window are numbers of bits. -/
structure PackedChunk.Sound (c : PackedChunk) (l : Timeline) : Prop where
  holds : c.Holds l.samples
  leading_le : c.state.window.leading.toNat ≤ 64
  trailing_le : c.state.window.trailing.toNat ≤ 64

namespace PackedChunk

variable {c d : PackedChunk} {l : Timeline}

theorem window_le_of_initial_or_open
    {w : Window} (h : w = .initial ∨ w.Open) :
  w.leading.toNat ≤ 64 ∧ w.trailing.toNat ≤ 64
  := by
  rcases h with rfl | ⟨hleading, hsum⟩
  · decide
  · rw [maxLeading] at hleading
    constructor
    · omega
    · omega

/-- If `c` holds the samples of `l` and there are any, then `c` represents `l` properly. -/
theorem Holds.sound
    (h : c.Holds l.samples) (hne : l.samples ≠ []) :
  c.Sound l
  := by
  have hwindow : c.state.window = .initial ∨ c.state.window.Open := by
    generalize l.samples = samples at h hne
    cases h with
    | nothing => contradiction
    | stream _ hreplays => apply hreplays.last_window
  obtain ⟨hleading, htrailing⟩ := window_le_of_initial_or_open hwindow
  apply Sound.mk h hleading htrailing

theorem Packs.sound
    (h : c.Packs l.samples) :
  c.Sound l
  := by
  have hwindow : c.state.window = .initial ∨ c.state.window.Open := by
    rw [h.state]
    apply (replays_bits _ (Nat.le_refl 1) _).last_window
  obtain ⟨hleading, htrailing⟩ := window_le_of_initial_or_open hwindow
  apply Sound.mk h.holds hleading htrailing

/-- If `c` holds `samples`, it still holds them without the bytes it does not use. -/
theorem Holds.tighten
    {samples : List Sample} (h : c.Holds samples) :
  c.tighten.Holds samples
  := by
  have hbuffer : c.tighten.buffer.toList = c.buffer.toList := c.buffer.toList_tighten
  cases h with
  | nothing hcount hbits => apply Holds.nothing (c := c.tighten) hcount (hbuffer.trans hbits)
  | stream hcount hreplays =>
    rw [← hbuffer] at hreplays
    apply Holds.stream (c := c.tighten) hcount hreplays

theorem Sound.atPosition
    (h : c.Sound l) (position : ChunkPosition) :
  (c.atPosition position).Sound l
  := by
  cases position with
  | latest => apply h
  | sealed => apply Sound.mk h.holds.tighten h.leading_le h.trailing_le

theorem Sound.appended
    (h : c.Sound l) {s : Sample} (hlast : ∀ last ∈ l.last?, last < s.timestamp) :
  (c.appended s).Sound (l.put s)
  := by
  have hsamples : (l.put s).samples = l.samples ++ [s] := by
    rw [← Timeline.push_eq_put l s hlast, Timeline.samples_push]
  apply Holds.sound
  · rw [hsamples]
    apply h.holds.appended
  · simp [hsamples]

/-- If `c` represents `l` and `d` is what an upsert of `s` leaves of it, the upsert acts on `l` and
`d` represents the result. -/
theorem Upserted.acts
    {s : Sample} {policy : DuplicatePolicy} {position : ChunkPosition} {n : Nat} (h : c.Sound l)
    (hupserted : c.Upserted l s policy position n d) :
  ∃ l', (Change.upsert s policy position).Acts l n l' ∧ d.Sound l'
  := by
  cases hupserted with
  | appended hlast =>
    use l.put s, .insert (Timeline.valueAt?_eq_none_of_last_lt hlast)
    apply (h.appended hlast).atPosition
  | inserted hnone =>
    use l.put s, .insert hnone
    apply (packs_rewritten _ _ _).sound
  | @kept existing hsome hresolve =>
    use l.put ⟨s.timestamp, existing⟩, .resolve hsome hresolve
    rw [l.put_eq_self hsome]
    apply h
  | @resolved existing value hsome hresolve =>
    use l.put ⟨s.timestamp, value⟩, .resolve hsome hresolve
    apply (packs_rewritten _ _ _).sound

theorem Sound.last?_eq
    (h : c.Sound l) :
  c.last? = l.last?
  := h.holds.last?_eq

/-- If `c` represents `l`, then `c.add s` acts on `l`, or fails and leaves `c`. -/
theorem Sound.add_ends
    (h : c.Sound l) (memory : Memory) (s : Sample) :
  (c.add s).Ends (fun _ d => ∃ l', (Change.add s).Acts l 1 l' ∧ d.Sound l')
    (Unchanged memory c l (.add s))
  := by
  apply (c.append_ends .ample s false).mono
  · rintro _ _ ⟨rfl, hlast, _⟩
    rw [h.last?_eq] at hlast
    use l.put s, .add hlast
    apply h.appended hlast
  · rintro _ _ ⟨rfl, hrefuses⟩
    apply unchanged_of_fails
    cases hrefuses with
    | outOfOrder hlast hle =>
      rw [h.last?_eq] at hlast
      apply Change.Fails.outOfOrder hlast hle
    | full hlast _ hfits =>
      apply Change.Fails.declined
      apply Declines.full _ hfits
      intro hcount
      rw [PackedChunk.last?, if_pos hcount] at hlast
      cases hlast
    | outOfMemory _ _ _ hgrow => cases hgrow

theorem Sound.upsert_ends
    (h : c.Sound l) (memory : Memory) (s : Sample) (policy : DuplicatePolicy)
    (position : ChunkPosition) :
  (c.upsert memory s policy position).Ends
    (fun n d => ∃ l', (Change.upsert s policy position).Acts l n l' ∧ d.Sound l')
    (Unchanged memory c l (.upsert s policy position))
  := by
  apply (PackedChunk.upsert_ends memory h.holds s policy position).mono_good
  intro n d hupserted
  apply hupserted.acts h

theorem Sound.delete_ends
    (h : c.Sound l) (memory : Memory) (t : Timestamp) (position : ChunkPosition) :
  (c.delete memory t position).Ends
    (fun _ d => ∃ l', (Change.delete t position).Acts l 1 l' ∧ d.Sound l')
    (Unchanged memory c l (.delete t position))
  := by
  apply (PackedChunk.delete_ends memory h.holds t position).mono_good
  rintro _ _ ⟨⟨value, hvalue⟩, rfl⟩
  use l.filter (· != t), .delete hvalue
  apply (packs_rewritten _ _ _).sound

theorem Sound.deleteRange_ends
    (h : c.Sound l) (memory : Memory) (range : TimeRange) (position : ChunkPosition) :
  (c.deleteRange memory range position).Ends
    (fun n d => ∃ l', (Change.deleteRange range position).Acts l n l' ∧ d.Sound l')
    (Unchanged memory c l (.deleteRange range position))
  := by
  apply (PackedChunk.deleteRange_ends memory h.holds range position).mono_good
  rintro _ _ ⟨rfl, rfl⟩
  use l.filter (!range.contains ·), .deleteRange
  split
  · rename_i hnone
    rw [l.filter_eq_self_of_countP hnone]
    apply h
  · apply (packs_rewritten _ _ _).sound

end PackedChunk

/-! ### Chunks of either encoding -/

/-- A plain chunk holds `l` if `l` is its timeline, a packed one if it represents `l`. -/
def Chunk.Holds : Chunk → Timeline → Prop
  | .plain p, l => p.timeline = l
  | .packed p, l => p.Sound l

/-- If `s` leaves a chunk whose timeline is `good`, so does `settle position s`, as giving up slots
does not touch the timeline. -/
theorem PlainChunk.settle_ends
    {α : Type} {s : Step PlainChunk α} {good : α → Timeline → Prop}
    {bad : ChunkError → PlainChunk → Prop} (position : ChunkPosition)
    (h : s.Ends (fun a d => good a d.timeline) bad) :
  (settle position s).Ends (fun a d => good a d.timeline) bad
  := by
  unfold settle
  split
  · rename_i hok
    have hgood := h.of_ok hok
    rw [Step.Ends]
    dsimp only
    rw [hok]
    apply hgood
  · apply h

namespace Chunk

variable {c : Chunk} {l : Timeline}

/-- If `s` changes the plain chunk `p` as `change` acts on its timeline, so does `s` taken as a step
of a chunk. -/
theorem ends_of_plain
    {α : Type} {p : PlainChunk} {s : Step PlainChunk α} {change : Change} (n : α → Nat)
    (operation : Operation) {declined : Change → ChunkError → Prop}
    (h : s.Ends (fun a d => change.Acts p.timeline (n a) d.timeline)
      fun e d => d = p ∧ change.Fails declined p.timeline e) :
  ((s.counted .plain operation).map plain id).Ends
    (fun a d => ∃ l', change.Acts p.timeline (n a) l' ∧ d.Holds l')
    fun e d => d = plain p ∧ change.Fails declined p.timeline e
  := by
  apply Step.Ends.map
  apply Step.Ends.counted
  apply h.mono
  · intro a d hacts
    use d.timeline, hacts
    rfl
  · rintro e _ ⟨rfl, hfails⟩
    use rfl, hfails

/-- If `s` changes a packed chunk as `change` acts on the timeline `l`, so does `s` taken as a step
of a chunk. -/
theorem ends_of_packed
    {α : Type} {p : PackedChunk} {s : Step PackedChunk α} {change : Change} (n : α → Nat)
    (operation : Operation) {declined : Change → ChunkError → Prop}
    (h : s.Ends (fun a d => ∃ l', change.Acts l (n a) l' ∧ d.Sound l')
      fun e d => d = p ∧ change.Fails declined l e) :
  ((s.counted .packed operation).map packed id).Ends
    (fun a d => ∃ l', change.Acts l (n a) l' ∧ d.Holds l')
    fun e d => d = packed p ∧ change.Fails declined l e
  := by
  apply Step.Ends.map
  apply Step.Ends.counted
  apply h.mono
  · intro a d hacts
    apply hacts
  · rintro e _ ⟨rfl, hfails⟩
    use rfl, hfails

/-- What a chunk answers to a change for want of room or of `memory`. -/
def Declines (memory : Memory) : Chunk → Change → ChunkError → Prop
  | plain p => p.Declines
  | packed p => p.Declines memory

/-- The most bytes that `c` asks for at once, whatever it is asked to do. -/
def reach (c : Chunk) : Nat :=
  c.capacity + PackedChunk.headroomBytes + PackedChunk.growthBytes * (c.length + 1)

/-- An insertion fails in a conflict with the sample at the same time, or because `memory` is
refused to a packed chunk.  A plain chunk makes the slots that it needs. -/
theorem upsert_fails_cases
    {memory : Memory} {s : Sample} {policy : DuplicatePolicy} {position : ChunkPosition}
    {e : ChunkError} (h : (Change.upsert s policy position).Fails (c.Declines memory) l e) :
  (∃ existing, policy = .block ∧ e = .duplicate s.timestamp existing s.value)
    ∨ c.encoding = .packed ∧ memory.Refuses c.reach e
  := by
  cases h with
  | @duplicate _ _ _ existing _ hresolve =>
    left
    use existing, (DuplicatePolicy.resolve?_eq_none_iff _ _ _).mp hresolve
  | declined hdeclines =>
    right
    cases c with
    | plain p => cases hdeclines
    | packed p =>
      cases hdeclines with
      | outOfMemory _ hrefuses => exact ⟨rfl, hrefuses⟩

/-- If `c` holds `l`, then `c.change memory change` acts on `l`, or fails as `change` does on `l`
and leaves `c`. -/
theorem Holds.change_ends
    (h : c.Holds l) (memory : Memory) (change : Change) :
  (c.change memory change).Ends (fun n d => ∃ l', change.Acts l n l' ∧ d.Holds l')
    fun e d => d = c ∧ change.Fails (c.Declines memory) l e
  := by
  cases c with
  | plain p =>
    subst h
    cases change with
    | add s =>
      apply Step.Ends.map
      apply ends_of_plain (fun _ => 1) .add (p.add_ends s)
    | upsert s policy position =>
      apply ends_of_plain id .upsert
      apply PlainChunk.settle_ends
      apply p.upsert_ends
    | delete t position =>
      apply Step.Ends.map
      apply ends_of_plain (fun _ => 1) .delete
      apply PlainChunk.settle_ends
      apply p.delete_ends
    | deleteRange range position =>
      apply ends_of_plain id .deleteRange
      apply PlainChunk.settle_ends
      apply (p.deleteRange_ends range position).mono_bad
      rintro _ _ ⟨⟩
  | packed p =>
    have h : p.Sound l := h
    cases change with
    | add s =>
      apply Step.Ends.map
      apply ends_of_packed (fun _ => 1) .add (h.add_ends memory s)
    | upsert s policy position =>
      apply ends_of_packed id .upsert (h.upsert_ends memory s policy position)
    | delete t position =>
      apply Step.Ends.map
      apply ends_of_packed (fun _ => 1) .delete (h.delete_ends memory t position)
    | deleteRange range position =>
      apply ends_of_packed id .deleteRange (h.deleteRange_ends memory range position)

/-! ### What chunks hold -/

theorem Holds.samples_eq
    (h : c.Holds l) :
  c.samples = l.samples
  := by
  cases c with
  | plain p =>
    subst h
    rfl
  | packed p => apply PackedChunk.Holds.samples_eq (PackedChunk.Sound.holds h)

theorem Holds.length_eq
    (h : c.Holds l) :
  c.length = l.length
  := by
  cases c with
  | plain p =>
    subst h
    apply p.length_eq
  | packed p => apply PackedChunk.Holds.count_eq (PackedChunk.Sound.holds h)

theorem Holds.first?_eq
    (h : c.Holds l) :
  c.first? = l.first?
  := by
  cases c with
  | plain p =>
    subst h
    apply p.first?_eq
  | packed p => apply PackedChunk.Holds.first?_eq (PackedChunk.Sound.holds h)

theorem Holds.last?_eq
    (h : c.Holds l) :
  c.last? = l.last?
  := by
  cases c with
  | plain p =>
    subst h
    apply p.last?_eq
  | packed p => apply PackedChunk.Sound.last?_eq h

/-! ### Splits -/

/-- If `c` holds `l` and `l` is empty, `c` is not to be split. -/
theorem Holds.split_eq_error
    (h : c.Holds l) (hempty : l.samples = []) (memory : Memory) :
  c.split memory = .error .emptySplit
  := by
  cases c with
  | plain p =>
    subst h
    have hlength : p.length = 0 := by
      rw [p.length_eq, Timeline.length, hempty, List.length_nil]
    rw [split, PlainChunk.split, if_pos hlength]
    rfl
  | packed p =>
    have hcount : p.count = 0 := by
      rw [(PackedChunk.Sound.holds h).count_eq, hempty]
      rfl
    rw [split, PackedChunk.split, if_pos hcount]
    rfl

/-- The samples of `l` in a chunk of their own, with the encoding of `c` and the slots or the bytes
they need. -/
def part (c : Chunk) (l : Timeline) : Chunk :=
  match c with
  | plain p => plain (p.part l)
  | packed p => packed (p.part l.samples)

theorem holds_part
    (c : Chunk) (l : Timeline) :
  (c.part l).Holds l
  := by
  cases c with
  | plain p => apply PlainChunk.timeline_ofTimeline
  | packed p => apply (PackedChunk.packs_part p l.samples).sound

/-- If `c` holds `l`, which is not empty, then `c.split memory` leaves the older samples as `c.part`
and gives the newer ones as `c.part`, or leaves `c`. -/
theorem Holds.split_parts
    (h : c.Holds l) (hne : l.samples ≠ []) (memory : Memory) :
  ∃ step, c.split memory = .ok step ∧ step.Ends
    (fun newer d => d = c.part (l.take (l.length - l.length / 2))
      ∧ newer = c.part (l.drop (l.length - l.length / 2)))
    fun e d => d = c ∧ c.encoding = .packed ∧ memory.Refuses c.reach e
  := by
  have hlength : l.length ≠ 0 := by
    rw [Timeline.length, Ne, List.length_eq_zero_iff]
    apply hne
  cases c with
  | plain p =>
    subst h
    rw [← p.length_eq] at *
    rw [split, p.split_eq hlength]
    apply Exists.intro
    constructor
    · rfl
    · apply Step.Ends.map
      apply Step.Ends.counted
      apply Step.ends_done
      use rfl
      rfl
  | packed p =>
    have h : p.Sound l := h
    have hcount : p.count ≠ 0 := by
      rw [h.holds.count_eq]
      apply hlength
    obtain ⟨step, hsplit, hends⟩ := PackedChunk.split_ends memory h.holds hcount
    use (step.counted .packed .split).map packed packed
    constructor
    · rw [split, hsplit]
      rfl
    · apply Step.Ends.map
      apply Step.Ends.counted
      apply hends.mono
      · rintro _ _ ⟨rfl, rfl⟩
        use rfl
        rfl
      · rintro e _ ⟨rfl, he⟩
        use rfl, rfl
        apply he

/-- If `c` holds `l`, which is not empty, then `c.split memory` leaves a chunk that holds the older
samples and gives one that holds the newer ones, or leaves `c`. -/
theorem Holds.split_ends
    (h : c.Holds l) (hne : l.samples ≠ []) (memory : Memory) :
  ∃ step, c.split memory = .ok step ∧ step.Ends
    (fun newer d => d.Holds (l.take (l.length - l.length / 2))
      ∧ newer.Holds (l.drop (l.length - l.length / 2)))
    fun e d => d = c ∧ memory.Refuses c.reach e
  := by
  obtain ⟨step, hsplit, hends⟩ := h.split_parts hne memory
  use step, hsplit
  apply hends.mono
  · rintro _ _ ⟨rfl, rfl⟩
    use c.holds_part _
    apply c.holds_part
  · rintro e _ ⟨rfl, _, hrefuses⟩
    use rfl

/-! ### Conversions -/

/-- If `c` holds `l`, then `c.toPlain` succeeds with the timeline `l` and the slots that the bytes
of `c` allow, or one for each sample if that is more. -/
theorem Holds.toPlain_eq_ok
    (h : c.Holds l) :
  ∃ p, c.toPlain = .ok (plain p) ∧ p.timeline = l
    ∧ p.slots = max c.length (c.capacity / Sample.byteSize)
  := by
  have hroom : (PlainChunk.withSlots (max c.length (c.capacity / Sample.byteSize))).length
      + l.samples.length ≤ max c.length (c.capacity / Sample.byteSize) := by
    have hempty (slots : Nat) : (PlainChunk.withSlots slots).length = 0 := rfl
    have hlength : c.length = l.samples.length := h.length_eq
    rw [hempty]
    omega
  obtain ⟨p, happend, hsamples, hslots⟩ := PlainChunk.appendAll_eq_ok hroom l.increasing
  use p
  constructor
  · rw [toPlain, h.samples_eq, happend]
    rfl
  · use Timeline.eq_of_samples_eq hsamples, hslots

/-- If `c` holds `l`, then `c.toPacked memory` gives a chunk that packs the samples of `l`, unless
`memory` is refused. -/
theorem Holds.toPacked_cases
    (h : c.Holds l) (memory : Memory) :
  (c.toPacked memory).outcome = .ok (packed ((PackedChunk.new c.capacity).appendedAll l.samples))
    ∨ ∃ e, (c.toPacked memory).outcome = .error e ∧ memory.Refuses c.reach e
  := by
  have hgrowth : c.capacity + PackedChunk.growthBytes * l.samples.length ≤ c.reach := by
    have hlength : c.length = l.samples.length := h.length_eq
    rw [reach, hlength, Nat.mul_succ]
    omega
  rw [toPacked]
  rcases PackedChunk.allocate_cases memory c.capacity with hallocate | ⟨e, hallocate, hrefuses⟩
  · rw [hallocate, h.samples_eq]
    have hends := PackedChunk.appendAll_ends memory (PackedChunk.packs_new c.capacity).holds
      l.increasing
    cases houtcome : ((PackedChunk.new c.capacity).appendAll memory l.samples).outcome with
    | ok a =>
      left
      rw [← hends.of_ok houtcome]
      simp only [houtcome]
      rfl
    | error e =>
      right
      use e
      constructor
      · simp only [houtcome]
        rfl
      · have hrefuses := hends.of_error houtcome
        rw [PackedChunk.capacity_new] at hrefuses
        apply hrefuses.mono hgrowth
  · right
    rw [hallocate]
    use .packing e, rfl
    apply hrefuses.mono
    omega

theorem Holds.complete_eq_ok
    {d : Chunk} (h : c.Holds l) (hd : d.Holds l) :
  c.complete d = .ok d
  := by
  rw [complete, h.length_eq, hd.length_eq, if_pos rfl]

/-- What a chunk `c` that holds `l` is converted to. -/
inductive Converted (c : Chunk) (l : Timeline) : Encoding → Chunk → Prop where
  | own : Converted c l c.encoding c
  | unpacked {p : PlainChunk} (hsource : c.encoding = .packed) (htimeline : p.timeline = l)
      (hslots : p.slots = max c.length (c.capacity / Sample.byteSize)) :
      Converted c l .plain (plain p)
  | repacked (hsource : c.encoding = .plain) :
      Converted c l .packed (packed ((PackedChunk.new c.capacity).appendedAll l.samples))

theorem Converted.holds
    {target : Encoding} {d : Chunk} (h : c.Holds l) (hconverted : c.Converted l target d) :
  d.Holds l ∧ d.encoding = target
  := by
  cases hconverted with
  | own => use h
  | unpacked _ htimeline =>
    use htimeline
    rfl
  | repacked =>
    use ((PackedChunk.packs_new c.capacity).appendedAll l.samples).sound
    rfl

/-- If `c` holds `l`, then `c.convert memory target` carries every sample over.  Only where samples
are packed is there `memory` that may be refused. -/
theorem Holds.convert_converted
    (h : c.Holds l) (memory : Memory) (target : Encoding) :
  (∃ d, (c.convert memory target).outcome = .ok d ∧ c.Converted l target d)
    ∨ ∃ e, (c.convert memory target).outcome = .error e ∧ c.encoding = .plain
      ∧ target = .packed ∧ memory.Refuses c.reach e
  := by
  unfold convert
  by_cases hsame : target = c.encoding
  · left
    rw [if_pos hsame, hsame]
    use c, rfl, .own
  · rw [if_neg hsame]
    cases target with
    | plain =>
      have hsource : c.encoding = .packed := by
        cases c with
        | plain p => contradiction
        | packed p => rfl
      obtain ⟨p, hplain, htimeline, hslots⟩ := h.toPlain_eq_ok
      have hconverted := Converted.unpacked hsource htimeline hslots
      left
      use plain p
      constructor
      · dsimp only
        rw [hplain]
        apply h.complete_eq_ok (hconverted.holds h).1
      · apply hconverted
    | packed =>
      have hsource : c.encoding = .plain := by
        cases c with
        | plain p => rfl
        | packed p => contradiction
      rcases h.toPacked_cases memory with hpacked | ⟨e, herror, hrefuses⟩
      · have hconverted := Converted.repacked (l := l) hsource
        left
        use packed ((PackedChunk.new c.capacity).appendedAll l.samples)
        constructor
        · dsimp only
          rw [hpacked]
          apply h.complete_eq_ok (hconverted.holds h).1
        · apply hconverted
      · right
        use e
        constructor
        · dsimp only
          rw [herror]
          rfl
        · use hsource

/-- If `c` holds `l`, then `c.convert memory target` leads to a chunk of the encoding `target` that
holds `l`, unless `memory` is refused. -/
theorem Holds.convert_cases
    (h : c.Holds l) (memory : Memory) (target : Encoding) :
  (∃ d, (c.convert memory target).outcome = .ok d ∧ d.Holds l ∧ d.encoding = target)
    ∨ ∃ e, (c.convert memory target).outcome = .error e ∧ memory.Refuses c.reach e
  := by
  rcases h.convert_converted memory target with ⟨d, hok, hconverted⟩ | ⟨e, herror, _, _, hrefuses⟩
  · left
    use d, hok
    apply hconverted.holds h
  · right
    use e, herror

end Chunk

end TimeSeries
