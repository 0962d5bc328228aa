import TimeSeries.Proofs.Chunk.Positions

/-!
# The bytes of the latest chunk

The latest chunk of a series keeps the bytes it has, so that there is room for more.  A change
takes further bytes only where samples do not fit otherwise: a plain chunk one slot, a packed
one a portion for a sample behind the others, and just the missing bytes when it is written
anew.  Writing anew may take more bits than there were, even where a sample was removed, since
its neighbours are then told apart by other differences.
-/

namespace TimeSeries

/-- If `l` has no sample at the time of `s`, it is one longer with `s`. -/
theorem Timeline.length_put_of_free
    {s : Sample} (l : Timeline) (hnone : l.valueAt? s.timestamp = none) :
  (l.put s).length = l.length + 1
  := by
  have hsamples := congrArg List.length (l.samples_eq s.timestamp)
  rw [at?, hnone] at hsamples
  rw [length, length, hsamples, samples_put]
  simp only [Option.map_none, Option.toList_none, List.nil_append, List.length_append,
    List.length_cons]
  omega

namespace PlainChunk

variable {s : Sample}

/-- If `p` has no sample at the time of `s`, then `s` is put into it, whatever the `policy`. -/
theorem upsert_of_free
    (p : PlainChunk) (policy : DuplicatePolicy) (hnone : p.timeline.valueAt? s.timestamp = none) :
  p.upsert s policy = .done (p.put s) 1
  := by
  rw [upsert_eq, hnone]

/-- If `p` has no sample at the time of `s`, then `s` takes one more slot just when all slots of `p`
are taken. -/
theorem slots_put
    (p : PlainChunk) (hnone : p.timeline.valueAt? s.timestamp = none) :
  (p.put s).slots = p.slots + if p.length = p.slots then 1 else 0
  := by
  have hle : p.length ≤ p.slots := p.length_le
  have hlength : p.length = p.timeline.length := p.length_eq
  have hlonger := p.timeline.length_put_of_free hnone
  show max p.slots (p.timeline.put s).length = _
  split <;> omega

end PlainChunk

namespace PackedChunk

variable {c d : PackedChunk} {l : Timeline}

/-! ### What the latest chunk keeps -/

theorem Leaves.capacity_le
    (h : c.Leaves l .latest d) :
  c.capacity ≤ d.capacity
  := by
  cases h with
  | same => apply Nat.le_refl
  | @appended s =>
    show c.capacity ≤ (c.appended s).capacity
    rw [c.capacity_appended]
    apply Nat.le_add_right
  | rewritten =>
    rw [c.capacity_rewritten_latest]
    apply Nat.le_max_left

/-- If the latest chunk `c` holds `l`, and what a change leaves has the same samples, it has the
same bytes. -/
theorem Leaves.capacity_of_same
    (h : c.Leaves l .latest d) (hholds : c.Holds l.samples) (hsame : d.samples = l.samples) :
  d.capacity = c.capacity
  := by
  cases h with
  | same => rfl
  | @appended s =>
    rw [hholds.samples_appended] at hsame
    simp at hsame
  | rewritten hne =>
    rw [c.samples_rewritten] at hsame
    contradiction

/-- If the latest chunk `c` holds `l`, and what a change leaves has neither these samples nor these
with one behind them, it has the bytes of `c`, or those that it uses if they are more. -/
theorem Leaves.capacity_of_revised
    (h : c.Leaves l .latest d) (hholds : c.Holds l.samples) (hne : d.samples ≠ l.samples)
    (hmore : ∀ s, d.samples ≠ l.samples ++ [s]) :
  d.capacity = max c.capacity d.buffer.usedBytes
  := by
  cases h with
  | same => cases hne hholds.samples_eq
  | @appended s => cases hmore s (hholds.samples_appended s .latest)
  | rewritten => apply c.capacity_rewritten_latest

theorem grown_le_reach
    (c : PackedChunk) :
  c.capacity + growthBytes ≤ c.reach
  := by
  rw [reach, Nat.mul_succ]
  omega

/-- If `s` is after all samples of `c` and `memory` is granted, the upsert of `s` succeeds and
leaves `c.appended s`. -/
theorem upsert_eq_appended
    {memory : Memory} {s : Sample} (c : PackedChunk) (policy : DuplicatePolicy)
    (hlast : ∀ last ∈ c.last?, last < s.timestamp)
    (hmemory : memory.Reaches (c.capacity + growthBytes)) :
  ∃ events, c.upsert memory s policy .latest = (Step.done (c.appended s) 1).preceded events
  := by
  rw [upsert_of_order memory policy hlast]
  by_cases hroom : c.count = 0 ∨ c.Fits s
  · use []
    rw [append_of_room memory true hroom hlast]
    rfl
  · obtain ⟨hcount, hfits⟩ := not_or.mp hroom
    use [⟨.growth, growthBytes⟩]
    rw [append_of_not_fits hcount hlast hfits hmemory]
    rfl

/-! ### Trimming -/

/-- The bytes to which `rebuilt` is trimmed when it takes the place of `c`. -/
def trimTarget (c rebuilt : PackedChunk) (position : ChunkPosition) : Nat :=
  match position with
  | .latest => max c.capacity rebuilt.buffer.usedBytes
  | .sealed => rebuilt.buffer.usedBytes

/-- Takes `rebuilt` in place of `c`, and breaks off if bits that were written would be cut off. -/
def swapIn (c rebuilt : PackedChunk) (operation : Operation) (position : ChunkPosition) :
    Except Breach (Step PackedChunk Unit) := do
  let buffer ← rebuilt.buffer.trimTo (c.trimTarget rebuilt position)
  return (Step.done { rebuilt with buffer } ()).followed (.once (.rebuild operation))

theorem usedBytes_le_trimTarget
    (c rebuilt : PackedChunk) (position : ChunkPosition) :
  rebuilt.buffer.usedBytes ≤ c.trimTarget rebuilt position
  := by
  cases position with
  | latest => apply Nat.le_max_right
  | sealed => apply Nat.le_refl

/-- The step `c.swapIn rebuilt operation position` does not break off, as no replacement is trimmed
to fewer bytes than it uses. -/
theorem swapIn_eq_ok
    (c rebuilt : PackedChunk) (operation : Operation) (position : ChunkPosition) :
  c.swapIn rebuilt operation position = .ok (c.replaceBy rebuilt operation position)
  := by
  rw [swapIn, BitBuffer.trimTo, dif_pos (c.usedBytes_le_trimTarget rebuilt position)]
  cases position <;> rfl

end PackedChunk

namespace Chunk

variable {c : Chunk} {l : Timeline} {memory : Memory} {change : Change}

/-! ### Costs -/

/-- The samples of the chunk have a place: there is a slot for each, or there are bytes for all
their bits. -/
def Within : Chunk → Prop
  | plain p => p.length ≤ p.slots
  | packed p => p.buffer.length ≤ 8 * p.capacity

/-- What `change` costs the latest chunk `c`, if `step` is what comes of it. -/
structure KeepsBudget (c : Chunk) (change : Change) (step : Step Chunk Nat) : Prop where
  capacity_le : c.capacity ≤ step.after.capacity
  /-- A failure leaves the chunk. -/
  failed : ∀ e, step.outcome = .error e → step.after = c ∧ ¬e.OutOfMemory
  /-- What changes no sample costs nothing. -/
  same : step.after.samples = c.samples → step.after.capacity = c.capacity
  added : ∀ s, change = .add s → step.after.capacity = c.capacity
  /-- A packed sample behind the others costs a portion where it does not fit. -/
  appended : ∀ s policy position, change = .upsert s policy position → c.encoding = .packed →
    c.Precedes s → step.outcome = .ok 1
      ∧ step.after.capacity = c.capacity + if c.Crowded s then PackedChunk.growthBytes else 0
  /-- A packed chunk that is written anew gets the bytes that are missing. -/
  rewritten : c.encoding = .packed → step.after.Revises c →
    step.after.capacity = max c.capacity step.after.bytesInUse
  /-- A further sample of a plain chunk costs a slot where all are taken. -/
  inserted : ∀ s policy position, change = .upsert s policy position → c.encoding = .plain →
    (∀ x ∈ c.samples, x.timestamp ≠ s.timestamp) → step.outcome = .ok 1
      ∧ step.after.capacity = c.capacity + if c.Crowded s then Sample.byteSize else 0
  /-- All else costs a plain chunk nothing. -/
  occupied : c.encoding = .plain → step.after.length ≤ c.length →
    step.after.capacity = c.capacity
  within : c.Within ∧ step.after.Within
  /-- No replacement is trimmed to fewer bytes than it uses. -/
  trimmed : ∀ p, c = packed p → ∀ rebuilt operation,
    rebuilt.buffer.usedBytes ≤ p.trimTarget rebuilt change.position
      ∧ p.swapIn rebuilt operation change.position
        = .ok (p.replaceBy rebuilt operation change.position)

theorem within
    (c : Chunk) :
  c.Within
  := by
  cases c with
  | plain p => exact p.length_le
  | packed p => exact p.buffer.length_le

/-- If `c` holds `l` and `memory` is granted, a change of `c` that fails leaves `c` and does not
fail for want of memory. -/
theorem Holds.not_outOfMemory
    (h : c.Holds l) (hmemory : c.encoding = .packed → memory.Reaches c.reach) {e : ChunkError}
    (herror : (c.change memory change).outcome = .error e) :
  (c.change memory change).after = c ∧ ¬e.OutOfMemory
  := by
  obtain ⟨hafter, hfails⟩ := (h.change_ends memory change).of_error herror
  use hafter
  rintro ⟨shortage, rfl⟩
  cases hfails with
  | declined hdeclines =>
    cases c with
    | plain p => cases hdeclines
    | packed p =>
      cases hdeclines with
      | outOfMemory _ hrefuses => apply hrefuses.not_reaches (hmemory rfl)

/-! ### Plain chunks that are the latest -/

/-- Whether a change of the latest chunk `p` succeeds or fails, it leaves the slots of `p`, or one
for each sample if these are more. -/
theorem plain_after
    (p : PlainChunk) (memory : Memory) (hlatest : change.position = .latest) :
  ∃ q, ((plain p).change memory change).after = plain q ∧ q.slots = max p.slots q.length
  := by
  have hends := plain_slots p memory change
  rw [hlatest] at hends
  apply Step.Ends.after (P := fun d => ∃ q, d = plain q ∧ q.slots = max p.slots q.length)
  apply hends.mono_bad
  rintro _ _ rfl
  use p, rfl
  apply PlainChunk.extends_of_slots_eq rfl

theorem keepsBudget_plain
    (p : PlainChunk) (hlatest : change.position = .latest) :
  (plain p).KeepsBudget change ((plain p).change memory change)
  := by
  have hholds : (plain p).Holds p.timeline := rfl
  obtain ⟨q, hafter, hslots⟩ := plain_after p memory hlatest
  have hle : p.length ≤ p.slots := p.length_le
  have hlength : p.length = p.timeline.length := p.length_eq
  have hcapacity (h : q.length ≤ p.length) : (plain q).capacity = (plain p).capacity := by
    have hsame : q.slots = p.slots := by omega
    show q.slots * Sample.byteSize = p.slots * Sample.byteSize
    rw [hsame]
  constructor
  · rw [hafter]
    show p.slots * Sample.byteSize ≤ q.slots * Sample.byteSize
    apply Nat.mul_le_mul_right
    omega
  · intro e herror
    apply hholds.not_outOfMemory _ herror
    rintro ⟨⟩
  · rw [hafter]
    intro hsame
    apply hcapacity
    rw [← q.length_samples, ← p.length_samples]
    apply Nat.le_of_eq (congrArg List.length hsame)
  · rintro s rfl
    have hsame : (p.add s).after.slots = p.slots := by
      apply Step.Ends.after (s := p.add s) (P := fun d => d.slots = p.slots)
      apply (p.add_slots s).mono_bad
      rintro _ _ rfl
      rfl
    show (p.add s).after.slots * Sample.byteSize = p.slots * Sample.byteSize
    rw [hsame]
  · rintro s policy position rfl ⟨⟩
  · rintro ⟨⟩
  · rintro s policy _ rfl _ hfree
    obtain rfl := hlatest
    have hnone : p.timeline.valueAt? s.timestamp = none :=
      (p.timeline.valueAt?_eq_none_iff _).mpr hfree
    have hstep : (plain p).change memory (.upsert s policy .latest)
        = ((Step.done (p.put s) 1).counted .plain .upsert).map plain id := by
      rw [change, upsert, p.upsert_of_free policy hnone]
      rfl
    rw [hstep]
    use rfl
    show (p.put s).slots * Sample.byteSize = p.slots * Sample.byteSize
      + if p.length = p.slots then Sample.byteSize else 0
    rw [p.slots_put hnone, Nat.add_mul]
    split
    · rw [Nat.one_mul]
    · rw [Nat.zero_mul]
  · rw [hafter]
    intro _ hle
    apply hcapacity hle
  · use within _
    apply within
  · rintro _ ⟨⟩

/-! ### Packed chunks that are the latest -/

theorem keepsBudget_packed
    {p : PackedChunk} (h : (packed p).Holds l) (hlatest : change.position = .latest)
    (hmemory : memory.Reaches (packed p).reach) :
  (packed p).KeepsBudget change ((packed p).change memory change)
  := by
  have hholds : p.Holds l.samples := PackedChunk.Sound.holds h
  have hsamples : p.samples = l.samples := hholds.samples_eq
  obtain ⟨q, hafter, hleaves⟩ := packed_after hholds memory change
  rw [hlatest] at hleaves
  constructor
  · rw [hafter]
    exact hleaves.capacity_le
  · intro e herror
    apply h.not_outOfMemory (fun _ => hmemory) herror
  · rw [hafter]
    show q.samples = p.samples → q.capacity = p.capacity
    rw [hsamples]
    apply hleaves.capacity_of_same hholds
  · rintro s rfl
    apply p.capacity_add
  · rintro s policy _ rfl _ hprecedes
    obtain rfl := hlatest
    have hlast : ∀ last ∈ p.last?, last < s.timestamp := (h.precedes_iff s).mp hprecedes
    obtain ⟨events, happend⟩ := p.upsert_eq_appended policy hlast (hmemory.mono p.grown_le_reach)
    have hstep : (packed p).change memory (.upsert s policy .latest)
        = (((Step.done (p.appended s) 1).preceded events).counted .packed .upsert).map
          packed id := by
      rw [change, upsert, happend]
    rw [hstep]
    use rfl
    apply p.capacity_appended
  · rw [hafter]
    rintro _ ⟨hne, hmore⟩
    apply hleaves.capacity_of_revised hholds
    · rwa [← hsamples]
    · rwa [← hsamples]
  · rintro _ _ _ rfl ⟨⟩
  · rintro ⟨⟩
  · use within _
    apply within
  · rintro _ ⟨⟩ rebuilt operation
    use p.usedBytes_le_trimTarget rebuilt change.position
    apply p.swapIn_eq_ok

/-! ### Chunks that are the latest -/

/-- Four samples that use 69 of 72 bits. -/
def spaced : PackedChunk :=
  let pair := ((PackedChunk.new 9).add ⟨0, .one⟩).after.add ⟨10, .one⟩
  ((pair.after.add ⟨20, .one⟩).after.add ⟨30, .one⟩).after

theorem reachable_spaced :
  (packed spaced).Reachable
  := ((((Reachable.new .packed 9).change .ample (.add ⟨0, .one⟩)).change .ample
    (.add ⟨10, .one⟩)).change .ample (.add ⟨20, .one⟩)).change .ample (.add ⟨30, .one⟩)

theorem reach_packed
    (p : PackedChunk) :
  (packed p).reach = p.reach
  := rfl

theorem reaches_spaced :
  Memory.ample.Reaches (packed spaced).reach
  := Memory.ample_reaches (by decide +kernel)

/-- If the second sample of `spaced` is deleted, the others take 75 bits. -/
theorem delete_spaced :
  (spaced.delete .ample 10 .latest).outcome = .ok ()
    ∧ (spaced.delete .ample 10 .latest).after.buffer.length = 75
    ∧ (spaced.delete .ample 10 .latest).after.capacity = 10
  := by
  obtain ⟨l, hl⟩ := reachable_spaced.holds
  have hholds : spaced.Holds l.samples := PackedChunk.Sound.holds hl
  have hsamples : l.samples = [⟨0, .one⟩, ⟨10, .one⟩, ⟨20, .one⟩, ⟨30, .one⟩] := by
    rw [← hholds.samples_eq]
    decide +kernel
  have hvalue : l.valueAt? 10 = some .one := by
    rw [Timeline.valueAt?, hsamples]
    rfl
  have hkept : (l.filter (· != 10)).samples = [⟨0, .one⟩, ⟨20, .one⟩, ⟨30, .one⟩] := by
    show l.samples.filter (·.timestamp != 10) = _
    rw [hsamples]
    rfl
  have hmemory := reaches_spaced
  rw [reach_packed] at hmemory
  obtain ⟨houtcome, hafter⟩ := hholds.delete_of_reaches hvalue .latest hmemory
  obtain ⟨hlength, hcapacity⟩ := spaced.size_rewritten_latest (l.filter (· != 10)).samples
  use houtcome
  rw [hafter, hlength, hcapacity, hkept]
  decide +kernel

/-- If `c` is reachable and `memory` is granted, a `change` of `c` at the latest position keeps the
budget.  The stream of a packed chunk may become longer, and so may its buffer, even where a sample
is deleted. -/
theorem keepsBudget_and_lengthens :
  (∀ {c : Chunk} {memory : Memory} {change : Change}, c.Reachable → change.position = .latest →
      (c.encoding = .packed → memory.Reaches c.reach) →
      c.KeepsBudget change (c.change memory change))
    ∧ ∃ (p : PackedChunk) (t : Timestamp), (packed p).Reachable
      ∧ (p.delete .ample t .latest).outcome = .ok ()
      ∧ p.buffer.length < (p.delete .ample t .latest).after.buffer.length
      ∧ p.capacity < (p.delete .ample t .latest).after.capacity
  := by
  constructor
  · intro c memory change hreachable hlatest hmemory
    obtain ⟨l, hl⟩ := hreachable.holds
    cases c with
    | plain p => apply keepsBudget_plain p hlatest
    | packed p => apply keepsBudget_packed hl hlatest (hmemory rfl)
  · obtain ⟨houtcome, hlength, hcapacity⟩ := delete_spaced
    use spaced, 10, reachable_spaced, houtcome
    rw [hlength, hcapacity]
    decide +kernel

/-- A case of `keepsBudget_and_lengthens`: a deletion after which the samples of `spaced` take more
bits, and the chunk one more byte. -/
theorem keepsBudget_spaced :
  let change : Change := .delete 10 .latest
  (packed spaced).Reachable ∧ change.position = .latest
    ∧ Memory.ample.Reaches (packed spaced).reach
    ∧ (packed spaced).KeepsBudget change ((packed spaced).change .ample change)
  := by
  intro change
  exact ⟨reachable_spaced, rfl, reaches_spaced,
    keepsBudget_and_lengthens.1 reachable_spaced rfl fun _ => reaches_spaced⟩

end Chunk

end TimeSeries

