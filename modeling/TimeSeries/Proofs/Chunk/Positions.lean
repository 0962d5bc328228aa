import TimeSeries.Proofs.Chunk.Accounting
import TimeSeries.Proofs.Chunk.Additions
import TimeSeries.Proofs.Chunk.Halves

/-!
# What changes leave

What a change leaves depends on where the chunk stands in its series.  A plain chunk that is the
latest has the slots that there were, or one for each sample if these are more; one that is
sealed has one for each sample.  A packed chunk is the one that there was, or has a sample
behind the others, or is written anew.  Written anew, the latest chunk has the bytes that there
were, or those that it uses if they are more; a sealed one has those that it uses.
-/

namespace TimeSeries

/-- Where a change is made.  A sample is added by `Change.add` to the latest chunk only. -/
def Change.position : Change → ChunkPosition
  | add _ => .latest
  | upsert _ _ position | delete _ position | deleteRange _ position => position

/-! ### Plain chunks -/

namespace PlainChunk

variable {p : PlainChunk}

/-- The slots of `p` after a change at `position` that leaves `length` samples. -/
def slotsAt (p : PlainChunk) (position : ChunkPosition) (length : Nat) : Nat :=
  match position with
  | .latest => max p.slots length
  | .sealed => length

/-- The chunk `d` has the slots of `p`, or one for each of its samples if these are more. -/
def Extends (p d : PlainChunk) : Prop := d.slots = max p.slots d.length

theorem extends_of_slots_eq
    {d : PlainChunk} (h : d.slots = p.slots) :
  p.Extends d
  := by
  rw [Extends, Nat.max_eq_left]
  · apply h
  · rw [← h]
    apply d.length_le

theorem extends_put
    (p : PlainChunk) (s : Sample) :
  p.Extends (p.put s)
  := by
  rw [Extends, length_eq, timeline_put]
  rfl

/-- The step `p.add s` leaves as many slots as `p` has. -/
theorem add_slots
    (p : PlainChunk) (s : Sample) :
  (p.add s).Ends (fun _ d => d.slots = p.slots) fun _ d => d = p
  := by
  rw [add]
  rcases p.append_cases s with ⟨hroom, hlast⟩ | ⟨e, herror, _⟩
  · obtain ⟨d, happend, _, hslots⟩ := append_eq_ok hroom hlast
    rw [happend]
    apply Step.ends_done
    exact hslots
  · rw [herror]
    apply Step.ends_fail
    rfl

theorem upsert_extends
    (p : PlainChunk) (s : Sample) (policy : DuplicatePolicy) :
  (p.upsert s policy).Ends (fun _ d => p.Extends d) fun _ d => d = p
  := by
  rw [upsert_eq]
  split
  · apply Step.ends_done
    apply p.extends_put
  · split
    · apply Step.Ends.preceded
      apply Step.ends_done
      apply p.extends_put
    · apply Step.Ends.preceded
      apply Step.ends_fail
      rfl

theorem delete_extends
    (p : PlainChunk) (t : Timestamp) :
  (p.delete t).Ends (fun _ d => p.Extends d) fun _ d => d = p
  := by
  rw [delete_eq]
  split
  · apply Step.ends_done
    apply extends_of_slots_eq
    rfl
  · apply Step.ends_fail
    rfl

theorem deleteRange_extends
    (p : PlainChunk) (range : TimeRange) :
  (p.deleteRange range).Ends (fun _ d => p.Extends d) fun _ d => d = p
  := by
  rw [deleteRange_eq]
  apply Step.ends_done
  apply extends_of_slots_eq
  rfl

/-- If the slots that `s` leaves extend those of `p`, then `settle position s` leaves the slots that
`slotsAt` says: in a sealed chunk only those that are taken. -/
theorem settle_slots
    {α : Type} {s : Step PlainChunk α} (position : ChunkPosition)
    (h : s.Ends (fun _ d => p.Extends d) fun _ d => d = p) :
  (settle position s).Ends (fun _ d => d.slots = p.slotsAt position d.length) fun _ d => d = p
  := by
  cases position with
  | latest => exact h
  | sealed =>
    rw [settle.eq_def]
    cases houtcome : s.outcome with
    | ok a =>
      rw [Step.Ends]
      dsimp only
      rw [houtcome]
      rfl
    | error e =>
      rw [Step.Ends]
      dsimp only
      rw [houtcome]
      apply h.of_error houtcome

end PlainChunk

/-! ### Packed chunks -/

namespace PackedChunk

variable {c d : PackedChunk} {l : Timeline}

/-- What a change of `c`, which holds `l`, leaves: the chunk `c`, the chunk with a sample behind the
others, or `c` written anew for samples that are neither. -/
inductive Leaves (c : PackedChunk) (l : Timeline) (position : ChunkPosition) : PackedChunk → Prop
    where
  | same : c.Leaves l position c
  | appended {s : Sample} (hlast : ∀ last ∈ l.last?, last < s.timestamp) :
      c.Leaves l position ((c.appended s).atPosition position)
  | rewritten {l' : Timeline} (hne : l'.samples ≠ l.samples)
      (hmore : ∀ s, l'.samples ≠ l.samples ++ [s]) :
      c.Leaves l position (c.rewritten l'.samples position)

theorem Leaves.of_acts
    {l' : Timeline} {change : Change} {n : Nat} (position : ChunkPosition)
    (hacts : change.Acts l n l') (hrewrites : change.rewrites l = true) :
  c.Leaves l position (c.rewritten l'.samples position)
  := by
  obtain ⟨hne, hmore⟩ := hacts.rewrites_iff.mp hrewrites
  apply Leaves.rewritten hne hmore

theorem add_leaves
    (h : c.Holds l.samples) (s : Sample) :
  (c.add s).Ends (fun _ d => c.Leaves l .latest d) fun _ d => d = c
  := by
  have hlast : c.last? = l.last? := h.last?_eq
  apply (c.append_ends .ample s false).mono
  · rintro _ _ ⟨rfl, hafter, _⟩
    rw [hlast] at hafter
    apply Leaves.appended hafter
  · rintro _ _ ⟨rfl, _⟩
    rfl

theorem upsert_leaves
    (memory : Memory) (h : c.Holds l.samples) (s : Sample) (policy : DuplicatePolicy)
    (position : ChunkPosition) :
  (c.upsert memory s policy position).Ends (fun _ d => c.Leaves l position d) fun _ d => d = c
  := by
  have hlast : c.last? = l.last? := h.last?_eq
  -- A sample behind the others would also be an insertion, so these come first.
  by_cases hafter : ∀ last ∈ l.last?, last < s.timestamp
  · have hall : c.last?.all (· < s.timestamp) = true := by
      rw [hlast]
      cases hsome : l.last? with
      | none => rfl
      | some last => apply decide_eq_true (hafter last hsome)
    rw [upsert, if_pos hall]
    have happend : (c.append memory s true).Ends (fun _ d => d = c.appended s) fun _ d => d = c :=
      (c.append_ends memory s true).mono (fun _ _ hd => hd.1) fun _ _ hd => hd.1
    apply happend.andThen
    rintro _ _ rfl
    apply Step.ends_done
    apply Leaves.appended hafter
  · apply (upsert_ends memory h s policy position).mono
    · rintro n d hupserted
      cases hupserted with
      | appended hlast => contradiction
      | inserted hnone =>
        have hrewrites : (Change.upsert s policy position).rewrites l = true := by
          rw [Change.rewrites, hnone]
          cases hsome : l.last? with
          | none => simp [hsome] at hafter
          | some last => simpa [hsome] using hafter
        apply Leaves.of_acts position (.insert hnone) hrewrites
      | kept => apply Leaves.same
      | resolved hsome hresolve hne =>
        have hrewrites : (Change.upsert s policy position).rewrites l = true := by
          rw [Change.rewrites, hsome]
          simpa [hresolve] using hne
        apply Leaves.of_acts position (.resolve hsome hresolve) hrewrites
    · rintro _ _ ⟨rfl, _⟩
      rfl

theorem delete_leaves
    (memory : Memory) (h : c.Holds l.samples) (t : Timestamp) (position : ChunkPosition) :
  (c.delete memory t position).Ends (fun _ d => c.Leaves l position d) fun _ d => d = c
  := by
  apply (delete_ends memory h t position).mono
  · rintro _ _ ⟨⟨value, hvalue⟩, rfl⟩
    apply Leaves.of_acts position (@Change.Acts.delete _ _ position _ hvalue) rfl
  · rintro _ _ ⟨rfl, _⟩
    rfl

theorem deleteRange_leaves
    (memory : Memory) (h : c.Holds l.samples) (range : TimeRange) (position : ChunkPosition) :
  (c.deleteRange memory range position).Ends (fun _ d => c.Leaves l position d) fun _ d => d = c
  := by
  apply (deleteRange_ends memory h range position).mono
  · rintro n _ ⟨hn, rfl⟩
    split
    · apply Leaves.same
    · rename_i hne
      rw [hn] at hne
      apply Leaves.of_acts position (@Change.Acts.deleteRange _ _ position) (decide_eq_true hne)
  · rintro _ _ ⟨rfl, _⟩
    rfl

/-- The samples of `c` rewritten with those of `l'` are those of `l'`. -/
theorem samples_rewritten
    (c : PackedChunk) (l' : Timeline) (position : ChunkPosition) :
  (c.rewritten l'.samples position).samples = l'.samples
  := (c.packs_rewritten l'.samples position).holds.samples_eq

theorem usedBytes_settled
    (c rebuilt : PackedChunk) (position : ChunkPosition) :
  (c.settled rebuilt position).buffer.usedBytes = rebuilt.buffer.usedBytes
  := by
  cases position <;> rfl

/-- If `c` is the latest chunk, rewriting it leaves the bytes of `c`, or those that are used if they
are more. -/
theorem capacity_rewritten_latest
    (c : PackedChunk) (samples : List Sample) :
  (c.rewritten samples .latest).capacity
    = max c.capacity (c.rewritten samples .latest).buffer.usedBytes
  := by
  rw [rewritten, usedBytes_settled]
  apply BitBuffer.capacity_resize _ _ (usedBytes_le_max _ _)

/-- If `c` is sealed, rewriting it leaves just the bytes that are used. -/
theorem capacity_rewritten_sealed
    (c : PackedChunk) (samples : List Sample) :
  (c.rewritten samples .sealed).capacity = (c.rewritten samples .sealed).buffer.usedBytes
  := by
  rw [rewritten, usedBytes_settled]
  apply BitBuffer.capacity_resize _ _ (Nat.le_refl _)

theorem capacity_tighten
    (c : PackedChunk) :
  c.tighten.capacity = c.tighten.buffer.usedBytes
  := BitBuffer.capacity_resize _ _ (Nat.le_refl _)

/-- If `s` does not fit behind the samples of `c`, appending it takes one portion, and otherwise no
bytes. -/
theorem capacity_appended
    (c : PackedChunk) (s : Sample) :
  (c.appended s).capacity
    = c.capacity + if (Chunk.packed c).Crowded s then growthBytes else 0
  := by
  by_cases hroom : c.count = 0 ∨ c.Fits s
  · have hnot : ¬(Chunk.packed c).Crowded s := fun hcrowded => not_or.mpr hcrowded hroom
    rw [capacity_appended_of_room hroom, if_neg hnot, Nat.add_zero]
  · have hcrowded : (Chunk.packed c).Crowded s := not_or.mp hroom
    rw [appended, if_neg hcrowded.1, capacity_packed, if_neg hcrowded.2, if_pos hcrowded]

/-- If `c` holds `l` and `s` is appended, the samples are those of `l` with `s` behind them, also
where a sealed chunk then gives up bytes. -/
theorem Holds.samples_appended
    (h : c.Holds l.samples) (s : Sample) (position : ChunkPosition) :
  ((c.appended s).atPosition position).samples = l.samples ++ [s]
  := by
  have hholds := h.appended s
  cases position with
  | latest => apply hholds.samples_eq
  | sealed => apply hholds.tighten.samples_eq

/-- The number of bits in which `samples` are packed. -/
def packedLength (samples : List Sample) : Nat :=
  ((Replay.start (samples.headD ⟨0, .zero⟩)).bits 1 samples.tail).length

theorem Packs.length_eq
    {samples : List Sample} (h : c.Packs samples) :
  c.buffer.length = packedLength samples
  := by
  rw [← BitBuffer.length_toList, h.bits, h.base, packedLength]

/-- Rewriting the latest chunk `c` with `samples` takes the bits in which these are packed, and more
bytes than `c` has only where they need them. -/
theorem size_rewritten_latest
    (c : PackedChunk) (samples : List Sample) :
  (c.rewritten samples .latest).buffer.length = packedLength samples
    ∧ (c.rewritten samples .latest).capacity = max c.capacity ((packedLength samples + 7) / 8)
  := by
  have hlength := (c.packs_rewritten samples .latest).length_eq
  use hlength
  rw [← hlength]
  apply c.capacity_rewritten_latest

/-- If `c` holds `l`, which has a sample at `t`, and `memory` is granted, then the deletion at `t`
succeeds and leaves `c` rewritten with the other samples. -/
theorem Holds.delete_of_reaches
    {memory : Memory} {t : Timestamp} {value : Binary64} (h : c.Holds l.samples)
    (hvalue : l.valueAt? t = some value) (position : ChunkPosition)
    (hmemory : memory.Reaches c.reach) :
  (c.delete memory t position).outcome = .ok ()
    ∧ (c.delete memory t position).after = c.rewritten (l.filter (· != t)).samples position
  := by
  have hends := delete_ends memory h t position
  cases houtcome : (c.delete memory t position).outcome with
  | ok _ =>
    use rfl
    apply (hends.of_ok houtcome).2
  | error e =>
    obtain ⟨_, hfails⟩ := hends.of_error houtcome
    cases hfails with
    | notFound hnone =>
      rw [hvalue] at hnone
      cases hnone
    | declined hdeclines =>
      cases hdeclines with
      | outOfMemory _ hrefuses => cases hrefuses.not_reaches hmemory

end PackedChunk

/-! ### Chunks of either encoding -/

namespace Chunk

variable {c : Chunk} {l : Timeline} {memory : Memory} {change : Change}

/-- If `s` leaves something with the property `left` or fails and leaves `d`, so does `s` taken as a
step of a chunk. -/
theorem ends_of_counted
    {σ α : Type} {s : Step σ α} {left : σ → Prop} {d : σ} (encoded : σ → Chunk)
    (encoding : Encoding) (operation : Operation)
    (h : s.Ends (fun _ d => left d) fun _ d' => d' = d) :
  ((s.counted encoding operation).map encoded id).Ends
    (fun _ after => ∃ d, after = encoded d ∧ left d) fun _ after => after = encoded d
  := by
  apply Step.Ends.map
  apply Step.Ends.counted
  apply h.mono
  · intro _ d hd
    use d
  · rintro _ _ rfl
    rfl

/-- A change of the plain chunk `p` leaves a plain chunk with the slots that `slotsAt` says, or
fails and leaves `p`. -/
theorem plain_slots
    (p : PlainChunk) (memory : Memory) (change : Change) :
  ((plain p).change memory change).Ends
    (fun _ d => ∃ q, d = plain q ∧ q.slots = p.slotsAt change.position q.length)
    fun _ d => d = plain p
  := by
  cases change with
  | add s =>
    apply Step.Ends.map
    apply ends_of_counted plain .plain .add
    apply (p.add_slots s).mono_good
    intro _ d hd
    apply PlainChunk.extends_of_slots_eq hd
  | upsert s policy position =>
    apply ends_of_counted plain .plain .upsert
    apply PlainChunk.settle_slots position (p.upsert_extends s policy)
  | delete t position =>
    apply Step.Ends.map
    apply ends_of_counted plain .plain .delete
    apply PlainChunk.settle_slots position (p.delete_extends t)
  | deleteRange range position =>
    apply ends_of_counted plain .plain .deleteRange
    apply PlainChunk.settle_slots position (p.deleteRange_extends range)

/-- If the packed chunk `p` holds `l`, then a change of it leaves what `Leaves` says, or fails and
leaves `p`. -/
theorem packed_leaves
    {p : PackedChunk} (h : p.Holds l.samples) (memory : Memory) (change : Change) :
  ((packed p).change memory change).Ends
    (fun _ d => ∃ q, d = packed q ∧ p.Leaves l change.position q) fun _ d => d = packed p
  := by
  cases change with
  | add s =>
    apply Step.Ends.map
    apply ends_of_counted packed .packed .add (PackedChunk.add_leaves h s)
  | upsert s policy position =>
    apply ends_of_counted packed .packed .upsert
      (PackedChunk.upsert_leaves memory h s policy position)
  | delete t position =>
    apply Step.Ends.map
    apply ends_of_counted packed .packed .delete (PackedChunk.delete_leaves memory h t position)
  | deleteRange range position =>
    apply ends_of_counted packed .packed .deleteRange
      (PackedChunk.deleteRange_leaves memory h range position)

theorem packed_after
    {p : PackedChunk} (h : p.Holds l.samples) (memory : Memory) (change : Change) :
  ∃ q, ((packed p).change memory change).after = packed q ∧ p.Leaves l change.position q
  := by
  apply Step.Ends.after (P := fun d => ∃ q, d = packed q ∧ p.Leaves l change.position q)
  apply (packed_leaves h memory change).mono_bad
  rintro _ _ rfl
  use p, rfl
  apply PackedChunk.Leaves.same

end Chunk

end TimeSeries
