import TimeSeries.Proofs.Chunk.Appending

/-!
# Writing packed chunks anew

`c.rewritten samples position` is what takes the place of the chunk `c` when samples are
written anew.  An insertion or a removal leaves this chunk for the changed timeline, or
the chunk as it was: where nothing is to be changed, and where it fails.  A removal fails
where there is nothing to remove, an insertion where the policy refuses it, and either
where memory is refused.
-/

namespace TimeSeries

namespace PackedChunk

/-! ### Replacements -/

theorem packs_new
    (bytes : Nat) :
  (new bytes).Packs []
  := by
  constructor
  · rfl
  · rfl
  · rfl
  · rfl
  · apply BitBuffer.clean_zeros

@[simp] theorem capacity_new
    (bytes : Nat) :
  (new bytes).capacity = bytes
  := BitBuffer.capacity_zeros bytes

/-- The call `allocate memory bytes` gives a chunk without samples, unless `memory` refuses the
`bytes`. -/
theorem allocate_cases
    (memory : Memory) (bytes : Nat) :
  allocate memory bytes = .ok (new bytes)
    ∨ ∃ e, allocate memory bytes = .error e ∧ memory.Refuses bytes (.packing e)
  := by
  rw [allocate, BitBuffer.allocate]
  rcases (BitBuffer.zeros 0).grow_cases memory bytes with hgrow | ⟨⟨shortage, hgrow⟩, hreaches⟩
  · left
    rw [hgrow, BitBuffer.zeros_extend]
    rfl
  · right
    rw [BitBuffer.capacity_zeros, Nat.zero_add] at hreaches
    use .outOfMemory shortage
    rw [hgrow]
    use rfl, ⟨shortage, rfl⟩, hreaches

/-- The bytes of the chunk in which `c` is written anew. -/
def replacementBytes (c : PackedChunk) : Nat :=
  if c.capacity - c.buffer.usedBytes < headroomBytes then
    min (c.capacity + headroomBytes) (wordLimit - 1)
  else c.capacity

theorem replacement_cases
    (memory : Memory) (c : PackedChunk) :
  c.replacement memory = .ok (new c.replacementBytes)
    ∨ ∃ e, c.replacement memory = .error e ∧ memory.Refuses c.replacementBytes (.packing e)
  := allocate_cases memory c.replacementBytes

/-- The most bytes that a change of `c` asks for. -/
def reach (c : PackedChunk) : Nat :=
  c.capacity + headroomBytes + growthBytes * (c.length + 1)

theorem replacementBytes_le
    (c : PackedChunk) :
  c.replacementBytes ≤ c.capacity + headroomBytes
  := by
  rw [replacementBytes]
  split
  · apply Nat.min_le_left
  · apply Nat.le_add_right

theorem replacementBytes_le_reach
    (c : PackedChunk) :
  c.replacementBytes ≤ c.reach
  := Nat.le_trans c.replacementBytes_le (Nat.le_add_right _ _)

/-- If `first` and `second` are at most one sample more than `c` has, writing them to the
replacement of `c` stays within `c.reach`. -/
theorem le_reach
    (c : PackedChunk) (first second : List Sample)
    (h : first.length + second.length ≤ c.length + 1) :
  ((new c.replacementBytes).appendedAll first).capacity + growthBytes * second.length ≤ c.reach
  := by
  have hfirst := (new c.replacementBytes).capacity_appendedAll_le first
  have hreplacement := c.replacementBytes_le
  have hgrowth := Nat.mul_le_mul_left growthBytes h
  rw [capacity_new] at hfirst
  rw [Nat.mul_add] at hgrowth
  rw [reach]
  omega

/-- A packed chunk declines an addition for want of room, and any other change for want of
`memory`. -/
inductive Declines (memory : Memory) (c : PackedChunk) : Change → ChunkError → Prop where
  | full {s : Sample} (hcount : c.count ≠ 0) (hfits : ¬c.Fits s) :
      Declines memory c (.add s) (.full c.capacity)
  | outOfMemory {change : Change} {e : ChunkError} (hadd : ∀ s, change ≠ .add s)
      (h : memory.Refuses c.reach e) : Declines memory c change e

theorem usedBytes_le_max
    (c rebuilt : PackedChunk) :
  rebuilt.buffer.usedBytes ≤ max c.capacity rebuilt.buffer.usedBytes
  := Nat.le_max_right _ _

/-- The chunk `rebuilt` with the size of the buffer that it gets when it takes the place of `c`. -/
def settled (c rebuilt : PackedChunk) (position : ChunkPosition) : PackedChunk :=
  { rebuilt with
    buffer :=
      match position with
      | .latest => rebuilt.buffer.resize (max c.capacity rebuilt.buffer.usedBytes)
          (usedBytes_le_max c rebuilt)
      | .sealed => rebuilt.buffer.tighten }

/-- What takes the place of `c` when `samples` are written anew. -/
def rewritten (c : PackedChunk) (samples : List Sample) (position : ChunkPosition) : PackedChunk :=
  c.settled ((new c.replacementBytes).appendedAll samples) position

/-- If `c` packs `samples`, so does `c` in a buffer of any other size with room for its bits. -/
theorem Packs.resize
    {c : PackedChunk} {samples : List Sample} (h : c.Packs samples) (bytes : Nat)
    (hbytes : c.buffer.usedBytes ≤ bytes) :
  Packs { c with buffer := c.buffer.resize bytes hbytes } samples
  := by
  constructor
  · apply h.count
  · apply h.base
  · apply h.state
  · rw [← h.bits]
    apply BitBuffer.toList_resize _ _ hbytes
  · apply h.clean.resize _ hbytes

theorem packs_rewritten
    (c : PackedChunk) (samples : List Sample) (position : ChunkPosition) :
  (c.rewritten samples position).Packs samples
  := by
  have hpacks := (packs_new c.replacementBytes).appendedAll samples
  cases position with
  | latest => apply hpacks.resize
  | sealed => apply hpacks.resize

/-- If `c.settled rebuilt position` is as `good` asks, then so is what
`c.replaceBy rebuilt operation position` leaves. -/
theorem replaceBy_ends
    (c rebuilt : PackedChunk) (operation : Operation) (position : ChunkPosition)
    {good : Unit → PackedChunk → Prop} {bad : ChunkError → PackedChunk → Prop}
    (h : good () (c.settled rebuilt position)) :
  (c.replaceBy rebuilt operation position).Ends good bad
  := by
  apply Step.Ends.followed
  apply Step.ends_done
  cases position with
  | latest => apply h
  | sealed => apply h

variable {α : Type} {c : PackedChunk} {l : Timeline}

/-- If `rebuilt` holds `written` and `samples` follow them, then writing them to `rebuilt` ends as
`next` does from there, unless `memory` is refused, which leaves `c`. -/
theorem writeAnew_ends
    {memory : Memory} {rebuilt : PackedChunk} {held written samples : List Sample}
    {next : PackedChunk → Step PackedChunk α} {good : α → PackedChunk → Prop}
    {bad : ChunkError → PackedChunk → Prop} (h : c.Holds held) (hrebuilt : rebuilt.Holds written)
    (hincreasing : (written ++ samples).Pairwise fun a b => a.timestamp < b.timestamp)
    (hnext : (next (rebuilt.appendedAll samples)).Ends good bad)
    (hbad : ∀ e, memory.Refuses (rebuilt.capacity + growthBytes * samples.length) e → bad e c) :
  (c.writeAnew memory rebuilt samples next).Ends good bad
  := by
  have hwrite := appendAll_ends memory hrebuilt hincreasing
  apply (hwrite.mono_bad fun e _ => hbad e).onCopy
  rintro _ _ rfl
  rw [h.fault?_eq]
  apply hnext

/-- Writing `first` to the replacement of `c` and then `second` leaves what writing
`first ++ second` leaves. -/
theorem settled_appendedAll
    (c : PackedChunk) (first second : List Sample) (position : ChunkPosition) :
  c.settled (((new c.replacementBytes).appendedAll first).appendedAll second) position
    = c.rewritten (first ++ second) position
  := by
  rw [rewritten, appendedAll, appendedAll, appendedAll, List.foldl_append]

theorem Holds.length_eq
    (h : c.Holds l.samples) :
  c.length = l.length
  := h.count_eq

/-- If `c` holds `l`, writing the samples of `l` before `t` anew stays within `c.reach`. -/
theorem Holds.before_le_reach
    (h : c.Holds l.samples) (t : Timestamp) :
  (new c.replacementBytes).capacity + growthBytes * (l.before t).length ≤ c.reach
  := by
  have hlength := l.length_before_after t
  apply c.le_reach [] (l.before t)
  rw [List.length_nil, h.length_eq]
  omega

/-- If `c` holds `l`, writing the samples of `l` that `keep` selects anew stays within `c.reach`. -/
theorem Holds.filter_le_reach
    (h : c.Holds l.samples) (keep : Timestamp → Bool) :
  (new c.replacementBytes).capacity + growthBytes * (l.filter keep).samples.length ≤ c.reach
  := by
  apply c.le_reach [] (l.filter keep).samples
  rw [List.length_nil, Nat.zero_add, h.length_eq]
  apply Nat.le_succ_of_le (l.length_filter_le keep)

/-- The `change` fails on `l` with the error `e`, and the chunk left is `c`. -/
def Unchanged (memory : Memory) (c : PackedChunk) (l : Timeline) (change : Change)
    (e : ChunkError) (d : PackedChunk) : Prop :=
  d = c ∧ change.Fails (c.Declines memory) l e

theorem unchanged_of_fails
    {memory : Memory} {change : Change} {e : ChunkError}
    (h : change.Fails (c.Declines memory) l e) :
  Unchanged memory c l change e c
  := ⟨rfl, h⟩

theorem unchanged_of_refuses
    {memory : Memory} {change : Change} (hadd : ∀ s, change ≠ .add s) {bytes : Nat}
    (hle : bytes ≤ c.reach) (e : ChunkError) (h : memory.Refuses bytes e) :
  Unchanged memory c l change e c
  := unchanged_of_fails (.declined (.outOfMemory hadd (h.mono hle)))

/-! ### Removals -/

/-- If `range` does not reach from the first time of `c` to its last, it contains none of its
samples. -/
theorem Holds.not_contains_of_outside
    (h : c.Holds l.samples) (range : TimeRange)
    (houtside : ¬(c.first?.any (· ≤ range.stop) && c.last?.any (range.start ≤ ·)) = true)
    {x : Sample} (hx : x ∈ l.samples) :
  range.contains x.timestamp = false
  := by
  rw [Bool.eq_false_iff, Ne, TimeRange.contains_iff]
  rintro ⟨hstart, hstop⟩
  apply houtside
  obtain ⟨first, hfirst, hle⟩ := Timeline.exists_first_le hx
  obtain ⟨last, hlast, hge⟩ := Timeline.exists_le_last hx
  have hfirst : c.first? = some first := h.first?_eq.trans hfirst
  have hlast : c.last? = some last := h.last?_eq.trans hlast
  rw [hfirst, hlast, Option.any_some, Option.any_some, Bool.and_eq_true, decide_eq_true_eq,
    decide_eq_true_eq]
  constructor
  · apply Int64.le_trans hle hstop
  · apply Int64.le_trans hstart hge

/-- If `c` holds `l`, then `c.delete memory t position` leaves `c` without the sample at `t`, or
fails and leaves `c`. -/
theorem delete_ends
    (memory : Memory) (h : c.Holds l.samples) (t : Timestamp) (position : ChunkPosition) :
  (c.delete memory t position).Ends
    (fun _ d => (∃ value, l.valueAt? t = some value)
      ∧ d = c.rewritten (l.filter (· != t)).samples position)
    (Unchanged memory c l (.delete t position))
  := by
  have hadd (x : Sample) : Change.delete t position ≠ .add x := by rintro ⟨⟩
  have hincreasing := (l.filter (· != t)).increasing
  have hreach := h.filter_le_reach (· != t)
  rw [delete]
  split
  · rcases c.replacement_cases memory with hreplacement | ⟨e, hreplacement, hrefuses⟩
    · rw [hreplacement]
      dsimp only
      rw [h.samples_eq, l.any_eq_isSome t]
      apply writeAnew_ends h (packs_new _).holds hincreasing _ (unchanged_of_refuses hadd hreach)
      cases hvalue : l.valueAt? t with
      | none =>
        apply Step.ends_fail
        apply unchanged_of_fails (.notFound hvalue)
      | some value =>
        apply replaceBy_ends
        use ⟨value, rfl⟩
        rfl
    · rw [hreplacement]
      apply Step.ends_fail
      apply unchanged_of_refuses hadd c.replacementBytes_le_reach _ hrefuses
  · rename_i houtside
    apply Step.ends_fail
    apply unchanged_of_fails
    apply Change.Fails.notFound
    apply (l.valueAt?_eq_none_iff t).mpr
    rintro x hx rfl
    have hnot := h.not_contains_of_outside ⟨x.timestamp, x.timestamp⟩ houtside hx
    simp [TimeRange.contains] at hnot

/-- If `c` holds `l`, then `c.deleteRange memory range position` leaves `c` without the samples in
`range`, or fails and leaves `c`.  Where there are no such samples it succeeds and leaves `c` as
well. -/
theorem deleteRange_ends
    (memory : Memory) (h : c.Holds l.samples) (range : TimeRange) (position : ChunkPosition) :
  (c.deleteRange memory range position).Ends
    (fun n d => n = l.samples.countP (range.contains ·.timestamp)
      ∧ d = if n = 0 then c else c.rewritten (l.filter (!range.contains ·)).samples position)
    (Unchanged memory c l (.deleteRange range position))
  := by
  have hadd (x : Sample) : Change.deleteRange range position ≠ .add x := by rintro ⟨⟩
  have hincreasing := (l.filter (!range.contains ·)).increasing
  have hreach := h.filter_le_reach (!range.contains ·)
  rw [deleteRange]
  split
  · rcases c.replacement_cases memory with hreplacement | ⟨e, hreplacement, hrefuses⟩
    · rw [hreplacement]
      dsimp only
      rw [h.samples_eq]
      apply writeAnew_ends h (packs_new _).holds hincreasing _ (unchanged_of_refuses hadd hreach)
      split
      · rename_i hnone
        apply Step.ends_done
        use hnone.symm
        rw [if_pos rfl]
      · rename_i hsome
        apply Step.Ends.map
        apply replaceBy_ends
        use rfl
        rw [if_neg hsome]
        rfl
    · rw [hreplacement]
      apply Step.ends_fail
      apply unchanged_of_refuses hadd c.replacementBytes_le_reach _ hrefuses
  · rename_i houtside
    have hnone : l.samples.countP (range.contains ·.timestamp) = 0 := by
      apply List.countP_eq_zero.mpr
      intro x hx
      rw [h.not_contains_of_outside range houtside hx]
      decide
    apply Step.ends_done
    use hnone.symm
    rfl

/-! ### Insertions -/

/-- The chunk `c` at its `position` in the series, where a sealed chunk gives up what it does not
use. -/
def atPosition (c : PackedChunk) (position : ChunkPosition) : PackedChunk :=
  match position with
  | .latest => c
  | .sealed => c.tighten

/-- What an upsert of `s` leaves of a chunk `c` that holds `l`, with the number of samples added. -/
inductive Upserted (c : PackedChunk) (l : Timeline) (s : Sample) (policy : DuplicatePolicy)
    (position : ChunkPosition) : Nat → PackedChunk → Prop where
  /-- The sample is after all others. -/
  | appended (hlast : ∀ last ∈ l.last?, last < s.timestamp) :
      c.Upserted l s policy position 1 ((c.appended s).atPosition position)
  /-- There is no sample at this time. -/
  | inserted (hnone : l.valueAt? s.timestamp = none) :
      c.Upserted l s policy position 1 (c.rewritten (l.put s).samples position)
  /-- The sample at this time stays. -/
  | kept {existing : Binary64} (hsome : l.valueAt? s.timestamp = some existing)
      (hresolve : policy.resolve? existing s.value = some existing) :
      c.Upserted l s policy position 0 c
  /-- The sample at this time gets another value. -/
  | resolved {existing value : Binary64} (hsome : l.valueAt? s.timestamp = some existing)
      (hresolve : policy.resolve? existing s.value = some value) (hne : value ≠ existing) :
      c.Upserted l s policy position 0
        (c.rewritten (l.put ⟨s.timestamp, value⟩).samples position)

/-- If `next` ends well from the samples before `t` in the replacement of `c`, so does writing them
and going on with `next`, unless `memory` is refused. -/
theorem before_ends
    (memory : Memory) {next : PackedChunk → Step PackedChunk α}
    {good : α → PackedChunk → Prop} {bad : ChunkError → PackedChunk → Prop} (t : Timestamp)
    (hnext : (next ((new c.replacementBytes).appendedAll (l.before t))).Ends good bad)
    (hbad : ∀ e, memory.Refuses ((new c.replacementBytes).capacity
      + growthBytes * (l.before t).length) e → bad e c) :
  (((new c.replacementBytes).appendAll memory (l.before t)).onCopy c fun d _ => next d).Ends
    good bad
  := by
  have hincreasing := l.increasing
  rw [l.samples_eq t] at hincreasing
  have hbefore := (List.pairwise_append.mp hincreasing).1
  have hwrite := appendAll_ends memory (packs_new c.replacementBytes).holds hbefore
  apply (hwrite.mono_bad fun e _ => hbad e).onCopy
  rintro _ _ rfl
  apply hnext

/-- If `good` holds of `c` rewritten with `first ++ second`, it holds of what a replacement with
these samples leaves. -/
theorem finish_ends
    {good : α → PackedChunk → Prop} {bad : ChunkError → PackedChunk → Prop} (c : PackedChunk)
    (first second : List Sample) (operation : Operation) (position : ChunkPosition)
    (f : Unit → α) (h : good (f ()) (c.rewritten (first ++ second) position)) :
  ((c.replaceBy (((new c.replacementBytes).appendedAll first).appendedAll second) operation
    position).map id f).Ends good bad
  := by
  rw [← settled_appendedAll] at h
  apply Step.Ends.map
  apply c.replaceBy_ends _ operation position h

/-- If `c` holds `l`, writing `x` between the samples before it and those after it leaves `c`
rewritten with `l.put x`, or fails and leaves `c`. -/
theorem splice_ends
    (memory : Memory) (h : c.Holds l.samples) {s x : Sample} {policy : DuplicatePolicy}
    {position : ChunkPosition} {n : Nat}
    (hupserted : c.Upserted l s policy position n (c.rewritten (l.put x).samples position)) :
  (c.writeAnew memory ((new c.replacementBytes).appendedAll (l.before x.timestamp))
      (x :: l.after x.timestamp)
      fun rebuilt => (c.replaceBy rebuilt .upsert position).map id fun _ => n).Ends
    (c.Upserted l s policy position) (Unchanged memory c l (.upsert s policy position))
  := by
  have hadd (y : Sample) : Change.upsert s policy position ≠ .add y := by rintro ⟨⟩
  have hfirst := ((packs_new c.replacementBytes).appendedAll (l.before x.timestamp)).holds
  have hincreasing := (l.put x).increasing
  have hlength : (l.before x.timestamp).length + (x :: l.after x.timestamp).length
      ≤ c.length + 1 := by
    rw [h.length_eq]
    apply Nat.succ_le_succ (l.length_before_after x.timestamp)
  have hreach := c.le_reach _ _ hlength
  rw [Timeline.samples_put] at hupserted hincreasing
  apply writeAnew_ends h hfirst hincreasing _ (unchanged_of_refuses hadd hreach)
  apply finish_ends c _ _ _ _ _ hupserted

/-- If `c` holds `l` and no sample of `l` is after `s`, writing those before it and then `s` leaves
`c` rewritten with `l.put s`, or fails and leaves `c`. -/
theorem insertLast_ends
    (memory : Memory) (h : c.Holds l.samples) {s : Sample} {policy : DuplicatePolicy}
    {position : ChunkPosition} (hafter : l.after s.timestamp = [])
    (hupserted : c.Upserted l s policy position 1 (c.rewritten (l.put s).samples position)) :
  (c.writeAnew memory (new c.replacementBytes) (l.before s.timestamp) fun rebuilt =>
      (rebuilt.append memory s true).onCopy c fun rebuilt _ =>
        (c.replaceBy rebuilt .upsert position).map id fun _ => 1).Ends
    (c.Upserted l s policy position) (Unchanged memory c l (.upsert s policy position))
  := by
  have hadd (y : Sample) : Change.upsert s policy position ≠ .add y := by rintro ⟨⟩
  have hfirst := ((packs_new c.replacementBytes).appendedAll (l.before s.timestamp)).holds
  have hincreasing := (l.put s).increasing
  have hlength : (l.before s.timestamp).length + [s].length ≤ c.length + 1 := by
    have hle := l.length_before_after s.timestamp
    rw [h.length_eq, List.length_singleton]
    omega
  have hreach := c.le_reach _ _ hlength
  rw [Timeline.samples_put, hafter] at hupserted hincreasing
  apply writeAnew_ends h (packs_new _).holds _ _ (unchanged_of_refuses hadd (h.before_le_reach _))
  · apply (List.pairwise_append.mp hincreasing).1
  · have happend := append_ends_of_increasing memory hfirst hincreasing
    apply (happend.mono_bad fun e _ => unchanged_of_refuses hadd hreach e).onCopy
    rintro _ _ rfl
    apply finish_ends c _ [s] _ _ _ hupserted

/-- If `c` holds `l`, then `c.insert memory s policy position` leaves what `Upserted` says, or fails
and leaves `c`. -/
theorem insert_ends
    (memory : Memory) (h : c.Holds l.samples) (s : Sample) (policy : DuplicatePolicy)
    (position : ChunkPosition) :
  (c.insert memory s policy position).Ends (c.Upserted l s policy position)
    (Unchanged memory c l (.upsert s policy position))
  := by
  have hadd (x : Sample) : Change.upsert s policy position ≠ .add x := by rintro ⟨⟩
  obtain ⟨htakeWhile, hdropWhile⟩ := l.span_eq s.timestamp
  rw [insert]
  rcases c.replacement_cases memory with hreplacement | ⟨e, hreplacement, hrefuses⟩
  · rw [hreplacement]
    dsimp only
    rw [h.samples_eq, htakeWhile, hdropWhile, Timeline.at?]
    cases hvalue : l.valueAt? s.timestamp with
    | none =>
      have hinserted : c.Upserted l s policy position 1 (c.rewritten (l.put s).samples position) :=
        .inserted hvalue
      dsimp only [Option.map_none, Option.toList_none, List.nil_append]
      cases hafter : l.after s.timestamp with
      | nil => apply insertLast_ends memory h hafter hinserted
      | cons existing later =>
        have hne : existing.timestamp ≠ s.timestamp := by
          have hmem : existing ∈ l.after s.timestamp := by simp [hafter]
          apply (Int64.ne_of_lt (Timeline.lt_of_mem_after hmem)).symm
        apply before_ends memory s.timestamp _ (unchanged_of_refuses hadd (h.before_le_reach _))
        rw [if_neg hne, ← hafter]
        apply splice_ends memory h hinserted
    | some existing =>
      dsimp only [Option.map_some, Option.toList_some, List.cons_append, List.nil_append]
      apply before_ends memory s.timestamp _ (unchanged_of_refuses hadd (h.before_le_reach _))
      rw [if_pos rfl]
      cases hresolve : policy.resolve? existing s.value with
      | none =>
        apply Step.Ends.preceded
        apply Step.ends_fail
        apply unchanged_of_fails (.duplicate hvalue hresolve)
      | some value =>
        dsimp only
        apply Step.Ends.preceded
        split
        · rename_i heq
          subst heq
          apply Step.ends_done
          apply Upserted.kept hvalue hresolve
        · rename_i hne
          apply splice_ends memory h (x := ⟨s.timestamp, value⟩)
          apply Upserted.resolved hvalue hresolve hne
  · rw [hreplacement]
    apply Step.ends_fail
    apply unchanged_of_refuses hadd c.replacementBytes_le_reach _ hrefuses

/-- If `c` holds `l`, then `c.upsert memory s policy position` leaves what `Upserted` says, or fails
and leaves `c`. -/
theorem upsert_ends
    (memory : Memory) (h : c.Holds l.samples) (s : Sample) (policy : DuplicatePolicy)
    (position : ChunkPosition) :
  (c.upsert memory s policy position).Ends (c.Upserted l s policy position)
    (Unchanged memory c l (.upsert s policy position))
  := by
  have hlast : c.last? = l.last? := h.last?_eq
  rw [upsert]
  split
  · rename_i hall
    have hafter : ∀ last ∈ l.last?, last < s.timestamp := by
      intro last hmem
      rw [hlast, Option.mem_def.mp hmem] at hall
      simpa using hall
    have happend : (c.append memory s true).Ends (fun _ d => d = c.appended s)
        (Unchanged memory c l (.upsert s policy position)) := by
      apply (c.append_ends memory s true).mono
      · rintro _ _ ⟨rfl, _⟩
        rfl
      · rintro _ _ ⟨rfl, hrefuses⟩
        apply unchanged_of_fails
        cases hrefuses with
        | outOfOrder hsome hle =>
          rw [hlast] at hsome
          cases Int64.lt_irrefl (Int64.lt_of_lt_of_le (hafter _ hsome) hle)
        | full _ _ _ hgrow => cases hgrow
        | outOfMemory _ _ _ _ hrefuses =>
          apply Change.Fails.declined
          apply Declines.outOfMemory (by rintro _ ⟨⟩)
          apply hrefuses.mono
          rw [reach, Nat.mul_succ]
          omega
    apply happend.andThen
    rintro _ _ rfl
    apply Step.ends_done
    apply Upserted.appended hafter
  · apply insert_ends memory h

/-! ### Splits -/

/-- The `samples` in a chunk of their own, with the bytes they need. -/
def part (c : PackedChunk) (samples : List Sample) : PackedChunk :=
  ((new c.capacity).appendedAll samples).tighten

theorem packs_part
    (c : PackedChunk) (samples : List Sample) :
  (c.part samples).Packs samples
  := by
  have hpacks := (packs_new c.capacity).appendedAll samples
  apply hpacks.resize

/-- The step `c.split` with one memory for the `older` half and another one for the `newer` half. -/
def splitWith (older newer : Memory) (c : PackedChunk) :
    Except Breach (Step PackedChunk PackedChunk) :=
  if c.count = 0 then .error .emptySplit
  else
    let keep := c.length - c.length / 2
    .ok <|
      match allocate older c.capacity, allocate newer c.capacity with
      | .error e, _ | _, .error e => .fail c (.packing e)
      | .ok left, .ok right =>
        (left.appendAll older (c.samples.take keep)).onCopy c fun left _ =>
          c.writeAnew newer right (c.samples.drop keep) fun right =>
            (Step.done left.tighten right.tighten).followed (.once (.rebuild .split))

/-- If `c` holds `l` and is not empty, `c.splitWith older newer` leaves the older samples and gives
the newer ones, or leaves `c` when either memory is refused. -/
theorem splitWith_ends
    (older newer : Memory) (h : c.Holds l.samples) (hcount : c.count ≠ 0) :
  ∃ step, c.splitWith older newer = .ok step ∧ step.Ends
    (fun right d => d = c.part (l.take (l.length - l.length / 2)).samples
      ∧ right = c.part (l.drop (l.length - l.length / 2)).samples)
    fun e d => d = c ∧ (older.Refuses c.reach e ∨ newer.Refuses c.reach e)
  := by
  have holder {bytes : Nat} (hle : bytes ≤ c.reach) (e : ChunkError)
      (he : older.Refuses bytes e) :
      c = c ∧ (older.Refuses c.reach e ∨ newer.Refuses c.reach e) := by
    use rfl
    left
    apply he.mono hle
  have hnewer {bytes : Nat} (hle : bytes ≤ c.reach) (e : ChunkError)
      (he : newer.Refuses bytes e) :
      c = c ∧ (older.Refuses c.reach e ∨ newer.Refuses c.reach e) := by
    use rfl
    right
    apply he.mono hle
  have hcapacity : c.capacity ≤ c.reach := by
    rw [reach]
    omega
  have hreach {samples : List Sample} (hlength : samples.length ≤ l.length) :
      (new c.capacity).capacity + growthBytes * samples.length ≤ c.reach := by
    have hgrowth := Nat.mul_le_mul_left growthBytes hlength
    rw [capacity_new, reach, h.length_eq, Nat.mul_succ]
    omega
  have hlength := h.length_eq
  have hkept := (l.take (l.length - l.length / 2)).increasing
  have hmoved := (l.drop (l.length - l.length / 2)).increasing
  have hkeptLength : (l.take (l.length - l.length / 2)).samples.length ≤ l.length :=
    (List.take_sublist _ _).length_le
  have hmovedLength : (l.drop (l.length - l.length / 2)).samples.length ≤ l.length :=
    (List.drop_sublist _ _).length_le
  rw [splitWith, if_neg hcount]
  apply Exists.intro
  constructor
  · rfl
  · rcases allocate_cases older c.capacity with hleft | ⟨e, hleft, hrefuses⟩
    · rcases allocate_cases newer c.capacity with hright | ⟨e, hright, hrefuses⟩
      · rw [hleft, hright, h.samples_eq, hlength]
        dsimp only
        have hwrite := appendAll_ends older (packs_new c.capacity).holds hkept
        apply (hwrite.mono_bad fun e _ => holder (hreach hkeptLength) e).onCopy
        rintro _ _ rfl
        apply writeAnew_ends h (packs_new _).holds hmoved _ (hnewer (hreach hmovedLength))
        apply Step.Ends.followed
        apply Step.ends_done
        use rfl
        rfl
      · rw [hleft, hright]
        apply Step.ends_fail
        apply hnewer hcapacity _ hrefuses
    · rw [hleft]
      apply Step.ends_fail
      apply holder hcapacity _ hrefuses

/-- If `c` holds `l` and is not empty, `c.split memory` leaves the older samples and gives the newer
ones, or leaves `c`. -/
theorem split_ends
    (memory : Memory) (h : c.Holds l.samples) (hcount : c.count ≠ 0) :
  ∃ step, c.split memory = .ok step ∧ step.Ends
    (fun newer d => d = c.part (l.take (l.length - l.length / 2)).samples
      ∧ newer = c.part (l.drop (l.length - l.length / 2)).samples)
    fun e d => d = c ∧ memory.Refuses (c.reach) e
  := by
  obtain ⟨step, hsplit, hends⟩ := splitWith_ends memory memory h hcount
  use step, hsplit
  apply hends.mono_bad
  rintro e _ ⟨rfl, hrefuses⟩
  use rfl
  apply or_self_iff.mp hrefuses

end PackedChunk

end TimeSeries
