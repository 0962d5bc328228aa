import TimeSeries.Proofs.Chunk.Reachable

/-!
# Additions and insertions at the end

A sample that comes after all others can be added to a packed chunk, or inserted into it.
An addition leaves the size of the buffer, and is refused where the sample takes more bits
than are free.  An insertion does what an addition does where there is room, and where there
is none the buffer grows by one portion, which is always enough.
-/

namespace TimeSeries

namespace PackedChunk

variable {c : PackedChunk} {s : Sample}

/-! ### Steps -/

/-- If `c` is empty, `s` is appended without any bits. -/
theorem append_of_empty
    (memory : Memory) (s : Sample) (grow : Bool) (hcount : c.count = 0) :
  c.append memory s grow = .done (c.appended s) ()
  := by
  rw [append, appended, if_pos hcount, if_pos hcount]

/-- If `c` is not empty and `s` is after its last sample, `c.append memory s grow` is
`c.pack memory s grow`. -/
theorem append_of_order
    (memory : Memory) (grow : Bool) (hcount : c.count ≠ 0)
    (hlast : ∀ last ∈ c.last?, last < s.timestamp) :
  c.append memory s grow = c.pack memory s grow
  := by
  have hsome : c.last? = some c.state.timestamp := if_neg hcount
  have hlt : c.state.timestamp < s.timestamp := hlast _ hsome
  rw [append, if_neg hcount, if_neg (Int64.not_le.mpr hlt)]

theorem append_of_fits
    (memory : Memory) (grow : Bool) (hcount : c.count ≠ 0)
    (hlast : ∀ last ∈ c.last?, last < s.timestamp) (hfits : c.Fits s) :
  c.append memory s grow = .done (c.appended s) ()
  := by
  rw [append_of_order memory grow hcount hlast, pack_of_fits memory grow hcount hfits, appended,
    if_neg hcount, packed_of_fits hfits]

/-- If `s` is after the last sample of `c` and there is room for it, it is appended whether or not
`grow` holds. -/
theorem append_of_room
    (memory : Memory) (grow : Bool) (hroom : c.count = 0 ∨ c.Fits s)
    (hlast : ∀ last ∈ c.last?, last < s.timestamp) :
  c.append memory s grow = .done (c.appended s) ()
  := by
  by_cases hcount : c.count = 0
  · apply append_of_empty memory s grow hcount
  · apply append_of_fits memory grow hcount hlast (hroom.resolve_left hcount)

/-- If `s` does not fit in `c`, which is not empty, `c.add s` fails and tells the size of the
buffer. -/
theorem add_of_not_fits
    (hcount : c.count ≠ 0) (hlast : ∀ last ∈ c.last?, last < s.timestamp) (hfits : ¬c.Fits s) :
  c.add s = .fail c (.full c.capacity)
  := by
  rw [add, append_of_order .ample false hcount hlast, pack_of_not_fits .ample false hcount hfits]
  rfl

/-- If `s` is not after the sample `last` of `c`, `c.add s` fails whether or not `s` fits. -/
theorem add_of_late
    {last : Timestamp} (hlast : c.last? = some last) (hle : s.timestamp ≤ last) :
  c.add s = .fail c (.outOfOrder s.timestamp last)
  := by
  have hcount : c.count ≠ 0 := by
    intro hcount
    rw [last?, if_pos hcount] at hlast
    cases hlast
  rw [last?, if_neg hcount] at hlast
  obtain rfl := Option.some.inj hlast
  rw [add, append, if_neg hcount, if_pos hle]

/-- If `s` does not fit in `c` and `memory` grants one more portion, `s` is appended after one
growth. -/
theorem append_of_not_fits
    {memory : Memory} (hcount : c.count ≠ 0) (hlast : ∀ last ∈ c.last?, last < s.timestamp)
    (hfits : ¬c.Fits s) (hmemory : memory.Reaches (c.capacity + growthBytes)) :
  c.append memory s true = (Step.done (c.appended s) ()).preceded [⟨.growth, growthBytes⟩]
  := by
  have hgrow : c.buffer.grow memory growthBytes = .ok (c.buffer.extend growthBytes) := by
    rcases c.buffer.grow_cases memory growthBytes with hgrow | ⟨_, hrefuses⟩
    · apply hgrow
    · contradiction
  rw [append_of_order memory true hcount hlast, pack_of_grown hcount hfits hgrow, appended,
    if_neg hcount]

/-- If `s` is after the last sample of `c`, an upsert at the latest position is an append that may
grow. -/
theorem upsert_of_order
    (memory : Memory) (policy : DuplicatePolicy) (hlast : ∀ last ∈ c.last?, last < s.timestamp) :
  c.upsert memory s policy .latest = (c.append memory s true).andThen fun d _ => .done d 1
  := by
  have hall : c.last?.all (· < s.timestamp) = true := by
    cases hsome : c.last? with
    | none => rfl
    | some last => apply decide_eq_true (hlast last hsome)
  rw [upsert, if_pos hall]

/-! ### Sizes and contents -/

theorem capacity_appended_of_room
    (h : c.count = 0 ∨ c.Fits s) :
  (c.appended s).capacity = c.capacity
  := by
  rw [appended]
  split
  · rfl
  · rename_i hcount
    rw [capacity_packed, if_pos (h.resolve_left hcount)]

/-- The buffer of `c` has the same size after `c.add s`, whether that succeeds or fails. -/
theorem capacity_add
    (c : PackedChunk) (s : Sample) :
  (c.add s).after.capacity = c.capacity
  := by
  apply Step.Ends.after (s := c.add s) (P := fun d => d.capacity = c.capacity)
  apply (c.append_ends .ample s false).mono
  · rintro _ _ ⟨rfl, _, hempty | hfits | ⟨⟨⟩⟩⟩
    · apply capacity_appended_of_room (Or.inl hempty)
    · apply capacity_appended_of_room (Or.inr hfits)
  · rintro _ _ ⟨rfl, _⟩
    rfl

/-- If `c.add s` is refused for want of room, `s` does not fit, and the size told is that of `c`. -/
theorem not_fits_of_add_full
    {capacity : Nat} (h : (c.add s).outcome = .error (.full capacity)) :
  capacity = c.capacity ∧ ¬c.Fits s
  := by
  obtain ⟨_, hrefuses⟩ := (c.append_ends .ample s false).of_error h
  cases hrefuses with
  | full _ _ hfits => use rfl, hfits
  | outOfMemory _ _ _ hgrow => cases hgrow

/-- How `s`, which is after all samples of `c`, is added to `c` and how it is inserted. -/
inductive Appends (c : PackedChunk) (s : Sample) : Prop where
  /-- There is room, and an insertion is an addition. -/
  | fits (hadd : (c.add s).outcome = .ok ())
      (hupsert : ∀ memory policy, c.upsert memory s policy .latest = .done (c.add s).after 1)
  /-- There is no room, and an insertion makes the buffer grow, once.  What was written stays
  where it is, and the sample is decoded behind the others. -/
  | grows (hadd : (c.add s).outcome = .error (.full c.capacity)) (d : PackedChunk)
      (hupsert : ∀ memory policy, memory.Reaches (c.capacity + growthBytes) →
        c.upsert memory s policy .latest = (Step.done d 1).preceded [⟨.growth, growthBytes⟩])
      (hcapacity : d.capacity = c.capacity + growthBytes)
      (hbits : d.buffer.toList.take c.buffer.length = c.buffer.toList)
      (hsamples : d.samples = c.samples ++ [s]) (hfault : d.fault? = none)

theorem Holds.appends
    {samples : List Sample} (h : c.Holds samples) (hlast : ∀ last ∈ c.last?, last < s.timestamp) :
  c.Appends s
  := by
  by_cases hroom : c.count = 0 ∨ c.Fits s
  · have hadd : c.add s = .done (c.appended s) () := append_of_room .ample false hroom hlast
    apply Appends.fits
    · rw [hadd]
      rfl
    · intro memory policy
      rw [upsert_of_order memory policy hlast, append_of_room memory true hroom hlast, hadd]
      rfl
  · obtain ⟨hcount, hfits⟩ := not_or.mp hroom
    have happended : c.appended s = c.packed s := if_neg hcount
    have hholds := h.appended s
    apply Appends.grows _ (c.appended s)
    · intro memory policy hmemory
      rw [upsert_of_order memory policy hlast, append_of_not_fits hcount hlast hfits hmemory]
      rfl
    · rw [happended, capacity_packed, if_neg hfits]
    · rw [happended, toList_packed]
      apply List.take_left' c.buffer.length_toList
    · rw [hholds.samples_eq, h.samples_eq]
    · apply hholds.fault?_eq
    · rw [add_of_not_fits hcount hlast hfits]
      rfl

/-- For any reachable packed `c` the buffer has the same size after `c.add s`, which answers
`ChunkError.full` only where the bits free are fewer than `s` costs.  If `s` is after all samples of
`c`, an upsert is the addition where that succeeds, and succeeds after one growth where it does
not. -/
theorem capacity_add_and_appends
    (h : (Chunk.packed c).Reachable) (s : Sample) :
  (c.add s).after.capacity = c.capacity
    ∧ (∀ capacity, (c.add s).outcome = .error (.full capacity) →
      c.buffer.free < c.state.cost c.count s)
    ∧ ((∀ last ∈ c.last?, last < s.timestamp) → c.Appends s)
  := by
  use c.capacity_add s
  constructor
  · intro capacity hfull
    apply Nat.lt_of_not_le (not_fits_of_add_full hfull).2
  · intro hlast
    obtain ⟨l, hl⟩ := h.holds
    apply (Sound.holds hl).appends hlast

/-- A case of `capacity_add_and_appends`: a chunk without any bytes, in which the second sample does
not fit. -/
theorem capacity_add_and_appends_without_bytes :
  let c := ((new 0).add ⟨7, ⟨1⟩⟩).after
  let s : Sample := ⟨9, ⟨2⟩⟩
  (Chunk.packed c).Reachable ∧ (∀ last ∈ c.last?, last < s.timestamp)
    ∧ (c.add s).outcome = .error (.full 0) ∧ (c.add s).after.capacity = 0
    ∧ c.buffer.free < c.state.cost c.count s ∧ c.Appends s
  := by
  intro c s
  have hreachable : (Chunk.packed c).Reachable :=
    (Chunk.Reachable.new .packed 0).change .ample (.add ⟨7, ⟨1⟩⟩)
  have hlast : ∀ last ∈ c.last?, last < s.timestamp := by decide +kernel
  have hfull : (c.add s).outcome = .error (.full 0) := by decide +kernel
  obtain ⟨hcapacity, hfree, happends⟩ := capacity_add_and_appends hreachable s
  exact ⟨hreachable, hlast, hfull, hcapacity, hfree 0 hfull, happends hlast⟩

end PackedChunk

end TimeSeries
