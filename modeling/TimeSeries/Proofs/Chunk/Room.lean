import TimeSeries.Proofs.Chunk.Conversion
import TimeSeries.Proofs.Chunk.Positions

/-!
# The room after a removal

A sample can be added to a packed chunk when the bits of the samples with it are no more than
those of the buffer.  A removal from the latest chunk takes none of its bytes.  It packs the
samples that are left anew, and what these take together with a later sample may be more than
it was.  So there may be no room any more for a sample that could be added before, and
`roomAfterDelete_of_reaches` says where this happens: where that number of bits is too large for
the bytes that are left.
-/

namespace TimeSeries

namespace PackedChunk

variable {c : PackedChunk} {s : Sample} {t : Timestamp}

/-- If `s` is after all samples of `c`, then `c.add s` succeeds just when the bits of `c.appended s`
are no more than those of the bytes of `c`. -/
theorem add_eq_ok_iff
    (hlast : ∀ last ∈ c.last?, last < s.timestamp) :
  (c.add s).outcome = .ok () ↔ (c.appended s).buffer.length ≤ 8 * c.capacity
  := by
  by_cases hroom : c.count = 0 ∨ c.Fits s
  · have hadd : c.add s = .done (c.appended s) () := append_of_room .ample false hroom hlast
    have hle := (c.appended s).buffer.length_le
    have hcapacity := capacity_appended_of_room hroom
    rw [hadd, ← hcapacity]
    constructor
    · intro _
      exact hle
    · intro _
      rfl
  · obtain ⟨hcount, hfits⟩ := not_or.mp hroom
    rw [add_of_not_fits hcount hlast hfits]
    constructor
    · rintro ⟨⟩
    · intro hle
      cases hroom (room_of_length_appended_le hle)

/-- If `s` is after all samples of `c` and `c.add s` fails, it fails for want of room. -/
theorem add_eq_full
    (hlast : ∀ last ∈ c.last?, last < s.timestamp) (hnot : (c.add s).outcome ≠ .ok ()) :
  (c.add s).outcome = .error (.full c.capacity)
  := by
  by_cases hroom : c.count = 0 ∨ c.Fits s
  · have hadd : c.add s = .done (c.appended s) () := append_of_room .ample false hroom hlast
    rw [hadd] at hnot
    cases hnot rfl
  · obtain ⟨hcount, hfits⟩ := not_or.mp hroom
    rw [add_of_not_fits hcount hlast hfits]
    rfl

/-- The samples of `c` that are left when the one at `t` is removed. -/
def remaining (c : PackedChunk) (t : Timestamp) : List Sample :=
  c.samples.filter (·.timestamp != t)

/-- What becomes of the deletion of the sample of `c` at `t`, and when `s` can be added before it
and after it. -/
structure RoomAfterDelete (c : PackedChunk) (t : Timestamp) (s : Sample)
    (step : Step PackedChunk Unit) : Prop where
  outcome_eq : step.outcome = .ok ()
  samples_eq : step.after.samples = c.remaining t
  capacity_eq : step.after.capacity = max c.capacity ((packedLength (c.remaining t) + 7) / 8)
  before_iff : (c.add s).outcome = .ok ()
    ↔ c.buffer.length + c.state.cost c.count s ≤ 8 * c.capacity
  after_iff : (step.after.add s).outcome = .ok ()
    ↔ packedLength (c.remaining t ++ [s]) ≤ 8 * step.after.capacity
  /-- The room is kept where the samples with the further one take no more bits than before. -/
  kept : packedLength (c.remaining t ++ [s]) ≤ c.buffer.length + c.state.cost c.count s →
    (c.add s).outcome = .ok () → (step.after.add s).outcome = .ok ()
  /-- The room is lost where these bits are too many. -/
  lost : 8 * step.after.capacity < packedLength (c.remaining t ++ [s]) →
    (step.after.add s).outcome = .error (.full step.after.capacity)

variable {l : Timeline} {memory : Memory}

/-- If `d` holds what is left of `c` without the sample at `t`, then `s` is after all samples of `d`
if it is after all those of `c`. -/
theorem Holds.last_lt_of_remaining
    {d : PackedChunk} (h : c.Holds l.samples) (hd : d.Holds (c.remaining t))
    (hlast : ∀ last ∈ c.last?, last < s.timestamp) :
  ∀ last ∈ d.last?, last < s.timestamp
  := by
  have hafter : ∀ last ∈ l.last?, last < s.timestamp := by
    rw [h.last?_eq] at hlast
    exact hlast
  rw [hd.last?_eq]
  intro last hmem
  obtain ⟨x, hx, rfl⟩ := Option.map_eq_some_iff.mp hmem
  have hstored := (List.mem_filter.mp (List.mem_of_getLast? hx)).1
  rw [h.samples_eq] at hstored
  apply Timeline.lt_of_last_lt hafter hstored

theorem Holds.roomAfterDelete
    (h : c.Holds l.samples) (hmemory : memory.Reaches c.reach)
    (hstored : ∃ x ∈ c.samples, x.timestamp = t) (hlast : ∀ last ∈ c.last?, last < s.timestamp) :
  c.RoomAfterDelete t s (c.delete memory t .latest)
  := by
  have hsamples : c.samples = l.samples := h.samples_eq
  have hremaining : c.remaining t = (l.filter (· != t)).samples := by
    rw [remaining, hsamples]
    rfl
  obtain ⟨x, hx, hxt⟩ := hstored
  rw [hsamples] at hx
  have hcount : c.count ≠ 0 := by
    rw [h.count_eq]
    apply Nat.ne_of_gt (List.length_pos_of_mem hx)
  have hvalue : l.valueAt? t = some x.value := by
    rw [Timeline.valueAt?_eq_some_iff, ← hxt]
    exact hx
  obtain ⟨houtcome, hafter⟩ := h.delete_of_reaches hvalue .latest hmemory
  rw [← hremaining] at hafter
  have hpacks := c.packs_rewritten (c.remaining t) .latest
  obtain ⟨_, hcapacity⟩ := c.size_rewritten_latest (c.remaining t)
  generalize c.rewritten (c.remaining t) .latest = d at *
  have hdlast := h.last_lt_of_remaining hpacks.holds hlast
  have hbefore := add_eq_ok_iff hlast
  have hroom := add_eq_ok_iff hdlast
  rw [PackedChunk.appended, if_neg hcount, length_packed] at hbefore
  rw [(hpacks.appended s).length_eq] at hroom
  constructor
  · exact houtcome
  · rw [hafter]
    apply hpacks.holds.samples_eq
  · rw [hafter]
    exact hcapacity
  · exact hbefore
  · rw [hafter]
    exact hroom
  · rw [hafter, hbefore, hroom]
    omega
  · rw [hafter]
    intro hlt
    apply add_eq_full hdlast
    rw [ne_eq, hroom]
    omega

/-- If `c` is reachable, has a sample at `t` and `memory` is granted, then the deletion at `t` from
the latest chunk succeeds and leaves all bytes.  There is room for a later `s` then just when the
bits of the others with `s` are no more than those of the bytes. -/
theorem roomAfterDelete_of_reaches
    (h : (Chunk.packed c).Reachable) (hmemory : memory.Reaches c.reach)
    (hstored : ∃ x ∈ c.samples, x.timestamp = t) (hlast : ∀ last ∈ c.last?, last < s.timestamp) :
  c.RoomAfterDelete t s (c.delete memory t .latest)
  := by
  obtain ⟨l, hl⟩ := h.holds
  apply Holds.roomAfterDelete (Sound.holds hl) hmemory hstored hlast

/-! ### A chunk that loses its room -/

/-- Three samples at equal distances, which use 67 of 72 bits. -/
def even : PackedChunk :=
  ((((new 9).add ⟨0, .one⟩).after.add ⟨10, .one⟩).after.add ⟨20, .one⟩).after

theorem reachable_even :
  (Chunk.packed even).Reachable
  := (((Chunk.Reachable.new .packed 9).change .ample (.add ⟨0, .one⟩)).change .ample
    (.add ⟨10, .one⟩)).change .ample (.add ⟨20, .one⟩)

theorem reaches_even :
  Memory.ample.Reaches even.reach
  := Memory.ample_reaches (by decide +kernel)

/-- A case of `roomAfterDelete_of_reaches`: the middle one of the three samples of `even` is deleted
before a fourth is added. -/
theorem roomAfterDelete_even :
  (Chunk.packed even).Reachable ∧ Memory.ample.Reaches even.reach
    ∧ (∃ x ∈ even.samples, x.timestamp = 10) ∧ (∀ last ∈ even.last?, last < 30)
    ∧ even.RoomAfterDelete 10 ⟨30, .one⟩ (even.delete .ample 10 .latest)
  := by
  have hstored : ∃ x ∈ even.samples, x.timestamp = 10 := by decide +kernel
  have hlast : ∀ last ∈ even.last?, last < 30 := by decide +kernel
  exact ⟨reachable_even, reaches_even, hstored, hlast,
    roomAfterDelete_of_reaches reachable_even reaches_even hstored hlast⟩

/-- The fourth sample takes two bits behind the three of `even`, but ten behind the two that are
left, of which only seven are free. -/
theorem full_after_delete :
  (Chunk.packed even).Reachable ∧ (∃ x ∈ even.samples, x.timestamp = 10)
    ∧ even.last? = some 20 ∧ (even.add ⟨30, .one⟩).outcome = .ok ()
    ∧ (even.delete .ample 10 .latest).outcome = .ok ()
    ∧ ((even.delete .ample 10 .latest).after.add ⟨30, .one⟩).outcome = .error (.full 9)
  := by
  have hstored : ∃ x ∈ even.samples, x.timestamp = 10 := by decide +kernel
  have hlast : ∀ last ∈ even.last?, last < 30 := by decide +kernel
  obtain ⟨l, hl⟩ := reachable_even.holds
  have hroom : even.RoomAfterDelete 10 ⟨30, .one⟩ (even.delete .ample 10 .latest) :=
    Holds.roomAfterDelete (Sound.holds hl) reaches_even hstored hlast
  have hcapacity : (even.delete .ample 10 .latest).after.capacity = 9 := by
    rw [hroom.capacity_eq]
    decide +kernel
  have hmany : 8 * 9 < packedLength (even.remaining 10 ++ [⟨30, .one⟩]) := by decide +kernel
  have hadd : (even.add ⟨30, .one⟩).outcome = .ok () := by decide +kernel
  have hfull := hroom.lost
  rw [hcapacity] at hfull
  exact ⟨reachable_even, hstored, by decide +kernel, hadd, hroom.outcome_eq, hfull hmany⟩

end PackedChunk

end TimeSeries
