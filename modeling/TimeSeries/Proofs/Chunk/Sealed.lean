import TimeSeries.Proofs.Chunk.Positions

/-!
# The bytes of a sealed chunk

A sealed chunk has no use for further bytes.  A plain one gives up the slots that are not taken
on every change that succeeds.  A packed one gives up the bytes that are not used when its
samples are changed.  Where there is nothing to remove, or the value that is stored stays, it
is left as it was, with all the bytes that it had.
-/

namespace TimeSeries

/-- If the sealed chunk `c` holds `l`, a change leaves `c`, or other samples in just the bytes that
they use. -/
theorem PackedChunk.Leaves.sealed
    {c d : PackedChunk} {l : Timeline} (h : c.Leaves l .sealed d) (hholds : c.Holds l.samples) :
  d = c ∨ d.samples ≠ c.samples ∧ d.capacity = d.buffer.usedBytes
  := by
  cases h with
  | same =>
    left
    rfl
  | @appended s =>
    right
    constructor
    · rw [hholds.samples_appended, hholds.samples_eq]
      simp
    · apply (c.appended s).capacity_tighten
  | @rewritten l' hne =>
    right
    constructor
    · rw [c.samples_rewritten, hholds.samples_eq]
      exact hne
    · apply c.capacity_rewritten_sealed

namespace Chunk

variable {c : Chunk} {memory : Memory} {change : Change} {n : Nat}

/-- The chunk `c` has no bytes but those that hold samples. -/
def Tight (c : Chunk) : Prop := c.capacity = c.bytesInUse

instance (c : Chunk) : Decidable c.Tight := inferInstanceAs (Decidable (_ = _))

theorem tight_plain_after
    (p : PlainChunk) (hsealed : change.position = .sealed)
    (hok : ((plain p).change memory change).outcome = .ok n) :
  ((plain p).change memory change).after.Tight
  := by
  obtain ⟨q, hafter, hslots⟩ := (plain_slots p memory change).of_ok hok
  rw [hsealed] at hslots
  rw [hafter]
  show q.slots * Sample.byteSize = q.length * Sample.byteSize
  rw [hslots]
  rfl

theorem packed_after_cases
    {p : PackedChunk} {l : Timeline} (h : (packed p).Holds l)
    (hsealed : change.position = .sealed) :
  let after := ((packed p).change memory change).after
  after = packed p ∨ after.samples ≠ (packed p).samples ∧ after.Tight
  := by
  have hholds : p.Holds l.samples := PackedChunk.Sound.holds h
  obtain ⟨q, hafter, hleaves⟩ := packed_after hholds memory change
  rw [hsealed] at hleaves
  intro after
  have hafter : after = packed q := hafter
  rw [hafter]
  rcases hleaves.sealed hholds with rfl | ⟨hsamples, htight⟩
  · left
    rfl
  · right
    use hsamples, htight

/-- If a change of a reachable sealed chunk `c` succeeds, the chunk left is tight, unless it is `c`,
which is packed and was not tight. -/
theorem tight_after_iff
    (h : c.Reachable) (hsealed : change.position = .sealed)
    (hok : (c.change memory change).outcome = .ok n) :
  let after := (c.change memory change).after
  (after.Tight ↔ (c.encoding = .packed → after.samples = c.samples → c.Tight))
    ∧ (c.encoding = .packed → after.samples = c.samples → after = c)
  := by
  intro after
  obtain ⟨l, hl⟩ := h.holds
  cases c with
  | plain p =>
    constructor
    · constructor
      · rintro _ ⟨⟩
      · intro _
        apply tight_plain_after p hsealed hok
    · rintro ⟨⟩
  | packed p =>
    rcases packed_after_cases hl hsealed with hafter | ⟨hsamples, htight⟩
    · have hafter : after = packed p := hafter
      rw [hafter]
      constructor
      · constructor
        · intro htight _ _
          exact htight
        · intro h
          apply h rfl rfl
      · intro _ _
        rfl
    · constructor
      · constructor
        · intro _ _ hsame
          contradiction
        · intro _
          exact htight
      · intro _ hsame
        contradiction

/-- A case of `tight_after_iff`: a packed sample behind another one, after which the other bytes are
given up. -/
theorem tight_after_append :
  let c := ((Chunk.new .packed 64).change .ample (.add ⟨7, .one⟩)).after
  let change : Change := .upsert ⟨9, .one⟩ .last .sealed
  c.Reachable ∧ change.position = .sealed ∧ (c.change .ample change).outcome = .ok 1
    ∧ c.capacity = 64 ∧ (c.change .ample change).after.Tight
  := by
  intro c change
  have hreachable : c.Reachable := (Reachable.new .packed 64).change .ample (.add ⟨7, .one⟩)
  have hok : (c.change .ample change).outcome = .ok 1 := by decide +kernel
  have hne : (c.change .ample change).after.samples ≠ c.samples := by decide +kernel
  have htight := (tight_after_iff hreachable rfl hok).1.mpr fun _ hsame => absurd hsame hne
  exact ⟨hreachable, rfl, hok, by decide +kernel, htight⟩

/-- There is no sample in the range.  A plain chunk gives up the other slots, a packed one keeps all
its bytes, although it uses none: it is not `Tight` afterwards. -/
theorem not_tight_of_unchanged :
  let change : Change := .deleteRange ⟨100, 200⟩ .sealed
  let c := ((Chunk.new .packed 64).change .ample (.add ⟨7, .one⟩)).after
  let d := ((Chunk.new .plain 64).change .ample (.add ⟨7, .one⟩)).after
  c.Reachable ∧ d.Reachable ∧ (c.change .ample change).outcome = .ok 0
    ∧ (d.change .ample change).outcome = .ok 0
    ∧ (c.change .ample change).after.capacity = 64
    ∧ (c.change .ample change).after.bytesInUse = 0 ∧ ¬(c.change .ample change).after.Tight
    ∧ (d.change .ample change).after.Tight
  := by
  intro change c d
  have hc : c.Reachable := (Reachable.new .packed 64).change .ample (.add ⟨7, .one⟩)
  have hd : d.Reachable := (Reachable.new .plain 64).change .ample (.add ⟨7, .one⟩)
  exact ⟨hc, hd, by decide +kernel⟩

end Chunk

end TimeSeries
