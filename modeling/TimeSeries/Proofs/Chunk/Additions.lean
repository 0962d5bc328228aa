import TimeSeries.Proofs.Chunk.Growing

/-!
# The answers of an addition

An addition is refused for one of two reasons: there is no room for the sample, or the sample
does not follow those that are there.  Where both hold the encodings do not agree.  A packed
chunk looks at the order first, so that one that says it is full is given a sample that
follows.  A plain chunk looks at the room first, and a full one says so whatever the sample is.
-/

namespace TimeSeries

namespace Chunk

variable {c : Chunk} {s : Sample}

/-- There is no room for the sample: every slot is taken, or it takes more bits than are free.  The
first sample of a packed chunk takes none. -/
def Crowded : Chunk → Sample → Prop
  | plain p, _ => p.length = p.slots
  | packed p, s => p.count ≠ 0 ∧ ¬p.Fits s

instance : (c : Chunk) → (s : Sample) → Decidable (c.Crowded s)
  | plain p, _ => inferInstanceAs (Decidable (p.length = p.slots))
  | packed p, s => inferInstanceAs (Decidable (p.count ≠ 0 ∧ ¬p.Fits s))

/-- The sample `s` comes after all that are there. -/
def Precedes (c : Chunk) (s : Sample) : Prop := ∀ x ∈ c.samples, x.timestamp < s.timestamp

/-- What `c.add s` answers, by the order of `s` and the room for it. -/
inductive AnswersAdd (c : Chunk) (s : Sample) : Except ChunkError Unit → Prop where
  | added (hprecedes : c.Precedes s) (hroom : ¬c.Crowded s) : AnswersAdd c s (.ok ())
  /-- A plain chunk looks at the order only where there is room. -/
  | late {last : Timestamp} (hlast : c.last? = some last) (hle : s.timestamp ≤ last)
      (hroom : c.encoding = .plain → ¬c.Crowded s) :
      AnswersAdd c s (.error (.outOfOrder s.timestamp last))
  /-- A packed chunk looks at the room only where the order is kept. -/
  | full (hcrowded : c.Crowded s) (hprecedes : c.encoding = .packed → c.Precedes s) :
      AnswersAdd c s (.error (.full c.capacity))

/-! ### Order -/

/-- If `c` holds a timeline, `s` comes after all samples of `c` just when it comes after the last
one. -/
theorem Holds.precedes_iff
    {l : Timeline} (h : c.Holds l) (s : Sample) :
  c.Precedes s ↔ ∀ last ∈ c.last?, last < s.timestamp
  := by
  rw [Precedes, h.samples_eq, h.last?_eq]
  constructor
  · intro hprecedes last hlast
    obtain ⟨x, hx, rfl⟩ := Option.map_eq_some_iff.mp hlast
    apply hprecedes x (List.mem_of_getLast? hx)
  · intro hlast x hx
    apply Timeline.lt_of_last_lt hlast hx

/-- If `c` holds a timeline, `s` is after all its samples or not after the `last` one. -/
theorem Holds.precedes_or_late
    {l : Timeline} (h : c.Holds l) (s : Sample) :
  c.Precedes s ∨ ∃ last, c.last? = some last ∧ s.timestamp ≤ last
  := by
  rw [h.precedes_iff]
  by_cases hprecedes : ∀ last ∈ c.last?, last < s.timestamp
  · left
    apply hprecedes
  · right
    push Not at hprecedes
    obtain ⟨last, hlast, hle⟩ := hprecedes
    use last, hlast, Int64.not_lt.mp hle

theorem Holds.not_precedes_of_late
    {l : Timeline} (h : c.Holds l) {last : Timestamp} (hlast : c.last? = some last)
    (hle : s.timestamp ≤ last) :
  ¬c.Precedes s
  := by
  intro hprecedes
  have hlt := (h.precedes_iff s).mp hprecedes last hlast
  apply Int64.lt_irrefl (Int64.lt_of_lt_of_le hlt hle)

/-! ### Answers -/

/-- If `c` holds a timeline, two answers of the same addition are the same. -/
theorem Holds.eq_of_answersAdd
    {l : Timeline} (h : c.Holds l) {r r' : Except ChunkError Unit} (hr : c.AnswersAdd s r)
    (hr' : c.AnswersAdd s r') :
  r = r'
  := by
  -- Of the two faults only one is looked at first, which one depends on the encoding.
  have hfirst {last : Timestamp} (hlast : c.last? = some last) (hle : s.timestamp ≤ last)
      (hroom : c.encoding = .plain → ¬c.Crowded s) (hcrowded : c.Crowded s)
      (hprecedes : c.encoding = .packed → c.Precedes s) : False := by
    cases c with
    | plain p => apply hroom rfl hcrowded
    | packed p => apply h.not_precedes_of_late hlast hle (hprecedes rfl)
  cases hr with
  | added hprecedes hroom =>
    cases hr' with
    | added => rfl
    | late hlast hle => cases h.not_precedes_of_late hlast hle hprecedes
    | full hcrowded => contradiction
  | late hlast hle hroom =>
    cases hr' with
    | added hprecedes => cases h.not_precedes_of_late hlast hle hprecedes
    | late hlast' => rw [Option.some.inj (hlast.symm.trans hlast')]
    | full hcrowded hprecedes => cases hfirst hlast hle hroom hcrowded hprecedes
  | full hcrowded hprecedes =>
    cases hr' with
    | added => contradiction
    | late hlast hle hroom => cases hfirst hlast hle hroom hcrowded hprecedes
    | full => rfl

theorem answersAdd_plain
    (p : PlainChunk) (s : Sample) :
  (plain p).AnswersAdd s (p.add s).outcome
  := by
  have hholds : (plain p).Holds p.timeline := rfl
  by_cases hfull : (plain p).Crowded s
  · rw [PlainChunk.add, PlainChunk.append_of_full s hfull]
    apply AnswersAdd.full hfull
    rintro ⟨⟩
  · have hroom : p.length < p.slots := Nat.lt_of_le_of_ne p.length_le hfull
    rcases hholds.precedes_or_late s with hprecedes | ⟨last, hlast, hle⟩
    · have hafter := (hholds.precedes_iff s).mp hprecedes
      rw [hholds.last?_eq] at hafter
      obtain ⟨d, happend, _⟩ := PlainChunk.append_eq_ok hroom hafter
      rw [PlainChunk.add, happend]
      apply AnswersAdd.added hprecedes hfull
    · have hlast' := hlast
      rw [hholds.last?_eq] at hlast'
      rw [PlainChunk.add, PlainChunk.append_of_late hroom hlast' hle]
      apply AnswersAdd.late hlast hle
      intro _
      apply hfull

theorem answersAdd_packed
    {p : PackedChunk} {l : Timeline} (h : p.Sound l) (s : Sample) :
  (packed p).AnswersAdd s (p.add s).outcome
  := by
  have hholds : (packed p).Holds l := h
  rcases hholds.precedes_or_late s with hprecedes | ⟨last, hlast, hle⟩
  · have hafter := (hholds.precedes_iff s).mp hprecedes
    by_cases hroom : p.count = 0 ∨ p.Fits s
    · rw [PackedChunk.add, PackedChunk.append_of_room .ample false hroom hafter]
      apply AnswersAdd.added hprecedes
      rintro ⟨hcount, hfits⟩
      apply hfits (hroom.resolve_left hcount)
    · have hcrowded : (packed p).Crowded s := not_or.mp hroom
      rw [PackedChunk.add_of_not_fits hcrowded.1 hafter hcrowded.2]
      apply AnswersAdd.full hcrowded
      intro _
      apply hprecedes
  · rw [PackedChunk.add_of_late hlast hle]
    apply AnswersAdd.late hlast hle
    rintro ⟨⟩

theorem Holds.answersAdd
    {l : Timeline} (h : c.Holds l) (s : Sample) :
  c.AnswersAdd s (c.add s).outcome
  := by
  cases c with
  | plain p =>
    have houtcome : ((plain p).add s).outcome = (p.add s).outcome := id_map _
    rw [houtcome]
    apply answersAdd_plain
  | packed p =>
    have houtcome : ((packed p).add s).outcome = (p.add s).outcome := id_map _
    rw [houtcome]
    apply answersAdd_packed h

/-- If `c` is reachable, the answer `r` of `c.add s` is the one that `AnswersAdd` gives by the order
of `s` and the room for it.  A packed chunk that is given a sample out of order always says so, and
a plain one only while it has room. -/
theorem outcome_add_eq_iff
    (h : c.Reachable) (s : Sample) (r : Except ChunkError Unit) :
  (c.add s).outcome = r ↔ c.AnswersAdd s r
  := by
  obtain ⟨l, hl⟩ := h.holds
  constructor
  · rintro rfl
    apply hl.answersAdd
  · intro hr
    apply hl.eq_of_answersAdd (hl.answersAdd s) hr

/-- A case of `outcome_add_eq_iff`: a packed chunk without room for a second sample, which is given
one before the first. -/
theorem outcome_add_eq_iff_crowded :
  let c := ((Chunk.new .packed 0).add ⟨7, ⟨1⟩⟩).after
  let s : Sample := ⟨5, ⟨2⟩⟩
  c.Reachable ∧ c.Crowded s ∧ (c.add s).outcome = .error (.outOfOrder 5 7)
    ∧ c.AnswersAdd s (.error (.outOfOrder 5 7))
  := by
  intro c s
  have hreachable : c.Reachable := (Chunk.Reachable.new .packed 0).change .ample (.add ⟨7, ⟨1⟩⟩)
  have hcrowded : c.Crowded s := by decide +kernel
  have houtcome : (c.add s).outcome = .error (.outOfOrder 5 7) := by decide +kernel
  exact ⟨hreachable, hcrowded, houtcome, (outcome_add_eq_iff hreachable s _).mp houtcome⟩

/-- A plain chunk whose only slot is taken answers `ChunkError.full`, also to a sample that does not
follow the one in it. -/
theorem full_of_late :
  let c := ((Chunk.new .plain 16).add ⟨7, ⟨1⟩⟩).after
  let s : Sample := ⟨5, ⟨2⟩⟩
  c.Reachable ∧ c.last? = some 7 ∧ s.timestamp ≤ 7
    ∧ (c.add s).outcome = .error (.full 16)
  := by
  intro c s
  have hreachable : c.Reachable := (Chunk.Reachable.new .plain 16).change .ample (.add ⟨7, ⟨1⟩⟩)
  exact ⟨hreachable, by decide +kernel⟩

end Chunk

end TimeSeries
