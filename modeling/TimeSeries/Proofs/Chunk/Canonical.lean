import TimeSeries.Proofs.Snapshot.Chunks

/-!
# The form of packed chunks

There is one form of a packed chunk for each list of samples, up to the bytes that are not
in use.  A chunk packs its samples as if they had been appended to an empty chunk one after
the other, and every change, every split and every way through a snapshot leaves chunks of
which this is true again.  So the form of a chunk tells nothing about its history but the
samples in it.
-/

namespace TimeSeries

namespace PackedChunk

variable {c d : PackedChunk} {l : Timeline}

/-- Packed chunks that come from empty ones, and from plain ones, by changes and splits and by being
saved and loaded. -/
inductive Built : PackedChunk → Prop where
  | new (bytes : Nat) : Built (new bytes)
  | allocate {c : PackedChunk} {memory : Memory} {bytes : Nat}
      (hallocate : allocate memory bytes = .ok c) : Built c
  | convert {p : PlainChunk} {c : PackedChunk} {memory : Memory}
      (hconvert : ((Chunk.plain p).convert memory .packed).outcome = .ok (.packed c)) : Built c
  | add {c : PackedChunk} (h : Built c) (s : Sample) : Built (c.add s).after
  | upsert {c : PackedChunk} (h : Built c) (memory : Memory) (s : Sample)
      (policy : DuplicatePolicy) (position : ChunkPosition) :
      Built (c.upsert memory s policy position).after
  | delete {c : PackedChunk} (h : Built c) (memory : Memory) (t : Timestamp)
      (position : ChunkPosition) : Built (c.delete memory t position).after
  | deleteRange {c : PackedChunk} (h : Built c) (memory : Memory) (range : TimeRange)
      (position : ChunkPosition) : Built (c.deleteRange memory range position).after
  | older {c : PackedChunk} {memory : Memory} {step : Step PackedChunk PackedChunk} (h : Built c)
      (hsplit : c.split memory = .ok step) : Built step.after
  | newer {c newer : PackedChunk} {memory : Memory} {step : Step PackedChunk PackedChunk}
      (h : Built c) (hsplit : c.split memory = .ok step) (houtcome : step.outcome = .ok newer) :
      Built newer
  /-- A buffer whose bits a word does not count is not loaded. -/
  | reload {c loaded : PackedChunk} {rest : List UInt8} {cursor : Cursor} (h : Built c)
      (hbits : 8 * c.capacity < wordLimit)
      (hload : load ⟨encodeFrames c.frames ++ rest⟩ = .ok loaded cursor) : Built loaded

/-- The chunk `c` packs its samples as appending them to an empty chunk does. -/
def Canonical (c : PackedChunk) : Prop := ∃ l : Timeline, c.Packs l.samples

/-! ### Steps -/

theorem canonical_new
    (bytes : Nat) :
  (new bytes).Canonical
  := ⟨.empty, packs_new bytes⟩

theorem canonical_of_allocate
    {memory : Memory} {bytes : Nat} (hallocate : allocate memory bytes = .ok c) :
  c.Canonical
  := by
  rcases allocate_cases memory bytes with hnew | ⟨e, herror, _⟩
  · rw [hnew] at hallocate
    obtain rfl := Except.ok.inj hallocate
    apply canonical_new
  · rw [herror] at hallocate
    cases hallocate

theorem canonical_rewritten
    (c : PackedChunk) (l : Timeline) (position : ChunkPosition) :
  (c.rewritten l.samples position).Canonical
  := ⟨l, packs_rewritten c l.samples position⟩

theorem canonical_part
    (c : PackedChunk) (l : Timeline) :
  (c.part l.samples).Canonical
  := ⟨l, packs_part c l.samples⟩

/-- If the plain chunk `p` is converted to the packed chunk `c`, then `c` is canonical, as the
samples of `p` were appended to an empty chunk. -/
theorem canonical_of_convert
    {p : PlainChunk} {memory : Memory}
    (hconvert : ((Chunk.plain p).convert memory .packed).outcome = .ok (.packed c)) :
  c.Canonical
  := by
  have hp : (Chunk.plain p).Holds p.timeline := rfl
  rcases hp.convert_converted memory .packed with ⟨d, hok, hconverted⟩ | ⟨e, herror, _⟩
  · obtain rfl := Except.ok.inj (hconvert.symm.trans hok)
    cases hconverted with
    | repacked => exact ⟨p.timeline, (packs_new _).appendedAll p.timeline.samples⟩
  · rw [hconvert] at herror
    cases herror

namespace Canonical

theorem appended
    (h : c.Canonical) {s : Sample} (hlast : ∀ last ∈ c.last?, last < s.timestamp) :
  (c.appended s).Canonical
  := by
  obtain ⟨l, hl⟩ := h
  have heq : c.last? = l.last? := hl.holds.last?_eq
  rw [heq] at hlast
  use l.push s hlast
  apply hl.appended

theorem atPosition
    (h : c.Canonical) (position : ChunkPosition) :
  (c.atPosition position).Canonical
  := by
  obtain ⟨l, hl⟩ := h
  use l
  cases position with
  | latest => apply hl
  | sealed => apply hl.resize

theorem add
    (h : c.Canonical) (s : Sample) :
  (c.add s).after.Canonical
  := by
  apply Step.Ends.after (P := Canonical)
  apply (c.append_ends .ample s false).mono
  · rintro _ _ ⟨rfl, hlast, _⟩
    apply h.appended hlast
  · rintro _ _ ⟨rfl, _⟩
    apply h

theorem upsert
    (h : c.Canonical) (memory : Memory) (s : Sample) (policy : DuplicatePolicy)
    (position : ChunkPosition) :
  (c.upsert memory s policy position).after.Canonical
  := by
  have ⟨l, hl⟩ := h
  have heq : c.last? = l.last? := hl.holds.last?_eq
  apply Step.Ends.after (P := Canonical)
  apply (upsert_ends memory hl.holds s policy position).mono
  · intro _ _ hupserted
    cases hupserted with
    | appended hlast =>
      rw [← heq] at hlast
      apply (h.appended hlast).atPosition
    | inserted => apply canonical_rewritten
    | kept => apply h
    | resolved => apply canonical_rewritten
  · rintro _ _ ⟨rfl, _⟩
    apply h

theorem delete
    (h : c.Canonical) (memory : Memory) (t : Timestamp) (position : ChunkPosition) :
  (c.delete memory t position).after.Canonical
  := by
  have ⟨l, hl⟩ := h
  apply Step.Ends.after (P := Canonical)
  apply (delete_ends memory hl.holds t position).mono
  · rintro _ _ ⟨_, rfl⟩
    apply canonical_rewritten
  · rintro _ _ ⟨rfl, _⟩
    apply h

theorem deleteRange
    (h : c.Canonical) (memory : Memory) (range : TimeRange) (position : ChunkPosition) :
  (c.deleteRange memory range position).after.Canonical
  := by
  have ⟨l, hl⟩ := h
  apply Step.Ends.after (P := Canonical)
  apply (deleteRange_ends memory hl.holds range position).mono
  · rintro _ _ ⟨_, rfl⟩
    split
    · apply h
    · apply canonical_rewritten
  · rintro _ _ ⟨rfl, _⟩
    apply h

/-- If `c` is canonical, then so is the chunk that a split leaves and the `newer` one that it
gives. -/
theorem split
    (h : c.Canonical) {memory : Memory} {step : Step PackedChunk PackedChunk}
    (hsplit : c.split memory = .ok step) :
  step.after.Canonical ∧ ∀ newer, step.outcome = .ok newer → newer.Canonical
  := by
  have ⟨l, hl⟩ := h
  by_cases hcount : c.count = 0
  · rw [PackedChunk.split, if_pos hcount] at hsplit
    cases hsplit
  · obtain ⟨step', hsplit', hends⟩ := split_ends memory hl.holds hcount
    obtain rfl := Except.ok.inj (hsplit.symm.trans hsplit')
    constructor
    · apply Step.Ends.after (P := Canonical)
      apply hends.mono
      · rintro _ _ ⟨rfl, _⟩
        apply canonical_part
      · rintro _ _ ⟨rfl, _⟩
        apply h
    · intro newer houtcome
      obtain ⟨_, rfl⟩ := hends.of_ok houtcome
      apply canonical_part

/-- If `c` is canonical and is loaded from its own frames, the chunk `loaded` is canonical too. -/
theorem reload
    (h : c.Canonical) {rest : List UInt8} {loaded : PackedChunk} {cursor : Cursor}
    (hbits : 8 * c.capacity < wordLimit)
    (hload : load ⟨encodeFrames c.frames ++ rest⟩ = .ok loaded cursor) :
  loaded.Canonical
  := by
  have ⟨l, hl⟩ := h
  obtain ⟨rfl, _⟩ := (hl.sound.loads hbits).eq_of_ok hload
  apply h

end Canonical

/-! ### Histories -/

/-- If `c` is built in any way, it is canonical. -/
theorem Built.canonical
    (h : c.Built) :
  c.Canonical
  := by
  induction h with
  | new bytes => apply canonical_new
  | allocate hallocate => apply canonical_of_allocate hallocate
  | convert hconvert => apply canonical_of_convert hconvert
  | add _ s ih => apply ih.add
  | upsert _ memory s policy position ih => apply ih.upsert
  | delete _ memory t position ih => apply ih.delete
  | deleteRange _ memory range position ih => apply ih.deleteRange
  | older _ hsplit ih => apply (ih.split hsplit).1
  | newer _ hsplit houtcome ih => apply (ih.split hsplit).2 _ houtcome
  | reload _ hbits hload ih => apply ih.reload hbits hload

/-- The chunks `c` and `d` are the same up to the bytes that are not in use, of which there may be
more in one than in the other. -/
structure Alike (c d : PackedChunk) : Prop where
  count : c.count = d.count
  base : c.base = d.base
  state : c.state = d.state
  length : c.buffer.length = d.buffer.length
  used : c.buffer.used = d.buffer.used
  clean : c.buffer.Clean ∧ d.buffer.Clean
  frames : c.capacity = d.capacity → encodeFrames c.frames = encodeFrames d.frames

theorem Packs.alike
    {samples : List Sample} (h : c.Packs samples) (h' : d.Packs samples) :
  c.Alike d
  := by
  have hbase : c.base = d.base := by rw [h.base, h'.base]
  have hbits : c.buffer.toList = d.buffer.toList := by rw [h.bits, h'.bits, hbase]
  constructor
  · rw [h.count, h'.count]
  · apply hbase
  · rw [h.state, h'.state, hbase]
  · rw [← BitBuffer.length_toList, hbits, BitBuffer.length_toList]
  · apply h.clean.used_eq h'.clean hbits
  · use h.clean, h'.clean
  · intro hcapacity
    rw [h.eq h' hcapacity]

/-- If `c` and `d` have the same samples, they are alike, however they were built. -/
theorem alike_of_samples_eq
    (hc : c.Built) (hd : d.Built) (hsamples : c.samples = d.samples) :
  c.Alike d
  := by
  obtain ⟨l, hl⟩ := hc.canonical
  obtain ⟨l', hl'⟩ := hd.canonical
  rw [hl.holds.samples_eq, hl'.holds.samples_eq] at hsamples
  rw [← hsamples] at hl'
  apply hl.alike hl'

/-- A case of `alike_of_samples_eq`: the chunk `c`, which was given a first sample that was deleted
again, is like `d`, which never had it. -/
theorem alike_of_samples_eq_after_delete :
  let emptied := ((new 0).upsert .ample ⟨5, ⟨1⟩⟩ .last .latest).after.delete .ample 5 .sealed
  let c := (emptied.after.add ⟨7, ⟨2⟩⟩).after
  let d := ((new 64).add ⟨7, ⟨2⟩⟩).after
  c.samples = d.samples ∧ c.Alike d
  := by
  intro emptied c d
  have hc : c.Built := (((Built.new 0).upsert _ _ _ _).delete _ _ _).add _
  have hd : d.Built := (Built.new 64).add _
  have hsamples : c.samples = d.samples := by decide +kernel
  use hsamples
  apply alike_of_samples_eq hc hd hsamples

end PackedChunk

end TimeSeries
