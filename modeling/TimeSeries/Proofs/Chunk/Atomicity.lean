import TimeSeries.Proofs.Chunk.Reachable

/-!
# Requests that fail

A request that fails leaves the chunk as it was in every field, wherever on the way it fails.
A sample is measured before its first field is written, so that no field is refused; an
append that has made its buffer grow does not fail any more; and whatever writes a chunk
anew writes to a copy.  None of this depends on what the chunk holds.  That the faults are
the documented ones does: a chunk that no history leads to may have a stream with a fault.
-/

namespace TimeSeries

/-! ### Fields -/

/-- Writes fields into `b` one after the other, up to the first that is refused. -/
def BitBuffer.writeFields (b : BitBuffer) : List Field → Step BitBuffer Unit
  | [] => .done b ()
  | f :: fields =>
    match b.write f.value f.width with
    | .ok written => written.writeFields fields
    | .error e => .fail b (.packing e)

/-- Encodes `x` where its buffer `b` and its state `s` are.  When a field is refused those before it
stay written. -/
def encodeInPlace (b : BitBuffer) (s : Replay) (index : Nat) (x : Sample) :
    Step (BitBuffer × Replay) Unit :=
  if index = 0 then .fail (b, s) (.packing (.invalid .firstSample))
  else
    let (fields, next) := s.plan index x
    let needed := (fields.map Field.width).sum
    if b.free < needed then .fail (b, s) (.packing (.bufferFull needed b.free))
    else
      let written := b.writeFields fields
      match written.outcome with
      | .ok () => .done (written.after, next) ()
      | .error e => .fail (written.after, s) e

/-- If there is room for all `fields` in `b`, none is refused. -/
theorem BitBuffer.writeFields_eq
    {b : BitBuffer} {fields : List Field} (hwidth : ∀ f ∈ fields, f.width ≤ 64)
    (hroom : (fieldBits fields).length ≤ b.free) :
  b.writeFields fields = .done (b.append (fieldBits fields) hroom) ()
  := by
  induction fields generalizing b with
  | nil => rfl
  | cons f fields ih =>
    obtain ⟨hfirst, hlater⟩ := List.forall_mem_cons.mp hwidth
    have hlength : (fieldBits (f :: fields)).length = f.bits.length + (fieldBits fields).length :=
      List.length_append
    have hfree := b.free_append f.bits (by omega)
    have hrest : (fieldBits fields).length ≤ (b.append f.bits (by omega)).free := by omega
    have hwrite := write_eq_append hfirst (show f.bits.length ≤ b.free by omega)
    rw [writeFields, hwrite]
    dsimp only
    rw [ih hlater hrest, b.append_append]
    rfl

/-- Encoding `x` in place does what `encode b s index x` does, or leaves `b` and `s` as they
were. -/
theorem encodeInPlace_eq
    (b : BitBuffer) (s : Replay) (index : Nat) (x : Sample) :
  encodeInPlace b s index x =
    match encode b s index x with
    | .ok next => .done next ()
    | .error e => .fail (b, s) (.packing e)
  := by
  rw [encodeInPlace, encode]
  split
  · rfl
  · dsimp only
    rw [← length_fieldBits]
    split
    · rename_i hfull
      rw [dif_neg (by omega)]
    · rename_i hroom
      rw [dif_pos (by omega),
        BitBuffer.writeFields_eq (fun _ => s.width_le_of_mem_plan index x) (by omega)]
      rfl

/-! ### Steps that spare -/

namespace Step

variable {σ τ α β : Type}

/-- If the step `s` fails, there is afterwards what there was `before`. -/
abbrev Spares (s : Step σ α) (before : σ) : Prop :=
  s.Ends (fun _ _ => True) fun _ d => d = before

theorem spares_done
    (after before : σ) (a : α) :
  (done after a).Spares before
  := trivial

theorem spares_fail
    (before : σ) (e : ChunkError) :
  (fail before e : Step σ α).Spares before
  := rfl

/-- Whatever `s` does to a copy, what there was `before` is spared. -/
theorem spares_onCopy
    {before : τ} (s : Step σ α) {next : σ → α → Step τ β}
    (hnext : ∀ d a, (next d a).Spares before) :
  (s.onCopy before next).Spares before
  := by
  rw [onCopy]
  split
  · apply Ends.preceded
    apply hnext
  · rfl

/-- If `s` spares `before`, so does `s` taken as a step of a chunk and counted as `operation`. -/
theorem Spares.seen
    {s : Step σ α} {before : σ} (h : s.Spares before) (encoding : Encoding) (operation : Operation)
    (f : σ → τ) (g : α → β) :
  ((s.counted encoding operation).map f g).Spares (f before)
  := by
  apply Ends.map
  apply Ends.counted
  apply h.mono_bad
  rintro _ _ rfl
  rfl

end Step

/-! ### Plain chunks -/

namespace PlainChunk

variable (c : PlainChunk)

theorem add_spares
    (s : Sample) :
  (c.add s).Spares c
  := by
  rw [add]
  split
  · apply Step.spares_done
  · apply Step.spares_fail

theorem upsert_spares
    (s : Sample) (policy : DuplicatePolicy) :
  (c.upsert s policy).Spares c
  := by
  rw [upsert_eq]
  split
  · apply Step.spares_done
  · split
    · apply Step.Ends.preceded
      apply Step.spares_done
    · apply Step.Ends.preceded
      apply Step.spares_fail

theorem delete_spares
    (t : Timestamp) :
  (c.delete t).Spares c
  := by
  rw [delete]
  split
  · apply Step.spares_done
  · apply Step.spares_fail

theorem deleteRange_spares
    (range : TimeRange) :
  (c.deleteRange range).Spares c
  := by
  rw [deleteRange_eq]
  apply Step.spares_done

/-- If `s` spares `before`, so does `settle position s`, as slots are given up only after a change
that succeeded. -/
theorem settle_spares
    {α : Type} {s : Step PlainChunk α} {before : PlainChunk} (h : s.Spares before)
    (position : ChunkPosition) :
  (settle position s).Spares before
  := by
  unfold settle
  split
  · rename_i hok
    rw [Step.Spares, Step.Ends]
    dsimp only
    rw [hok]
    trivial
  · apply h

end PlainChunk

/-! ### Packed chunks -/

namespace PackedChunk

variable {α : Type} (memory : Memory) (c : PackedChunk)

theorem append_spares
    (s : Sample) (grow : Bool) :
  (c.append memory s grow).Spares c
  := by
  apply (c.append_ends memory s grow).mono
  · intros
    trivial
  · rintro _ _ ⟨hd, _⟩
    apply hd

/-- The step `c.replaceBy rebuilt operation position` spares `c`: a replacement that is complete
takes its place without fail. -/
theorem replaceBy_spares
    (rebuilt : PackedChunk) (operation : Operation) (position : ChunkPosition) (f : Unit → α) :
  ((c.replaceBy rebuilt operation position).map id f).Spares c
  := trivial

variable {c}

theorem writeAnew_spares
    (rebuilt : PackedChunk) (samples : List Sample) {next : PackedChunk → Step PackedChunk α}
    (hnext : ∀ d, (next d).Spares c) :
  (c.writeAnew memory rebuilt samples next).Spares c
  := by
  apply Step.spares_onCopy
  intro d _
  split
  · apply Step.spares_fail
  · apply hnext

variable (c)

theorem insert_spares
    (s : Sample) (policy : DuplicatePolicy) (position : ChunkPosition) :
  (c.insert memory s policy position).Spares c
  := by
  rw [insert]
  split
  · apply Step.spares_fail
  · dsimp only
    split
    · apply writeAnew_spares
      intro rebuilt
      apply Step.spares_onCopy
      intro rebuilt _
      apply replaceBy_spares
    · apply Step.spares_onCopy
      intro rebuilt _
      split
      · split
        · apply Step.Ends.preceded
          apply Step.spares_fail
        · apply Step.Ends.preceded
          split
          · apply Step.spares_done
          · apply writeAnew_spares
            intro rebuilt
            apply replaceBy_spares
      · apply writeAnew_spares
        intro rebuilt
        apply replaceBy_spares

theorem upsert_spares
    (s : Sample) (policy : DuplicatePolicy) (position : ChunkPosition) :
  (c.upsert memory s policy position).Spares c
  := by
  rw [upsert]
  split
  · apply (c.append_spares memory s true).andThen
    intro _ d _
    apply Step.spares_done
  · apply insert_spares

theorem delete_spares
    (t : Timestamp) (position : ChunkPosition) :
  (c.delete memory t position).Spares c
  := by
  rw [delete]
  split
  · split
    · apply Step.spares_fail
    · apply writeAnew_spares
      intro rebuilt
      split
      · trivial
      · apply Step.spares_fail
  · apply Step.spares_fail

theorem deleteRange_spares
    (range : TimeRange) (position : ChunkPosition) :
  (c.deleteRange memory range position).Spares c
  := by
  rw [deleteRange]
  split
  · split
    · apply Step.spares_fail
    · apply writeAnew_spares
      intro rebuilt
      split
      · apply Step.spares_done
      · apply replaceBy_spares
  · apply Step.spares_done

theorem splitWith_spares
    (older newer : Memory) {step : Step PackedChunk PackedChunk}
    (h : c.splitWith older newer = .ok step) :
  step.Spares c
  := by
  rw [splitWith] at h
  split at h
  · cases h
  · cases h
    split
    · apply Step.spares_fail
    · apply Step.spares_fail
    · apply Step.spares_onCopy
      intro left _
      apply writeAnew_spares
      intro right
      apply Step.Ends.followed
      apply Step.spares_done

end PackedChunk

/-! ### Chunks of either encoding -/

/-- What a chunk can be asked for. -/
inductive Request where
  | change (change : Change)
  | split
  | convert (target : Encoding)
deriving DecidableEq

/-- The faults that a request may end in. -/
inductive Request.MayFail : Request → ChunkError → Prop where
  | full (s : Sample) (capacity : Nat) : MayFail (.change (.add s)) (.full capacity)
  | outOfOrder (s : Sample) (last : Timestamp) :
      MayFail (.change (.add s)) (.outOfOrder s.timestamp last)
  | duplicate (s : Sample) (policy : DuplicatePolicy) (position : ChunkPosition)
      (existing : Binary64) :
      MayFail (.change (.upsert s policy position)) (.duplicate s.timestamp existing s.value)
  | notFound (t : Timestamp) (position : ChunkPosition) :
      MayFail (.change (.delete t position)) (.notFound t)
  | outOfMemory {request : Request} (hadd : ∀ s, request ≠ .change (.add s))
      (shortage : Shortage) : MayFail request (.packing (.outOfMemory shortage))

namespace Chunk

/-- Splits `c`, with one memory for the `older` half and another one for the `newer` half. -/
def splitWith (older newer : Memory) (c : Chunk) : Except Breach (Step Chunk Chunk) :=
  match c with
  | plain p => (fun s => (s.counted .plain .split).map plain plain) <$> p.split
  | packed p => (fun s => (s.counted .packed .split).map packed packed) <$> p.splitWith older newer

/-- With one `memory` for both halves, `Chunk.splitWith` is `Chunk.split`. -/
theorem splitWith_self
    (memory : Memory) (c : Chunk) :
  c.splitWith memory memory = c.split memory
  := rfl

/-- Asks `c` for something, and does not look at the answer.  What is written anew gets `memory`,
and the newer half of a split the memory `newer`. -/
def perform (memory newer : Memory) (c : Chunk) : Request → Except Breach (Step Chunk Unit)
  | .change change => .ok ((c.change memory change).map id fun _ => ())
  | .split => (fun step => step.map id fun _ => ()) <$> c.splitWith memory newer
  | .convert target =>
    let converted := c.convert memory target
    .ok ⟨⟨(fun _ => ()) <$> converted.outcome, converted.events⟩, c⟩

variable {c : Chunk}

theorem change_spares
    (c : Chunk) (memory : Memory) (change : Change) :
  (c.change memory change).Spares c
  := by
  cases c with
  | plain p =>
    cases change with
    | add s =>
      apply Step.Ends.map
      apply (p.add_spares s).seen
    | upsert s policy position =>
      apply (PlainChunk.settle_spares (p.upsert_spares s policy) position).seen
    | delete t position =>
      apply Step.Ends.map
      apply (PlainChunk.settle_spares (p.delete_spares t) position).seen
    | deleteRange range position =>
      apply (PlainChunk.settle_spares (p.deleteRange_spares range) position).seen
  | packed p =>
    cases change with
    | add s =>
      apply Step.Ends.map
      apply (p.append_spares .ample s false).seen
    | upsert s policy position => apply (p.upsert_spares memory s policy position).seen
    | delete t position =>
      apply Step.Ends.map
      apply (p.delete_spares memory t position).seen
    | deleteRange range position => apply (p.deleteRange_spares memory range position).seen

theorem splitWith_spares
    {older newer : Memory} {step : Step Chunk Chunk} (h : c.splitWith older newer = .ok step) :
  step.Spares c
  := by
  cases c with
  | plain p =>
    rw [splitWith, PlainChunk.split] at h
    split at h
    · cases h
    · cases h
      apply (Step.spares_done _ p _).seen
  | packed p =>
    rw [splitWith] at h
    cases hsplit : p.splitWith older newer with
    | error breach =>
      rw [hsplit] at h
      cases h
    | ok s =>
      rw [hsplit] at h
      cases h
      apply (p.splitWith_spares older newer hsplit).seen

/-- If `request` fails, it leaves `c`, whatever `c` holds. -/
theorem perform_spares
    {memory newer : Memory} {request : Request} {step : Step Chunk Unit}
    (h : c.perform memory newer request = .ok step) :
  step.Spares c
  := by
  cases request with
  | change change =>
    cases h
    apply Step.Ends.map
    apply c.change_spares
  | split =>
    rw [perform] at h
    cases hsplit : c.splitWith memory newer with
    | error breach =>
      rw [hsplit] at h
      cases h
    | ok s =>
      rw [hsplit] at h
      cases h
      apply Step.Ends.map
      apply splitWith_spares hsplit
  | convert target =>
    cases h
    rw [Step.Spares, Step.Ends]
    split
    · trivial
    · rfl

/-! ### Faults -/

variable {l : Timeline} {e : ChunkError}

theorem mayFail_of_outOfMemory
    {request : Request} (hadd : ∀ s, request ≠ .change (.add s)) (h : e.OutOfMemory) :
  request.MayFail e
  := by
  obtain ⟨shortage, rfl⟩ := h
  apply Request.MayFail.outOfMemory hadd

theorem mayFail_of_fails
    {memory : Memory} {change : Change} (h : change.Fails (c.Declines memory) l e) :
  (Request.change change).MayFail e
  := by
  cases h with
  | outOfOrder => apply Request.MayFail.outOfOrder
  | duplicate => apply Request.MayFail.duplicate
  | notFound => apply Request.MayFail.notFound
  | declined hdeclines =>
    cases c with
    | plain p =>
      cases hdeclines with
      | full => apply Request.MayFail.full
    | packed p =>
      cases hdeclines with
      | full => apply Request.MayFail.full
      | outOfMemory hadd hrefuses =>
        apply mayFail_of_outOfMemory _ hrefuses.outOfMemory
        rintro s ⟨⟩
        apply hadd s rfl

/-- If `c` holds a timeline, a split of it fails for want of memory only. -/
theorem Holds.splitWith_ends
    (h : c.Holds l) {older newer : Memory} {step : Step Chunk Chunk}
    (hsplit : c.splitWith older newer = .ok step) :
  step.Ends (fun _ _ => True) fun e _ => e.OutOfMemory
  := by
  cases c with
  | plain p =>
    rw [splitWith, PlainChunk.split] at hsplit
    split at hsplit
    · cases hsplit
    · cases hsplit
      trivial
  | packed p =>
    have h : p.Sound l := h
    rw [splitWith] at hsplit
    by_cases hcount : p.count = 0
    · rw [PackedChunk.splitWith, if_pos hcount] at hsplit
      cases hsplit
    · obtain ⟨s, hs, hends⟩ := PackedChunk.splitWith_ends older newer h.holds hcount
      rw [hs] at hsplit
      cases hsplit
      apply Step.Ends.map
      apply Step.Ends.counted
      apply hends.mono
      · intros
        trivial
      · rintro e _ ⟨_, hrefuses | hrefuses⟩
        · apply hrefuses.outOfMemory
        · apply hrefuses.outOfMemory

/-- If `c` holds a timeline, `request` ends in no faults but those of `Request.MayFail`. -/
theorem Holds.perform_ends
    (h : c.Holds l) {memory newer : Memory} {request : Request} {step : Step Chunk Unit}
    (hperform : c.perform memory newer request = .ok step) :
  step.Ends (fun _ _ => True) fun e _ => request.MayFail e
  := by
  cases request with
  | change change =>
    cases hperform
    apply Step.Ends.map
    apply (h.change_ends memory change).mono
    · intros
      trivial
    · rintro e _ ⟨_, hfails⟩
      apply mayFail_of_fails hfails
  | split =>
    rw [perform] at hperform
    cases hsplit : c.splitWith memory newer with
    | error breach =>
      rw [hsplit] at hperform
      cases hperform
    | ok s =>
      rw [hsplit] at hperform
      cases hperform
      apply Step.Ends.map
      apply (h.splitWith_ends hsplit).mono_bad
      intro e _ he
      apply mayFail_of_outOfMemory (by rintro _ ⟨⟩) he
  | convert target =>
    cases hperform
    rw [Step.Ends]
    dsimp only
    rcases h.convert_cases memory target with ⟨d, hok, _⟩ | ⟨e, herror, hrefuses⟩
    · rw [hok]
      trivial
    · rw [herror]
      apply mayFail_of_outOfMemory (by rintro _ ⟨⟩) hrefuses.outOfMemory

/-- If `request` ends in the fault `e`, it leaves `c` as it was; and where `c` is reachable, `e` is
one of the documented faults. -/
theorem after_eq_of_error
    {memory newer : Memory} {request : Request} {step : Step Chunk Unit}
    (hperform : c.perform memory newer request = .ok step) (herror : step.outcome = .error e) :
  step.after = c ∧ (c.Reachable → request.MayFail e)
  := by
  use (perform_spares hperform).of_error herror
  intro hreachable
  obtain ⟨l, hl⟩ := hreachable.holds
  apply (hl.perform_ends hperform).of_error herror

/-- A case of `after_eq_of_error`: memory is refused for the replacement of a chunk and for the
growth of its buffer. -/
theorem after_eq_of_error_refused :
  let refusing : Memory := ⟨fun _ => false⟩
  let c := ((new .packed 0).change .ample (.add ⟨7, ⟨1⟩⟩)).after
  let before := c.change refusing (.upsert ⟨3, ⟨2⟩⟩ .last .latest)
  let behind := c.change refusing (.upsert ⟨9, ⟨2⟩⟩ .last .latest)
  c.Reachable
    ∧ (before.outcome = .error (.packing (.outOfMemory (.refused 1024))) ∧ before.after = c)
    ∧ behind.outcome = .error (.packing (.outOfMemory (.refused 64))) ∧ behind.after = c
  := by
  intro refusing c before behind
  have hspared (s : Sample) {e : ChunkError}
      (h : (c.change refusing (.upsert s .last .latest)).outcome = .error e) :
      (c.change refusing (.upsert s .last .latest)).after = c := by
    have hperform : c.perform refusing refusing (.change (.upsert s .last .latest))
        = .ok ((c.change refusing (.upsert s .last .latest)).map id fun _ => ()) := rfl
    have herror : ((c.change refusing (.upsert s .last .latest)).map id fun _ => ()).outcome
        = .error e := by
      rw [Step.map, h]
      rfl
    apply (after_eq_of_error hperform herror).1
  have hbefore : before.outcome = .error (.packing (.outOfMemory (.refused 1024))) := by
    decide +kernel
  have hbehind : behind.outcome = .error (.packing (.outOfMemory (.refused 64))) := by
    decide +kernel
  use (Reachable.new .packed 0).change .ample (.add ⟨7, ⟨1⟩⟩)
  use ⟨hbefore, hspared _ hbefore⟩
  use hbehind, hspared _ hbehind

end Chunk

end TimeSeries
