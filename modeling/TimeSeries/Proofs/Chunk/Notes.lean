import TimeSeries.Proofs.Chunk.Atomicity
import TimeSeries.Proofs.Chunk.Events

/-!
# What operations note

Appending notes nothing.  What writes a packed chunk anew notes this once, when the
replacement takes the place of the chunk.  An insertion notes in addition how it was settled
with the sample at the same time, if it came as far as this sample.  A change or a split of a
chunk of either encoding is counted once besides, and a conversion notes nothing.
-/

namespace TimeSeries

/-! ### Packed chunks -/

namespace PackedChunk

variable {α : Type} {P : Except ChunkError α → List Series → Prop}

theorem pack_silent
    (memory : Memory) {c : PackedChunk} (s : Sample) (grow : Bool) (hcount : c.count ≠ 0) :
  (c.pack memory s grow).Silent
  := by
  by_cases hfits : c.Fits s
  · rw [pack_of_fits memory grow hcount hfits]
    apply Step.silent_done
  · rw [pack_of_not_fits memory grow hcount hfits]
    cases grow with
    | false =>
      apply Step.silent_fail
      rfl
    | true =>
      rw [if_pos rfl]
      rcases c.buffer.grow_cases memory growthBytes with hgrow | ⟨⟨shortage, hgrow⟩, _⟩
      · have hcount' : c.grown.count ≠ 0 := by rwa [grown]
        rw [hgrow]
        show (Step.preceded _ (c.grown.pack memory s true)).Silent
        rw [pack_of_fits memory true hcount' (c.fits_grown s)]
        apply Step.Notes.preceded (noted_growth _)
        apply Step.silent_done
      · rw [hgrow]
        apply Step.silent_fail
        rfl

theorem append_silent
    (memory : Memory) (c : PackedChunk) (s : Sample) (grow : Bool) :
  (c.append memory s grow).Silent
  := by
  rw [append]
  split
  · apply Step.silent_done
  · rename_i hcount
    split
    · apply Step.silent_fail
      rfl
    · apply pack_silent memory s grow hcount

theorem appendAll_silent
    (memory : Memory) (c : PackedChunk) (samples : List Sample) :
  (c.appendAll memory samples).Silent
  := by
  induction samples generalizing c with
  | nil => apply Step.silent_done
  | cons s samples ih =>
    apply (c.append_silent memory s true).andThen
    intros
    apply ih

/-- If what `next` does with the replacement is noted as `P` says, and a failure to write `samples`
notes nothing, then the notes of both together are as `P` says. -/
theorem writeAnew_notes
    (memory : Memory) (c rebuilt : PackedChunk) (samples : List Sample)
    {next : PackedChunk → Step PackedChunk α} (hnext : ∀ d, (next d).Notes P)
    (herror : ∀ e, e.isConflict = false → P (.error e) []) :
  (c.writeAnew memory rebuilt samples next).Notes P
  := by
  apply (rebuilt.appendAll_silent memory samples).onCopy _ fun e _ => herror e
  intros
  cases c.fault? with
  | some e =>
    apply Step.notes_fail
    apply herror
    rfl
  | none => apply hnext

theorem replaceBy_notes
    (c rebuilt : PackedChunk) {operation : Operation} {position : ChunkPosition}
    {P : Except ChunkError Unit → List Series → Prop} (h : P (.ok ()) [.rebuild operation]) :
  (c.replaceBy rebuilt operation position).Notes P
  := by
  apply Step.Notes.followed
  apply Step.notes_done h

end PackedChunk

/-! ### Changes that write anew -/

/-- The operation that a change is counted as. -/
def Change.operation : Change → Operation
  | add _ => .add
  | upsert _ _ _ => .upsert
  | delete _ _ => .delete
  | deleteRange _ _ => .deleteRange

/-- The `change` writes a packed chunk with the samples of `l` anew when it succeeds. -/
def Change.rewrites (l : Timeline) : Change → Bool
  | add _ => false
  | upsert s policy _ =>
    match l.valueAt? s.timestamp with
    | none => !l.last?.all (· < s.timestamp)
    | some existing => policy.resolve? existing s.value ≠ some existing
  | delete _ _ => true
  | deleteRange range _ => l.samples.countP (range.contains ·.timestamp) ≠ 0

/-- The series to be noted where `change` writes a packed chunk with the samples of `l` anew. -/
def Change.rewriting (l : Timeline) (change : Change) : Except ChunkError Nat → List Series
  | .ok _ => if change.rewrites l then [.rebuild change.operation] else []
  | .error _ => []

namespace Change

variable {l : Timeline} {s : Sample} {policy : DuplicatePolicy}
  {position : ChunkPosition}

/-- If `l` has no sample at the time of `s`, the chunk is written anew for it unless `s` is after
all others. -/
theorem rewriting_of_free
    (hnone : l.valueAt? s.timestamp = none) (n : Nat) :
  (upsert s policy position).rewriting l (.ok n)
    = if l.last?.all (· < s.timestamp) then [] else [.rebuild .upsert]
  := by
  rw [rewriting, rewrites, hnone]
  cases l.last?.all (· < s.timestamp) with
  | true => rfl
  | false => rfl

/-- If `l` has the value `existing` at the time of `s`, the chunk is written anew for `s` unless
this value stays. -/
theorem rewriting_of_occupied
    {existing value : Binary64} (hsome : l.valueAt? s.timestamp = some existing)
    (hresolve : policy.resolve? existing s.value = some value) (n : Nat) :
  (upsert s policy position).rewriting l (.ok n)
    = if value = existing then [] else [.rebuild .upsert]
  := by
  have hrewrites : (upsert s policy position).rewrites l = decide (value ≠ existing) := by
    rw [rewrites, hsome]
    dsimp only
    rw [hresolve]
    simp
  rw [rewriting, hrewrites]
  by_cases heq : value = existing
  · simp [heq]
  · simp [heq, operation]

end Change

namespace PackedChunk

variable {c : PackedChunk} {l : Timeline}

/-- A deletion that succeeds notes that `c` is written anew. -/
theorem delete_notes
    (memory : Memory) (c : PackedChunk) (l : Timeline) (t : Timestamp) (position : ChunkPosition) :
  (c.delete memory t position).Notes
    fun outcome listed => listed
      = (Change.delete t position).rewriting l ((fun _ => 1) <$> outcome)
  := by
  rw [delete]
  split
  · cases c.replacement memory with
    | error e =>
      apply Step.notes_fail
      rfl
    | ok rebuilt =>
      apply writeAnew_notes memory c rebuilt
      · intro d
        split
        · apply c.replaceBy_notes d
          rfl
        · apply Step.notes_fail
          rfl
      · intros
        rfl
  · apply Step.notes_fail
    rfl

/-- If `c` holds `l`, a deletion of `range` notes that `c` is written anew, unless no sample of `l`
is in `range`. -/
theorem deleteRange_notes
    (memory : Memory) (h : c.Holds l.samples) (range : TimeRange) (position : ChunkPosition) :
  (c.deleteRange memory range position).Notes
    fun outcome listed => listed = (Change.deleteRange range position).rewriting l outcome
  := by
  rw [deleteRange]
  split
  · cases c.replacement memory with
    | error e =>
      apply Step.notes_fail
      rfl
    | ok rebuilt =>
      dsimp only
      rw [h.samples_eq]
      apply writeAnew_notes memory c rebuilt
      · intro d
        split
        · rename_i hnone
          apply Step.notes_done
          simp [Change.rewriting, Change.rewrites, hnone]
        · rename_i hsome
          apply Step.Notes.map
          apply c.replaceBy_notes d
          simp [Change.rewriting, Change.rewrites, hsome, Change.operation]
      · intros
        rfl
  · rename_i houtside
    have hnone : l.samples.countP (range.contains ·.timestamp) = 0 := by
      apply List.countP_eq_zero.mpr
      intro x hx
      rw [h.not_contains_of_outside range houtside hx]
      decide
    apply Step.notes_done
    simp [Change.rewriting, Change.rewrites, hnone]

/-- A split with the memories `older` and `newer` notes that `c` is written anew, if it succeeds. -/
theorem splitWith_notes
    {older newer : Memory} {step : Step PackedChunk PackedChunk}
    (h : c.splitWith older newer = .ok step) :
  step.Notes fun outcome listed => listed = if outcome.isOk then [.rebuild .split] else []
  := by
  rw [splitWith] at h
  split at h
  · cases h
  · cases h
    split
    · apply Step.notes_fail
      rfl
    · apply Step.notes_fail
      rfl
    · rename_i left right _ _
      apply (left.appendAll_silent older _).onCopy
      · intros
        apply writeAnew_notes newer c right
        · intro right
          apply Step.Notes.followed
          apply Step.notes_done
          rfl
        · intros
          rfl
      · intros
        rfl

/-- The samples of `c` before `t` can be written anew with `memory`, so that an upsert at `t` comes
as far as the sample there. -/
def reaches (memory : Memory) (c : PackedChunk) (t : Timestamp) : Bool :=
  match c.replacement memory with
  | .ok rebuilt =>
    (rebuilt.appendAll memory (c.samples.takeWhile (·.timestamp < t))).outcome.isOk
  | .error _ => false

end PackedChunk

/-! ### Insertions -/

namespace Chunk

/-- An upsert can come as far as the sample at a time. -/
def reaches (memory : Memory) : Chunk → Timestamp → Bool
  | plain _, _ => true
  | packed p, t => p.reaches memory t

/-- What is noted of the sample at the same time where `change` ends in `outcome`: the sample is
accepted or in conflict with it.  An upsert that fails in another way has accepted its sample if it
came as far. -/
def settlement (memory : Memory) (c : Chunk) (change : Change)
    (outcome : Except ChunkError Nat) : List Series :=
  match change with
  | .upsert s policy _ =>
    if c.samples.any (·.timestamp == s.timestamp) then
      match outcome with
      | .ok _ => [.resolution policy true]
      | .error e =>
        if e.isConflict then [.resolution policy false]
        else if c.reaches memory s.timestamp then [.resolution policy true] else []
    else []
  | _ => []

/-- What is noted of a chunk that is written anew for `change`. -/
def rewriting (c : Chunk) (l : Timeline) (change : Change) (outcome : Except ChunkError Nat) :
    List Series :=
  match c with
  | plain _ => []
  | packed _ => change.rewriting l outcome

/-- What is noted of a `change` on the way is `listed`. -/
def Tells (memory : Memory) (c : Chunk) (l : Timeline) (change : Change)
    (outcome : Except ChunkError Nat) (listed : List Series) : Prop :=
  listed = c.settlement memory change outcome ++ c.rewriting l change outcome

variable {c : Chunk} {s : Sample} {policy : DuplicatePolicy} {position : ChunkPosition}

theorem settlement_of_free
    (hfree : c.samples.any (·.timestamp == s.timestamp) = false) (memory : Memory)
    (outcome : Except ChunkError Nat) :
  c.settlement memory (.upsert s policy position) outcome = []
  := by
  cases outcome with
  | ok n =>
    rw [settlement, hfree]
    rfl
  | error e =>
    rw [settlement, hfree]
    rfl

theorem settlement_of_ok
    (hoccupied : c.samples.any (·.timestamp == s.timestamp) = true) (memory : Memory) (n : Nat) :
  c.settlement memory (.upsert s policy position) (.ok n) = [.resolution policy true]
  := by
  rw [settlement, hoccupied]
  rfl

theorem settlement_of_conflict
    (hoccupied : c.samples.any (·.timestamp == s.timestamp) = true) (memory : Memory)
    {e : ChunkError} (he : e.isConflict = true) :
  c.settlement memory (.upsert s policy position) (.error e)
    = [.resolution policy false]
  := by
  rw [settlement, hoccupied, he]
  rfl

theorem settlement_of_error
    (hoccupied : c.samples.any (·.timestamp == s.timestamp) = true) (memory : Memory)
    {e : ChunkError} (he : e.isConflict = false) :
  c.settlement memory (.upsert s policy position) (.error e)
    = if c.reaches memory s.timestamp then [.resolution policy true] else []
  := by
  rw [settlement, hoccupied, he]
  rfl

end Chunk

namespace PackedChunk

variable {c : PackedChunk} {l : Timeline} {s : Sample} {policy : DuplicatePolicy}
  {position : ChunkPosition}

theorem Holds.any_eq
    (h : c.Holds l.samples) (t : Timestamp) :
  (Chunk.packed c).samples.any (·.timestamp == t) = (l.valueAt? t).isSome
  := by
  rw [Chunk.samples, h.samples_eq, l.any_eq_isSome]

theorem Holds.any_eq_true
    (h : c.Holds l.samples) {t : Timestamp} {existing : Binary64}
    (hsome : l.valueAt? t = some existing) :
  (Chunk.packed c).samples.any (·.timestamp == t) = true
  := by
  rw [h.any_eq, hsome]
  rfl

/-- If `c` holds `l`, which has no sample at the time of `s` but later ones, then `s` is written
between those before it and those after it, and noted so. -/
theorem insert_notes_of_free
    (memory : Memory) (h : c.Holds l.samples) (hlast : l.last?.all (· < s.timestamp) = false)
    (hnone : l.valueAt? s.timestamp = none) :
  (c.insert memory s policy position).Notes
    ((Chunk.packed c).Tells memory l (.upsert s policy position))
  := by
  have hfree : (Chunk.packed c).samples.any (·.timestamp == s.timestamp) = false := by
    rw [h.any_eq, hnone]
    rfl
  have hok (n : Nat) :
      (Chunk.packed c).Tells memory l (.upsert s policy position) (.ok n) [.rebuild .upsert] := by
    rw [Chunk.Tells, Chunk.rewriting, Chunk.settlement_of_free hfree,
      Change.rewriting_of_free hnone, hlast]
    rfl
  have herror (e : ChunkError) :
      (Chunk.packed c).Tells memory l (.upsert s policy position) (.error e) [] := by
    rw [Chunk.Tells, Chunk.rewriting, Chunk.settlement_of_free hfree]
    rfl
  have hfinish (n : Nat) (d : PackedChunk) :
      ((c.replaceBy d .upsert position).map id fun _ => n).Notes
        ((Chunk.packed c).Tells memory l (.upsert s policy position)) := by
    apply Step.Notes.map
    apply c.replaceBy_notes d (hok n)
  rw [insert]
  cases c.replacement memory with
  | error e =>
    apply Step.notes_fail
    apply herror
  | ok rebuilt =>
    dsimp only
    split
    · apply writeAnew_notes memory c rebuilt _ _ fun e _ => herror e
      intro d
      apply (d.append_silent memory s true).onCopy _ fun e _ _ => herror e
      intros
      apply hfinish 1
    · rename_i existing later hrest
      have hne : existing.timestamp ≠ s.timestamp := by
        rw [h.samples_eq, (l.span_eq s.timestamp).2, Timeline.at?, hnone] at hrest
        have hmem : existing ∈ l.after s.timestamp := by simp_all
        apply (Int64.ne_of_lt (Timeline.lt_of_mem_after hmem)).symm
      apply (rebuilt.appendAll_silent memory _).onCopy _ fun e _ _ => herror e
      intros
      rw [if_neg hne]
      apply writeAnew_notes memory c _ _ _ fun e _ => herror e
      apply hfinish 1

/-- If `c` holds `l`, whose value at the time of `s` is settled with `s`, an upsert that succeeds
tells that `s` was accepted, and that the chunk was written anew unless the value stays. -/
theorem Holds.tells_of_ok
    (h : c.Holds l.samples) (memory : Memory) (position : ChunkPosition)
    {existing value : Binary64}
    (hsome : l.valueAt? s.timestamp = some existing)
    (hresolve : policy.resolve? existing s.value = some value) (n : Nat) :
  (Chunk.packed c).Tells memory l (.upsert s policy position) (.ok n)
    ([.resolution policy true] ++ if value = existing then [] else [.rebuild .upsert])
  := by
  rw [Chunk.Tells, Chunk.rewriting, Chunk.settlement_of_ok (h.any_eq_true hsome),
    Change.rewriting_of_occupied hsome hresolve]

/-- If `c` holds `l`, which has a value at the time of `s`, an upsert that ends in a conflict tells
that `s` was rejected. -/
theorem Holds.tells_of_conflict
    (h : c.Holds l.samples) (memory : Memory) {existing : Binary64}
    (hsome : l.valueAt? s.timestamp = some existing) {e : ChunkError} (he : e.isConflict = true) :
  (Chunk.packed c).Tells memory l (.upsert s policy position) (.error e)
    [.resolution policy false]
  := by
  rw [Chunk.Tells, Chunk.rewriting, Chunk.settlement_of_conflict (h.any_eq_true hsome) memory he]
  rfl

/-- If `c` holds `l`, which has a value at the time of `s`, an upsert that fails otherwise tells
that `s` was accepted if it came as far. -/
theorem Holds.tells_of_error
    (h : c.Holds l.samples) (memory : Memory) (policy : DuplicatePolicy)
    (position : ChunkPosition) {existing : Binary64}
    (hsome : l.valueAt? s.timestamp = some existing) {e : ChunkError} (he : e.isConflict = false) :
  (Chunk.packed c).Tells memory l (.upsert s policy position) (.error e)
    (if (Chunk.packed c).reaches memory s.timestamp then [.resolution policy true] else [])
  := by
  rw [Chunk.Tells, Chunk.rewriting, Chunk.settlement_of_error (h.any_eq_true hsome) memory he]
  exact (List.append_nil _).symm

/-- If `c` holds `l`, which has a value at the time of `s`, the upsert settles `s` with it once the
samples before `s` are written. -/
theorem insert_notes_of_occupied
    (memory : Memory) (h : c.Holds l.samples) {existing : Binary64}
    (hsome : l.valueAt? s.timestamp = some existing) :
  (c.insert memory s policy position).Notes
    ((Chunk.packed c).Tells memory l (.upsert s policy position))
  := by
  have herror (e : ChunkError) (he : e.isConflict = false) :=
    h.tells_of_error memory policy position hsome he
  obtain ⟨htakeWhile, hdropWhile⟩ := l.span_eq s.timestamp
  rw [insert]
  cases hreplacement : c.replacement memory with
  | error e =>
    have hreaches : (Chunk.packed c).reaches memory s.timestamp = false := by
      rw [Chunk.reaches, reaches, hreplacement]
    rw [hreaches] at herror
    apply Step.notes_fail
    apply herror
    rfl
  | ok rebuilt =>
    dsimp only
    rw [h.samples_eq, htakeWhile, hdropWhile, Timeline.at?, hsome]
    dsimp only [Option.map_some, Option.toList_some, List.cons_append, List.nil_append]
    have hreaches : (Chunk.packed c).reaches memory s.timestamp
        = (rebuilt.appendAll memory (l.before s.timestamp)).outcome.isOk := by
      rw [Chunk.reaches, reaches, hreplacement]
      dsimp only
      rw [h.samples_eq, htakeWhile]
    rw [hreaches] at herror
    apply (rebuilt.appendAll_silent memory _).onCopy
    -- The samples before this time are written: whatever fails now, the sample was settled.
    · intro _ houtcome
      rw [houtcome] at herror
      rw [if_pos rfl]
      cases hresolve : policy.resolve? existing s.value with
      | none =>
        apply Step.Notes.preceded (noted_once _)
        apply Step.notes_fail
        apply h.tells_of_conflict memory hsome
        rfl
      | some value =>
        have hok := h.tells_of_ok memory position hsome hresolve 0
        apply Step.Notes.preceded (noted_once _)
        split
        · rename_i heq
          rw [if_pos heq] at hok
          apply Step.notes_done hok
        · rename_i hne
          rw [if_neg hne] at hok
          apply writeAnew_notes memory c _ _ _ herror
          intro d
          apply Step.Notes.map
          apply c.replaceBy_notes d hok
    · intro e houtcome he
      rw [houtcome] at herror
      apply herror e he

/-- If `c` holds `l`, an upsert of `s` notes how `s` was settled with the sample at the same time,
and that `c` was written anew if it was. -/
theorem upsert_notes
    (memory : Memory) (h : c.Holds l.samples) (s : Sample) (policy : DuplicatePolicy)
    (position : ChunkPosition) :
  (c.upsert memory s policy position).Notes
    ((Chunk.packed c).Tells memory l (.upsert s policy position))
  := by
  have hlast : c.last?.all (· < s.timestamp) = l.last?.all (· < s.timestamp) :=
    congrArg (Option.all _) h.last?_eq
  rw [upsert]
  split
  · rename_i hall
    rw [hlast] at hall
    have hnone : l.valueAt? s.timestamp = none := by
      apply Timeline.valueAt?_eq_none_of_last_lt
      intro last hmem
      rw [Option.mem_def.mp hmem] at hall
      simpa using hall
    have hfree : (Chunk.packed c).samples.any (·.timestamp == s.timestamp) = false := by
      rw [h.any_eq, hnone]
      rfl
    apply Step.Notes.mono ((c.append_silent memory s true).andThen _)
    · rintro outcome _ ⟨rfl, _⟩
      rw [Chunk.Tells, Chunk.rewriting, Chunk.settlement_of_free hfree]
      cases outcome with
      | ok n => rw [Change.rewriting_of_free hnone, if_pos hall, List.append_nil]
      | error e => rfl
    · intros
      apply Step.silent_done
  · rename_i hall
    rw [hlast, Bool.not_eq_true] at hall
    cases hvalue : l.valueAt? s.timestamp with
    | none => apply insert_notes_of_free memory h hall hvalue
    | some existing => apply insert_notes_of_occupied memory h hvalue

end PackedChunk

/-! ### Plain chunks -/

namespace PlainChunk

variable {α : Type} {P : Except ChunkError α → List Series → Prop}

theorem add_notes
    (p : PlainChunk) (s : Sample) :
  (p.add s).Notes fun _ listed => listed = []
  := by
  rw [add]
  cases p.append s with
  | ok d =>
    apply Step.notes_done
    rfl
  | error e =>
    apply Step.notes_fail
    rfl

/-- An upsert of `s` into the plain chunk `p` notes how `s` was settled with the sample at the same
time. -/
theorem upsert_notes
    (memory : Memory) (p : PlainChunk) (l : Timeline) (s : Sample) (policy : DuplicatePolicy)
    (position : ChunkPosition) :
  (p.upsert s policy).Notes ((Chunk.plain p).Tells memory l (.upsert s policy position))
  := by
  have hany : (Chunk.plain p).samples.any (·.timestamp == s.timestamp)
      = (p.timeline.valueAt? s.timestamp).isSome := p.timeline.any_eq_isSome s.timestamp
  rw [upsert_eq]
  cases hvalue : p.timeline.valueAt? s.timestamp with
  | none =>
    rw [hvalue] at hany
    apply Step.notes_done
    rw [Chunk.Tells, Chunk.settlement_of_free hany]
    rfl
  | some existing =>
    rw [hvalue] at hany
    dsimp only
    cases policy.resolve? existing s.value with
    | none =>
      apply Step.Notes.preceded (noted_once _)
      apply Step.notes_fail
      rw [Chunk.Tells, Chunk.settlement_of_conflict hany memory rfl]
      rfl
    | some value =>
      apply Step.Notes.preceded (noted_once _)
      apply Step.notes_done
      rw [Chunk.Tells, Chunk.settlement_of_ok hany]
      rfl

theorem delete_notes
    (p : PlainChunk) (t : Timestamp) :
  (p.delete t).Notes fun _ listed => listed = []
  := by
  rw [delete_eq]
  cases p.timeline.valueAt? t with
  | none =>
    apply Step.notes_fail
    rfl
  | some value =>
    apply Step.notes_done
    rfl

/-- If the notes of `s` are as `P` says, so are those of `settle position s`: giving up slots is not
noted. -/
theorem settle_notes
    {s : Step PlainChunk α} (position : ChunkPosition) (h : s.Notes P) :
  (settle position s).Notes P
  := by
  unfold settle
  split
  · apply h
  · apply h

end PlainChunk

/-! ### Chunks of either encoding -/

namespace Chunk

variable {c : Chunk} {l : Timeline}

/-- If `c` holds `l`, what is noted of a `change` is what it tells on the way and then the operation
with its status. -/
theorem Holds.change_notes
    (h : c.Holds l) (memory : Memory) (change : Change) :
  (c.change memory change).Notes fun outcome listed => ∃ told, c.Tells memory l change outcome told
    ∧ listed = told ++ [.operation c.encoding change.operation (.ofOutcome outcome)]
  := by
  cases c with
  | plain p =>
    cases change with
    | add s =>
      rw [Chunk.change, add, Step.map_map]
      apply Step.Notes.told
      apply (p.add_notes s).mono
      rintro outcome _ rfl
      rfl
    | upsert s policy position =>
      apply Step.Notes.told
      apply PlainChunk.settle_notes
      apply (p.upsert_notes memory l s policy position).mono
      intro outcome listed h
      rwa [id_map]
    | delete t position =>
      rw [Chunk.change, delete, Step.map_map]
      apply Step.Notes.told
      apply PlainChunk.settle_notes
      apply (p.delete_notes t).mono
      rintro outcome _ rfl
      rfl
    | deleteRange range position =>
      apply Step.Notes.told
      apply PlainChunk.settle_notes
      rw [PlainChunk.deleteRange_eq]
      apply Step.notes_done
      rfl
  | packed p =>
    have h : p.Sound l := h
    cases change with
    | add s =>
      rw [Chunk.change, add, Step.map_map]
      apply Step.Notes.told
      apply (p.append_silent .ample s false).mono
      rintro outcome _ ⟨rfl, _⟩
      cases outcome with
      | ok => rfl
      | error e => rfl
    | upsert s policy position =>
      apply Step.Notes.told
      apply (p.upsert_notes memory h.holds s policy position).mono
      intro outcome listed h
      rwa [id_map]
    | delete t position =>
      rw [Chunk.change, delete, Step.map_map]
      apply Step.Notes.told
      apply (p.delete_notes memory l t position).mono
      intro outcome listed h
      apply h
    | deleteRange range position =>
      apply Step.Notes.told
      apply (p.deleteRange_notes memory h.holds range position).mono
      intro outcome listed h
      rwa [id_map]

/-- What is noted of a split with the memories `older` and `newer` is that a packed chunk was
written anew, if it succeeded, and then the operation with its status. -/
theorem splitWith_notes
    {older newer : Memory} {step : Step Chunk Chunk} (h : c.splitWith older newer = .ok step) :
  step.Notes fun outcome listed => ∃ told,
    told = (if c.encoding = .packed ∧ outcome.isOk then [.rebuild .split] else [])
    ∧ listed = told ++ [.operation c.encoding .split (.ofOutcome outcome)]
  := by
  cases c with
  | plain p =>
    rw [splitWith, PlainChunk.split] at h
    split at h
    · cases h
    · cases h
      apply Step.Notes.told
      apply Step.notes_done
      rfl
  | packed p =>
    rw [splitWith] at h
    cases hsplit : p.splitWith older newer with
    | error breach =>
      rw [hsplit] at h
      cases h
    | ok s =>
      rw [hsplit] at h
      cases h
      apply Step.Notes.told
      apply (PackedChunk.splitWith_notes hsplit).mono
      rintro outcome _ rfl
      cases outcome with
      | ok d => rfl
      | error e => rfl

/-- Nothing is noted of `c.convert memory target`. -/
theorem convert_noted
    (memory : Memory) (c : Chunk) (target : Encoding) :
  Noted (c.convert memory target).events []
  := by
  unfold convert
  split
  · apply noted_nil
  · cases target with
    | plain => apply noted_nil
    | packed =>
      dsimp only
      rw [toPacked]
      cases PackedChunk.allocate memory c.capacity with
      | error e => apply noted_nil
      | ok p =>
        obtain ⟨_, hnoted, rfl, _⟩ := p.appendAll_silent memory c.samples
        apply hnoted

end Chunk

end TimeSeries
