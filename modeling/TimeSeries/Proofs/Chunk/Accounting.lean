import TimeSeries.Proofs.Chunk.Notes

/-!
# Accounts

A session keeps chunks in a list.  It makes and loads chunks, and asks the one at a place for
something.  What a chunk answers tells what is to be counted: that an operation ended with a status,
that a sample was accepted or rejected when it came upon one at the same time, and that a packed
chunk was written anew.  `Accounted answers n` says that the numbers `n` are those of the answers.
It holds of one answer and of answers put together, and so of whatever a session is asked.

One answer does not tell what is counted.  A packed chunk that is refused memory may be refused it
before or after it comes upon the sample at the same time (`Chunk.Holds.settlement_eq`).  It counts
the sample as accepted in the latter case, although it does not take it, and not at all in the
former one.
-/

namespace TimeSeries

/-! ### Answers -/

/-- What a chunk can be asked for.  The newer half of a split has a memory of its own. -/
inductive Query where
  | change (memory : Memory) (change : Change)
  | split (older newer : Memory)
  | convert (memory : Memory) (target : Encoding)
  | scan (direction : Direction) (count : Nat)
  | aggregate (kind : AggregationKind) (range : TimeRange)
  | save

/-- What a chunk answers.  A change and a split come with the chunk as it was. -/
inductive Answer where
  | changed (before : Chunk) (change : Change) (outcome : Except ChunkError Nat) (after : Chunk)
  | divided (before : Chunk) (outcome : Except ChunkError Chunk)
  | converted (outcome : Except ChunkError Chunk)
  | scanned (samples : List Sample)
  | aggregated (value : Except AggregationError Binary64)
  | saved (frames : List Frame)
  | broken (breach : Breach)

namespace Chunk

/-- The samples of `after` are neither those of `before` nor these with one behind them. -/
def Revises (after before : Chunk) : Prop :=
  after.samples ≠ before.samples ∧ ∀ s, after.samples ≠ before.samples ++ [s]

instance (after before : Chunk) : Decidable (after.Revises before) :=
  decidable_of_iff
    (after.samples ≠ before.samples
      ∧ ∀ s ∈ after.samples.getLast?, after.samples ≠ before.samples ++ [s])
    (and_congr_right fun _ => ⟨fun h s heq => h s (by simp [heq]) heq, fun h s _ => h s⟩)

/-- Is there a sample at the time `t`? -/
def occupied (c : Chunk) (t : Timestamp) : Bool := c.samples.any (·.timestamp == t)

end Chunk

namespace Answer

/-- The answer says that `operation`, on a chunk of the encoding, ended with `status`. -/
def endsWith (encoding : Encoding) (operation : Operation) (status : Status) : Answer → Bool
  | changed before change outcome _ =>
    before.encoding = encoding ∧ change.operation = operation
      ∧ Status.ofOutcome outcome = status
  | divided before outcome =>
    before.encoding = encoding ∧ .split = operation ∧ Status.ofOutcome outcome = status
  | _ => false

/-- The answer is that to an insertion under `policy` at a time where there was a sample. -/
def hits (policy : DuplicatePolicy) : Answer → Bool
  | changed before (.upsert s p _) _ _ => p = policy ∧ before.occupied s.timestamp
  | _ => false

/-- The answer is that to a change that succeeded. -/
def succeeds : Answer → Bool
  | changed _ _ outcome _ => outcome.isOk
  | _ => false

/-- The policy settled a sample with the one at the same time, and `accepted` says whether the
insertion succeeded. -/
def settles (policy : DuplicatePolicy) (accepted : Bool) (a : Answer) : Bool :=
  a.hits policy && a.succeeds == accepted

/-- A packed chunk was refused memory where `policy` was to settle a sample with the one at the same
time. -/
def starves (policy : DuplicatePolicy) (a : Answer) : Bool :=
  a.hits policy && a.endsWith .packed .upsert .overflow

/-- The `operation` split a packed chunk, or it changed the samples of one otherwise than by
appending. -/
def rewrites (operation : Operation) : Answer → Bool
  | changed before change outcome after =>
    before.encoding = .packed ∧ outcome.isOk ∧ after.Revises before
      ∧ change.operation = operation
  | divided before outcome => before.encoding = .packed ∧ outcome.isOk ∧ .split = operation
  | _ => false

/-- The series of the sample that was settled with the one at the same time.  Where the chunk
starved, `reached` tells whether it had come as far as that sample. -/
def settlement (reached : Bool) (a : Answer) : List Series :=
  match a with
  | changed _ (.upsert _ policy _) _ _ =>
    if a.starves policy then if reached then [.resolution policy true] else []
    else if a.hits policy then [.resolution policy a.succeeds] else []
  | _ => []

/-- The series that are to be counted with an answer, where `reached` is as for `settlement`. -/
def listed (reached : Bool) (a : Answer) : List Series :=
  match a with
  | changed before change outcome after =>
    a.settlement reached
    ++ (if before.encoding = .packed ∧ outcome.isOk ∧ after.Revises before
      then [.rebuild change.operation] else [])
    ++ [.operation before.encoding change.operation (.ofOutcome outcome)]
  | divided before outcome =>
    (if before.encoding = .packed ∧ outcome.isOk then [.rebuild .split] else [])
    ++ [.operation before.encoding .split (.ofOutcome outcome)]
  | _ => []

end Answer

/-- The number `n` of each series goes with the answers.  Every operation is counted by its status,
every packed chunk that was written anew by the operation that did it, and every sample that came
upon one at the same time as accepted or rejected.  Only where a packed chunk starved the sample is
never rejected, and it may be accepted or not be counted. -/
structure Accounted (answers : List Answer) (n : Series → Nat) : Prop where
  operation : ∀ encoding operation status, n (.operation encoding operation status)
    = answers.countP (·.endsWith encoding operation status)
  rebuild : ∀ operation, n (.rebuild operation) = answers.countP (·.rewrites operation)
  rejected : ∀ policy, n (.resolution policy false) + answers.countP (·.starves policy)
    = answers.countP (·.settles policy false)
  accepted_ge : ∀ policy,
    answers.countP (·.settles policy true) ≤ n (.resolution policy true)
  accepted_le : ∀ policy, n (.resolution policy true)
    ≤ answers.countP (·.settles policy true) + answers.countP (·.starves policy)

namespace Accounted

variable {answers more : List Answer} {n m : Series → Nat}

theorem nil :
  Accounted [] fun _ => 0
  := by
  constructor
  · intros
    rfl
  · intros
    rfl
  · intros
    rfl
  · intros
    apply Nat.le_refl
  · intros
    apply Nat.le_refl

theorem append
    (h : Accounted answers n) (hmore : Accounted more m) :
  Accounted (answers ++ more) fun series => n series + m series
  := by
  constructor
  · intro encoding operation status
    rw [List.countP_append, h.operation, hmore.operation]
  · intro operation
    rw [List.countP_append, h.rebuild, hmore.rebuild]
  · intro policy
    rw [List.countP_append, List.countP_append, ← h.rejected, ← hmore.rejected]
    omega
  · intro policy
    rw [List.countP_append]
    apply Nat.add_le_add (h.accepted_ge policy) (hmore.accepted_ge policy)
  · intro policy
    have hle := h.accepted_le policy
    have hmore := hmore.accepted_le policy
    rw [List.countP_append, List.countP_append]
    omega

/-- If the numbers of `answers` are those of `n`, they are also those of any `m` that agrees with
`n` on every series but `Series.growth`. -/
theorem congr
    (h : Accounted answers n) (heq : ∀ series, series ≠ .growth → m series = n series) :
  Accounted answers m
  := by
  have hresolution (policy : DuplicatePolicy) (accepted : Bool) :
      m (.resolution policy accepted) = n (.resolution policy accepted) := by
    apply heq
    rintro ⟨⟩
  constructor
  · intro encoding operation status
    rw [heq _ (by rintro ⟨⟩), h.operation]
  · intro operation
    rw [heq _ (by rintro ⟨⟩), h.rebuild]
  · intro policy
    rw [hresolution, h.rejected]
  · intro policy
    rw [hresolution]
    apply h.accepted_ge
  · intro policy
    rw [hresolution]
    apply h.accepted_le

/-- Where no packed chunk starved under `policy`, it is known of each sample whether it is accepted
or rejected. -/
theorem resolution
    (h : Accounted answers n) {policy : DuplicatePolicy}
    (hstarves : answers.countP (·.starves policy) = 0) (accepted : Bool) :
  n (.resolution policy accepted) = answers.countP (·.settles policy accepted)
  := by
  cases accepted with
  | false =>
    rw [← h.rejected, hstarves, Nat.add_zero]
  | true =>
    have hle := h.accepted_le policy
    rw [hstarves, Nat.add_zero] at hle
    apply Nat.le_antisymm hle (h.accepted_ge policy)

end Accounted

/-! ### Listed series -/

theorem count_singleton_eq
    (a series : Series) :
  [a].count series = if a = series then 1 else 0
  := by
  rw [List.count_singleton]
  simp only [beq_iff_eq]

theorem count_if_eq
    (p : Prop) [Decidable p] (a series : Series) :
  (if p then [a] else []).count series = if p ∧ a = series then 1 else 0
  := by
  by_cases h : p
  · rw [if_pos h, count_singleton_eq]
    simp [h]
  · rw [if_neg h]
    simp [h]

namespace Answer

/-- If `a` starved under `policy`, it came upon a sample at the same time and did not succeed. -/
theorem succeeds_of_starves
    {policy : DuplicatePolicy} {a : Answer} (h : a.starves policy = true) :
  a.hits policy = true ∧ a.succeeds = false
  := by
  obtain ⟨hhits, hended⟩ := Bool.and_eq_true_iff.mp h
  use hhits
  cases a with
  | changed before change outcome after =>
    cases outcome with
    | ok n => simp [endsWith, Status.ofOutcome] at hended
    | error e => rfl
  | _ => rfl

/-- If `p` is not `policy`, an upsert under `p` does not come upon a sample under `policy`. -/
theorem hits_eq_false
    {policy p : DuplicatePolicy} (hne : p ≠ policy) (before after : Chunk) (s : Sample)
    (position : ChunkPosition) (outcome : Except ChunkError Nat) :
  (changed before (.upsert s p position) outcome after).hits policy = false
  := by
  rw [hits, decide_eq_false]
  rintro ⟨heq, _⟩
  apply hne heq

/-- The settlement of `a` is listed as no `series` other than a resolution. -/
theorem count_settlement_eq_zero
    (reached : Bool) (a : Answer) {series : Series}
    (hseries : ∀ policy accepted, series ≠ .resolution policy accepted) :
  (a.settlement reached).count series = 0
  := by
  have hne (policy : DuplicatePolicy) (accepted : Bool) :
      [Series.resolution policy accepted].count series = 0 := by
    rw [count_singleton_eq, if_neg (hseries policy accepted).symm]
  rw [settlement.eq_def]
  split
  · split
    · split
      · apply hne
      · rfl
    · split
      · apply hne
      · rfl
  · rfl

/-- How often a sample is listed as accepted under `policy`, and how often as rejected. -/
theorem count_settlement
    (reached : Bool) (a : Answer) (policy : DuplicatePolicy) :
  let noted (accepted : Bool) := (a.settlement reached).count (.resolution policy accepted)
  noted false + [a].countP (·.starves policy) = [a].countP (·.settles policy false)
    ∧ [a].countP (·.settles policy true) ≤ noted true
    ∧ noted true ≤ [a].countP (·.settles policy true) + [a].countP (·.starves policy)
  := by
  have hnothing (a : Answer) (hhits : a.hits policy = false)
      (hnone : ∀ accepted, (a.settlement reached).count (.resolution policy accepted) = 0) :
      let noted (accepted : Bool) := (a.settlement reached).count (.resolution policy accepted)
      noted false + [a].countP (·.starves policy) = [a].countP (·.settles policy false)
        ∧ [a].countP (·.settles policy true) ≤ noted true
        ∧ noted true ≤ [a].countP (·.settles policy true) + [a].countP (·.starves policy) := by
    simp [hnone, settles, starves, hhits]
  cases a with
  | changed before change outcome after =>
    cases change with
    | upsert s p position =>
      by_cases hp : p = policy
      · subst hp
        simp only [settlement, List.countP_singleton, settles]
        cases hstarves : (changed before (.upsert s p position) outcome after).starves p with
        | true =>
          obtain ⟨hhits, hsucceeds⟩ := succeeds_of_starves hstarves
          rw [hhits, hsucceeds]
          cases reached <;> simp
        | false =>
          cases (changed before (.upsert s p position) outcome after).hits p <;>
            cases (changed before (.upsert s p position) outcome after).succeeds <;> simp
      · apply hnothing _ (hits_eq_false hp _ _ _ _ _)
        intro accepted
        rw [settlement]
        split
        · cases reached <;> simp [hp]
        · split <;> simp [hp]
    | add | delete | deleteRange => exact hnothing _ rfl fun _ => rfl
  | divided | converted | scanned | aggregated | saved | broken => exact hnothing _ rfl fun _ => rfl

/-- The numbers of the answer `a` are how often its series are listed, whether or not the sample at
the same time was reached. -/
theorem accounted_listed
    (reached : Bool) (a : Answer) :
  Accounted [a] (a.listed reached).count
  := by
  have hzero (series : Series) (hseries : ∀ policy accepted, series ≠ .resolution policy accepted) :
      (a.settlement reached).count series = 0 := a.count_settlement_eq_zero reached hseries
  have hresolution (policy : DuplicatePolicy) (accepted : Bool) :
      (a.listed reached).count (.resolution policy accepted)
        = (a.settlement reached).count (.resolution policy accepted) := by
    cases a with
    | changed =>
      rw [listed, List.count_append, List.count_append, count_if_eq, count_singleton_eq]
      simp
    | divided =>
      rw [listed, List.count_append, count_if_eq, count_singleton_eq]
      simp [settlement]
    | _ => rfl
  constructor
  · intro encoding operation status
    cases a with
    | changed =>
      rw [listed, List.count_append, List.count_append, hzero, count_if_eq, count_singleton_eq,
        List.countP_singleton]
      · simp [endsWith]
      · rintro _ _ ⟨⟩
    | divided =>
      rw [listed, List.count_append, count_if_eq, count_singleton_eq, List.countP_singleton]
      simp [endsWith]
    | _ => rfl
  · intro operation
    cases a with
    | changed =>
      rw [listed, List.count_append, List.count_append, hzero, count_if_eq, count_singleton_eq,
        List.countP_singleton]
      · simp [rewrites, and_assoc]
      · rintro _ _ ⟨⟩
    | divided =>
      rw [listed, List.count_append, count_if_eq, count_singleton_eq, List.countP_singleton]
      simp [rewrites, and_assoc]
    | _ => rfl
  · intro policy
    rw [hresolution]
    apply (a.count_settlement reached policy).1
  · intro policy
    rw [hresolution]
    apply (a.count_settlement reached policy).2.1
  · intro policy
    rw [hresolution]
    apply (a.count_settlement reached policy).2.2

end Answer

/-! ### Revisions -/

namespace Timeline

variable {l l' : Timeline}

/-- If `l'` is no longer than `l`, its samples are not those of `l` with one behind them. -/
theorem ne_append_of_length_le
    (h : l'.length ≤ l.length) (s : Sample) :
  l'.samples ≠ l.samples ++ [s]
  := by
  intro heq
  rw [length, heq, List.length_append, List.length_singleton, length] at h
  omega

/-- If `s` is at a time of its own, and not after all samples of `l`, then `l.put s` is not `l` with
a sample behind the others. -/
theorem put_ne_append
    {s : Sample} (hnone : l.valueAt? s.timestamp = none)
    (hlast : ¬∀ last ∈ l.last?, last < s.timestamp) (x : Sample) :
  (l.put s).samples ≠ l.samples ++ [x]
  := by
  intro heq
  have hincreasing := (l.put s).increasing
  have hmem : s ∈ l.samples ++ [x] := by
    rw [← heq, samples_put]
    apply List.mem_append_right _ List.mem_cons_self
  rw [heq] at hincreasing
  rcases List.mem_append.mp hmem with hmem | hmem
  · apply (l.valueAt?_eq_none_iff s.timestamp).mp hnone s hmem rfl
  · obtain rfl := List.mem_singleton.mp hmem
    apply hlast
    intro last hsome
    obtain ⟨y, hy, rfl⟩ := Option.map_eq_some_iff.mp hsome
    apply (List.pairwise_append.mp hincreasing).2.2 y (List.mem_of_getLast? hy) s hmem

theorem length_put_of_occupied
    {s : Sample} {existing : Binary64} (hsome : l.valueAt? s.timestamp = some existing) :
  (l.put s).length = l.length
  := by
  have hsamples := congrArg List.length (l.samples_eq s.timestamp)
  rw [at?, hsome] at hsamples
  rw [length, length, hsamples, samples_put]
  simp

/-- If `l` and `l'` differ at the time `t`, their samples differ. -/
theorem samples_ne_of_valueAt?_ne
    (t : Timestamp) (h : l'.valueAt? t ≠ l.valueAt? t) :
  l'.samples ≠ l.samples
  := by
  intro heq
  apply h
  rw [eq_of_samples_eq heq]

end Timeline

namespace Change

/-- If `change` acts on `l` and gives `l'`, then a packed chunk is written anew for it just when
`l'` has neither the samples of `l` nor these with one behind them. -/
theorem Acts.rewrites_iff
    {l l' : Timeline} {change : Change} {n : Nat} (h : change.Acts l n l') :
  change.rewrites l = true ↔ l'.samples ≠ l.samples ∧ ∀ s, l'.samples ≠ l.samples ++ [s]
  := by
  cases h with
  | @add s hlast =>
    rw [← Timeline.push_eq_put l s hlast]
    simp [rewrites, Timeline.samples_push]
  | @insert s policy position hnone =>
    have hrewrites : (upsert s policy position).rewrites l = true
        ↔ ¬∀ last ∈ l.last?, last < s.timestamp := by
      rw [rewrites, hnone]
      cases l.last? <;> simp
    rw [hrewrites]
    constructor
    · intro hlast
      have hne : (l.put s).valueAt? s.timestamp ≠ l.valueAt? s.timestamp := by
        rw [Timeline.valueAt?_put, if_pos rfl, hnone]
        simp
      use Timeline.samples_ne_of_valueAt?_ne s.timestamp hne, Timeline.put_ne_append hnone hlast
    · rintro ⟨_, hne⟩ hlast
      apply hne s
      rw [← Timeline.push_eq_put l s hlast, Timeline.samples_push]
  | @resolve s policy position existing value hsome hresolve =>
    have hrewrites : (upsert s policy position).rewrites l = true ↔ value ≠ existing := by
      rw [rewrites, hsome]
      simp [hresolve]
    have hlength : (l.put ⟨s.timestamp, value⟩).length = l.length :=
      Timeline.length_put_of_occupied hsome
    rw [hrewrites]
    constructor
    · intro hne
      have hne : (l.put ⟨s.timestamp, value⟩).valueAt? s.timestamp ≠ l.valueAt? s.timestamp := by
        rw [Timeline.valueAt?_put, if_pos rfl, hsome]
        simpa using hne
      use Timeline.samples_ne_of_valueAt?_ne s.timestamp hne
      apply Timeline.ne_append_of_length_le (Nat.le_of_eq hlength)
    · rintro ⟨hne, _⟩ rfl
      apply hne
      rw [l.put_eq_self hsome]
  | @delete t position value hsome =>
    have hne : (l.filter (· != t)).valueAt? t ≠ l.valueAt? t := by
      rw [Timeline.valueAt?_filter, hsome]
      simp
    constructor
    · intro _
      use Timeline.samples_ne_of_valueAt?_ne t hne
      apply Timeline.ne_append_of_length_le (l.length_filter_le _)
    · intro _
      rfl
  | @deleteRange range position =>
    have hrewrites : (Change.deleteRange range position).rewrites l = true
        ↔ l.samples.countP (range.contains ·.timestamp) ≠ 0 := by
      rw [rewrites, decide_eq_true_iff]
    rw [hrewrites]
    constructor
    · intro hcount
      constructor
      · intro heq
        apply hcount
        apply List.countP_eq_zero.mpr
        intro x hx
        rw [← heq] at hx
        simpa using (List.mem_filter.mp hx).2
      · apply Timeline.ne_append_of_length_le (l.length_filter_le _)
    · rintro ⟨hne, _⟩ hcount
      apply hne
      rw [l.filter_eq_self_of_countP hcount]

end Change

/-! ### Changes -/

namespace Chunk

variable {c : Chunk} {l : Timeline}

/-- What is noted of the sample at the time of `s` is that it was accepted or rejected as the upsert
succeeded or not.  Where the chunk starved it is noted as accepted if `memory` sufficed for the
samples before `s`, and not noted otherwise. -/
theorem Holds.settlement_eq
    (h : c.Holds l) (memory : Memory) (s : Sample) (policy : DuplicatePolicy)
    (position : ChunkPosition) :
  let step := c.change memory (.upsert s policy position)
  c.settlement memory (.upsert s policy position) step.outcome
    = (Answer.changed c (.upsert s policy position) step.outcome step.after).settlement
        (c.reaches memory s.timestamp)
  := by
  intro step
  rw [Answer.settlement]
  set a := Answer.changed c (.upsert s policy position) step.outcome step.after
  have hhits : a.hits policy = c.occupied s.timestamp := by simp [a, Answer.hits]
  cases hoccupied : c.occupied s.timestamp with
  | false =>
    rw [settlement_of_free hoccupied, Answer.starves, hhits, hoccupied]
    rfl
  | true =>
    have hends := h.change_ends memory (.upsert s policy position)
    have hstarves : a.starves policy = a.endsWith .packed .upsert .overflow := by
      rw [Answer.starves, hhits, hoccupied, Bool.true_and]
    rw [hstarves, hhits, hoccupied]
    cases houtcome : step.outcome with
    | ok n =>
      rw [settlement_of_ok hoccupied]
      simp [a, houtcome, Answer.endsWith, Answer.succeeds, Status.ofOutcome, Except.isOk,
        Except.toBool]
    | error e =>
      obtain ⟨_, hfails⟩ := hends.of_error houtcome
      rcases upsert_fails_cases hfails with ⟨existing, _, rfl⟩ | ⟨hpacked, hrefuses⟩
      · rw [settlement_of_conflict hoccupied memory rfl]
        simp [a, houtcome, Answer.endsWith, Answer.succeeds, Status.ofOutcome, Except.isOk,
          Except.toBool]
      · obtain ⟨shortage, rfl⟩ := hrefuses.outOfMemory
        rw [settlement_of_error hoccupied memory rfl]
        simp [a, houtcome, hpacked, Answer.endsWith, Change.operation, Status.ofOutcome]

/-- What is noted of a packed chunk `c` that `change` writes anew is that its samples were
revised. -/
theorem Holds.rewriting_eq
    (h : c.Holds l) (memory : Memory) (change : Change) :
  let step := c.change memory change
  c.rewriting l change step.outcome
    = if c.encoding = .packed ∧ step.outcome.isOk ∧ step.after.Revises c
      then [.rebuild change.operation] else []
  := by
  intro step
  cases c with
  | plain p =>
    rw [if_neg (by rintro ⟨⟨⟩, _⟩)]
    rfl
  | packed p =>
    have hends := h.change_ends memory change
    cases houtcome : step.outcome with
    | ok n =>
      obtain ⟨l', hacts, hl'⟩ := hends.of_ok houtcome
      have hrevises : step.after.Revises (packed p) ↔ change.rewrites l = true := by
        rw [Revises, hl'.samples_eq, h.samples_eq, hacts.rewrites_iff]
      rw [rewriting, Change.rewriting]
      apply if_congr _ rfl rfl
      rw [hrevises]
      constructor
      · intro hrewrites
        use rfl, rfl, hrewrites
      · rintro ⟨_, _, hrewrites⟩
        apply hrewrites
    | error e =>
      rw [if_neg (by rintro ⟨_, ⟨⟩, _⟩)]
      rfl

/-- If `c` holds `l`, what is noted of a `change` is what is listed with its answer. -/
theorem Holds.change_noted
    (h : c.Holds l) (memory : Memory) (change : Change) :
  let step := c.change memory change
  ∃ reached, Noted step.events
    ((Answer.changed c change step.outcome step.after).listed reached)
  := by
  intro step
  obtain ⟨_, hnoted, told, htold, rfl⟩ := h.change_notes memory change
  rw [htold, h.rewriting_eq] at hnoted
  cases change with
  | upsert s policy position =>
    rw [h.settlement_eq] at hnoted
    use c.reaches memory s.timestamp, hnoted
  | add | delete | deleteRange => use false, hnoted

/-- A packed chunk does not starve if `memory` grants all that it may ask for, and a plain chunk
never does. -/
theorem Holds.starves_eq_false
    (h : c.Holds l) {memory : Memory} (hmemory : c.encoding = .packed → memory.Reaches c.reach)
    (change : Change) (policy : DuplicatePolicy) :
  let step := c.change memory change
  (Answer.changed c change step.outcome step.after).starves policy = false
  := by
  intro step
  apply Bool.eq_false_iff.mpr
  intro hstarves
  obtain ⟨_, hended⟩ := Bool.and_eq_true_iff.mp hstarves
  simp only [Answer.endsWith, decide_eq_true_eq] at hended
  obtain ⟨_, hoperation, hstatus⟩ := hended
  cases change with
  | upsert s p position =>
    cases houtcome : step.outcome with
    | ok n =>
      rw [houtcome] at hstatus
      cases hstatus
    | error e =>
      obtain ⟨_, hfails⟩ := (h.change_ends memory _).of_error houtcome
      rcases upsert_fails_cases hfails with ⟨existing, _, rfl⟩ | ⟨hpacked, hrefuses⟩
      · rw [houtcome] at hstatus
        cases hstatus
      · apply hrefuses.not_reaches (hmemory hpacked)
  | add | delete | deleteRange => cases hoperation

/-! ### Splits -/

/-- If `step` is a split of `c` with two memories, what is noted of it is what is listed with its
answer. -/
theorem split_noted
    {older newer : Memory} {step : Step Chunk Chunk} (h : c.splitWith older newer = .ok step)
    (reached : Bool) :
  Noted step.events ((Answer.divided c step.outcome).listed reached)
  := by
  obtain ⟨_, hnoted, _, rfl, rfl⟩ := splitWith_notes h
  apply hnoted

/-- If `c` holds `l`, a split with two memories leaves a chunk that holds a timeline, and gives
another if it succeeds. -/
theorem Holds.splitWith
    (h : c.Holds l) {older newer : Memory} {step : Step Chunk Chunk}
    (hsplit : c.splitWith older newer = .ok step) :
  (∃ l', step.after.Holds l') ∧ ∀ d, step.outcome = .ok d → ∃ l', d.Holds l'
  := by
  cases c with
  | plain p =>
    have hsplit : (plain p).split older = .ok step := hsplit
    apply h.split hsplit
  | packed p =>
    have h : p.Sound l := h
    by_cases hcount : p.count = 0
    · rw [Chunk.splitWith, PackedChunk.splitWith, if_pos hcount] at hsplit
      cases hsplit
    · obtain ⟨s, hs, hends⟩ := PackedChunk.splitWith_ends older newer h.holds hcount
      rw [Chunk.splitWith, hs] at hsplit
      cases hsplit
      have hends : ((s.counted .packed .split).map packed packed).Ends
          (fun d after => (∃ l', after.Holds l') ∧ ∃ l', d.Holds l')
          fun _ after => ∃ l', after.Holds l' := by
        apply Step.Ends.map
        apply Step.Ends.counted
        apply hends.mono
        · rintro _ _ ⟨rfl, rfl⟩
          exact ⟨⟨_, (PackedChunk.packs_part _ _).sound⟩, _, (PackedChunk.packs_part _ _).sound⟩
        · rintro _ _ ⟨rfl, _⟩
          exact ⟨l, h⟩
      constructor
      · apply (hends.mono_good fun _ _ hd => hd.1).after
      · intro d houtcome
        apply (hends.of_ok houtcome).2

end Chunk

/-! ### Sessions -/

/-- What a chunk answers, what is counted, and which chunks there are afterwards. -/
structure Reply where
  answer : Answer
  events : List Event
  after : Chunk
  made : List Chunk

/-- Asks the chunk `c` for something. -/
def Chunk.ask (c : Chunk) : Query → Reply
  | .change memory change =>
    let step := c.change memory change
    ⟨.changed c change step.outcome step.after, step.events, step.after, []⟩
  | .split older newer =>
    match c.splitWith older newer with
    | .ok step =>
      ⟨.divided c step.outcome, step.events, step.after, step.outcome.toOption.toList⟩
    | .error breach => ⟨.broken breach, [], c, []⟩
  | .convert memory target =>
    let converted := c.convert memory target
    ⟨.converted converted.outcome, converted.events, c, converted.outcome.toOption.toList⟩
  | .scan direction count => ⟨.scanned ((c.scan direction).take count).1, [], c, []⟩
  | .aggregate kind range => ⟨.aggregated (c.aggregate kind range), [], c, []⟩
  | .save => ⟨.saved c.frames, [], c, []⟩

/-- A chunk is made or loaded, or the one at a place is asked for something. -/
inductive Call where
  | make (encoding : Encoding) (bytes : Nat)
  | load (cursor : Cursor)
  | ask (place : Nat) (query : Query)

/-- A change that a packed chunk `c` is asked for may have all the memory that it may ask for. -/
def Query.Granted (c : Chunk) : Query → Prop
  | .change memory _ => c.encoding = .packed → memory.Reaches c.reach
  | _ => True

/-- Chunks, what they answered so far, and what was counted. -/
structure Session where
  chunks : List Chunk
  answers : List Answer
  events : List Event

namespace Session

/-- The session in which there are no chunks yet. -/
def start : Session := ⟨[], [], []⟩

/-- One call in the session `s`.  New chunks go to the end of the list.  A snapshot that cannot be
read, and a place where there is no chunk, are passed over. -/
def call (s : Session) : Call → Session
  | .make encoding bytes => { s with chunks := s.chunks ++ [.new encoding bytes] }
  | .load cursor =>
    match Chunk.load cursor with
    | .ok c _ => { s with chunks := s.chunks ++ [c] }
    | .error _ _ => s
  | .ask place query =>
    match s.chunks[place]? with
    | some c =>
      let reply := c.ask query
      ⟨s.chunks.set place reply.after ++ reply.made, s.answers ++ [reply.answer],
        s.events ++ reply.events⟩
    | none => s

/-- The session after `calls` one after the other. -/
def run (calls : List Call) : Session := calls.foldl call start

/-- The chunk of `s` that is asked for something is granted the memory for it. -/
def Grants (s : Session) : Call → Prop
  | .ask place query => ∀ c ∈ s.chunks[place]?, query.Granted c
  | _ => True

/-- Of `calls`, made one after the other, each is granted the memory for it. -/
def GrantsAll (s : Session) : (calls : List Call) → Prop
  | [] => True
  | call :: calls => s.Grants call ∧ (s.call call).GrantsAll calls

end Session

namespace Chunk

variable {c : Chunk} {l : Timeline}

/-- If `c` holds `l`, then whatever the `query`, what is noted is what is listed with the answer. -/
theorem Holds.ask_noted
    (h : c.Holds l) (query : Query) :
  ∃ reached, Noted (c.ask query).events ((c.ask query).answer.listed reached)
  := by
  cases query with
  | change memory change => apply h.change_noted
  | split older newer =>
    use false
    rw [ask]
    cases hsplit : c.splitWith older newer with
    | ok step => apply split_noted hsplit
    | error breach => apply noted_nil
  | convert memory target => use false, c.convert_noted memory target
  | scan direction count => use false, noted_nil
  | aggregate kind range => use false, noted_nil
  | save => use false, noted_nil

/-- If `c` holds `l` and `query` is granted the memory for it, `c` does not starve. -/
theorem Holds.starves_ask
    (h : c.Holds l) {query : Query} (hgranted : query.Granted c) (policy : DuplicatePolicy) :
  (c.ask query).answer.starves policy = false
  := by
  cases query with
  | change memory change => apply h.starves_eq_false hgranted
  | split older newer =>
    rw [ask]
    cases c.splitWith older newer with
    | ok step => rfl
    | error breach => rfl
  | convert | scan | aggregate | save => rfl

theorem mem_made
    {outcome : Except ChunkError Chunk} {d : Chunk} (h : d ∈ outcome.toOption.toList) :
  outcome = .ok d
  := by
  cases outcome with
  | ok c =>
    obtain rfl := List.mem_singleton.mp h
    rfl
  | error e => cases h

/-- If `c` holds `l`, then whatever the `query`, the chunks there are afterwards hold timelines. -/
theorem Holds.holds_ask
    (h : c.Holds l) (query : Query) :
  (∃ l', (c.ask query).after.Holds l') ∧ ∀ d ∈ (c.ask query).made, ∃ l', d.Holds l'
  := by
  have hc : ∃ l', c.Holds l' := ⟨l, h⟩
  cases query with
  | change memory change =>
    use h.change memory change
    rintro _ ⟨⟩
  | split older newer =>
    rw [ask]
    cases hsplit : c.splitWith older newer with
    | ok step =>
      obtain ⟨hafter, hnewer⟩ := h.splitWith hsplit
      use hafter
      intro d hd
      apply hnewer d (mem_made hd)
    | error breach =>
      use hc
      rintro _ ⟨⟩
  | convert memory target =>
    use hc
    intro d hd
    have houtcome : (c.convert memory target).outcome = .ok d := mem_made hd
    rcases h.convert_cases memory target with ⟨converted, hok, hconverted, _⟩ | ⟨e, herror, _⟩
    · rw [houtcome] at hok
      cases hok
      use l
    · rw [houtcome] at herror
      cases herror
  | scan direction count =>
    use hc
    rintro _ ⟨⟩
  | aggregate kind range =>
    use hc
    rintro _ ⟨⟩
  | save =>
    use hc
    rintro _ ⟨⟩

end Chunk

namespace Session

/-- The chunks of `s` hold timelines, and its events come to the numbers of its answers. -/
structure Sound (s : Session) : Prop where
  holds : ∀ c ∈ s.chunks, ∃ l, c.Holds l
  accounted : Accounted s.answers (gain s.events)

theorem sound_start :
  start.Sound
  := by
  constructor
  · rintro _ ⟨⟩
  · apply Accounted.nil

/-- If `s` is sound and `c` holds a timeline, `s` is sound with `c` added. -/
theorem Sound.added
    {s : Session} (h : s.Sound) {c : Chunk} (hc : ∃ l, c.Holds l) :
  Sound { s with chunks := s.chunks ++ [c] }
  := by
  constructor
  · intro d hd
    rcases List.mem_append.mp hd with hd | hd
    · apply h.holds d hd
    · obtain rfl := List.mem_singleton.mp hd
      apply hc
  · apply h.accounted

/-- If `s` is sound and `c` is one of its chunks, `s` is sound after `query` is asked of `c`. -/
theorem Sound.asked
    {s : Session} (h : s.Sound) {c : Chunk} (hc : c ∈ s.chunks) (place : Nat) (query : Query) :
  Sound ⟨s.chunks.set place (c.ask query).after ++ (c.ask query).made,
    s.answers ++ [(c.ask query).answer], s.events ++ (c.ask query).events⟩
  := by
  obtain ⟨l, hl⟩ := h.holds c hc
  obtain ⟨hafter, hmade⟩ := hl.holds_ask query
  obtain ⟨reached, hnoted⟩ := hl.ask_noted query
  constructor
  · intro d hd
    rcases List.mem_append.mp hd with hd | hd
    · rcases List.mem_or_eq_of_mem_set hd with hd | rfl
      · apply h.holds d hd
      · apply hafter
    · apply hmade d hd
  · apply (h.accounted.append ((c.ask query).answer.accounted_listed reached)).congr
    intro series hseries
    rw [gain_append, hnoted series hseries]

/-- If `s` is sound, it is sound after one `call`. -/
theorem Sound.call
    {s : Session} (h : s.Sound) (call : Call) :
  (s.call call).Sound
  := by
  cases call with
  | make encoding bytes =>
    apply h.added
    exact ⟨_, Chunk.holds_new encoding bytes⟩
  | load cursor =>
    rw [Session.call]
    split
    · rename_i c rest hload
      apply h.added
      apply Chunk.gives_load _ _ _ hload
    · apply h
  | ask place query =>
    rw [Session.call]
    split
    · rename_i c hc
      apply h.asked (List.mem_of_getElem? hc)
    · apply h

/-- If `s` is sound, it is sound after all `calls`. -/
theorem Sound.calls
    {s : Session} (h : s.Sound) (calls : List Call) :
  (calls.foldl Session.call s).Sound
  := by
  induction calls generalizing s with
  | nil => apply h
  | cons call calls ih => apply ih (h.call call)

theorem sound_run
    (calls : List Call) :
  (run calls).Sound
  := sound_start.calls calls

/-- One step: if no chunk of `s` starved so far, and `call` is granted the memory for it, none
starves. -/
theorem Sound.countP_starves_call
    {s : Session} (h : s.Sound) {call : Call} (hgrants : s.Grants call) {policy : DuplicatePolicy}
    (hstarves : s.answers.countP (·.starves policy) = 0) :
  (s.call call).answers.countP (·.starves policy) = 0
  := by
  cases call with
  | make encoding bytes => apply hstarves
  | load cursor =>
    rw [Session.call]
    split
    · apply hstarves
    · apply hstarves
  | ask place query =>
    rw [Session.call]
    split
    · rename_i c hc
      obtain ⟨l, hl⟩ := h.holds c (List.mem_of_getElem? hc)
      have hanswer := hl.starves_ask (hgrants c hc) policy
      dsimp only
      rw [List.countP_append, hstarves, List.countP_singleton, hanswer]
      rfl
    · apply hstarves

/-- Run: if no chunk of `s` starved so far, and all `calls` are granted the memory for them, none
starves. -/
theorem Sound.countP_starves_calls
    {s : Session} (h : s.Sound) {calls : List Call} (hgrants : s.GrantsAll calls)
    {policy : DuplicatePolicy} (hstarves : s.answers.countP (·.starves policy) = 0) :
  (calls.foldl Session.call s).answers.countP (·.starves policy) = 0
  := by
  induction calls generalizing s with
  | nil => apply hstarves
  | cons call calls ih =>
    obtain ⟨hcall, hcalls⟩ := hgrants
    apply ih (h.call call) hcalls
    apply h.countP_starves_call hcall hstarves

/-- If all `calls` are granted the memory for them, no packed chunk starves.  Every sample that came
upon one at the same time is then counted as accepted or rejected. -/
theorem countP_starves_run
    {calls : List Call} (h : start.GrantsAll calls) (policy : DuplicatePolicy) :
  (run calls).answers.countP (·.starves policy) = 0
  := by
  apply sound_start.countP_starves_calls h
  rfl

/-- For all `calls` the tally `t` gains from the events of their session the numbers of its
answers. -/
theorem total_recordAll_eq
    (t : Tally) (calls : List Call) :
  ∃ n, Accounted (run calls).answers n
    ∧ ∀ series, (t.recordAll (run calls).events).total series = t.total series + n series
  := by
  use gain (run calls).events, (sound_run calls).accounted
  intro series
  apply t.total_recordAll

/-- Whatever the session is asked by `calls`, a tally gains for each operation on chunks of an
encoding and each status the number of answers that ended so, and for each operation the number of
packed chunks that it wrote anew.  For each `policy` under which no packed chunk starved, as
in `countP_starves_run`, it gains the number of samples that came upon one at the same time and were
accepted, and of those that were rejected, whatever the encoding is. -/
theorem total_recordAll_run
    (t : Tally) (calls : List Call) :
  let s := run calls
  (∀ encoding operation status,
    (t.recordAll s.events).total (.operation encoding operation status)
      = t.total (.operation encoding operation status)
        + s.answers.countP (·.endsWith encoding operation status))
  ∧ (∀ policy, s.answers.countP (·.starves policy) = 0 → ∀ accepted,
    (t.recordAll s.events).total (.resolution policy accepted)
      = t.total (.resolution policy accepted) + s.answers.countP (·.settles policy accepted))
  ∧ ∀ operation,
    (t.recordAll s.events).total (.rebuild operation)
      = t.total (.rebuild operation) + s.answers.countP (·.rewrites operation)
  := by
  obtain ⟨n, hn, htotal⟩ := total_recordAll_eq t calls
  constructor
  · intro encoding operation status
    rw [htotal, hn.operation]
  · constructor
    · intro policy hstarves accepted
      rw [htotal, hn.resolution hstarves]
    · intro operation
      rw [htotal, hn.rebuild]

/-- A case of the count: a sample is put over another one in a packed chunk and in a plain chunk,
and both count it as `Series.resolution` accepted. -/
theorem total_recordAll_run_both_encodings :
  let s := run [.make .packed 0, .ask 0 (.change .ample (.add ⟨7, ⟨1⟩⟩)),
    .ask 0 (.convert .ample .plain),
    .ask 0 (.change .ample (.upsert ⟨7, ⟨2⟩⟩ .last .latest)),
    .ask 1 (.change .ample (.upsert ⟨7, ⟨2⟩⟩ .last .latest))]
  s.answers.countP (·.starves .last) = 0
    ∧ (Tally.empty.recordAll s.events).total (.resolution .last true) = 2
    ∧ (Tally.empty.recordAll s.events).total (.resolution .last false) = 0
    ∧ (Tally.empty.recordAll s.events).total (.rebuild .upsert) = 1
  := by
  intro s
  obtain ⟨_, hresolution, hrebuild⟩ := total_recordAll_run .empty
    [.make .packed 0, .ask 0 (.change .ample (.add ⟨7, ⟨1⟩⟩)), .ask 0 (.convert .ample .plain),
      .ask 0 (.change .ample (.upsert ⟨7, ⟨2⟩⟩ .last .latest)),
      .ask 1 (.change .ample (.upsert ⟨7, ⟨2⟩⟩ .last .latest))]
  have hstarves : s.answers.countP (·.starves .last) = 0 := by decide +kernel
  have haccepted : s.answers.countP (·.settles .last true) = 2 := by decide +kernel
  have hrejected : s.answers.countP (·.settles .last false) = 0 := by decide +kernel
  have hrewrites : s.answers.countP (·.rewrites .upsert) = 1 := by decide +kernel
  use hstarves
  rw [hresolution .last hstarves, hresolution .last hstarves, hrebuild, haccepted, hrejected,
    hrewrites]
  use rfl, rfl
  rfl

/-- Where memory is refused, an upsert into a packed chunk does not come upon the sample at the same
time, and is not counted as `Series.resolution` although it fails.  The plain chunk with the same
samples needs no memory to count it. -/
theorem total_resolution_of_refused :
  let refusing : Memory := ⟨fun _ => false⟩
  let s := run [.make .packed 0, .ask 0 (.change .ample (.add ⟨7, ⟨1⟩⟩)),
    .ask 0 (.convert .ample .plain),
    .ask 0 (.change refusing (.upsert ⟨7, ⟨2⟩⟩ .last .latest)),
    .ask 1 (.change refusing (.upsert ⟨7, ⟨2⟩⟩ .last .latest))]
  s.answers.countP (·.hits .last) = 2
    ∧ s.answers.countP (·.settles .last true) = 1
    ∧ (Tally.empty.recordAll s.events).total (.resolution .last true) = 1
    ∧ s.answers.countP (·.settles .last false) = 1
    ∧ (Tally.empty.recordAll s.events).total (.resolution .last false) = 0
  := by
  decide +kernel

/-- Where packed chunks starved under `policy`, every sample that did not starve is still counted as
accepted or rejected.  A sample that starved is not counted as rejected, and at most once as
accepted. -/
theorem total_resolution_run
    (t : Tally) (calls : List Call) (policy : DuplicatePolicy) :
  let s := run calls
  let starved := s.answers.countP (·.starves policy)
  (t.recordAll s.events).total (.resolution policy false) + starved
      = t.total (.resolution policy false) + s.answers.countP (·.settles policy false)
    ∧ t.total (.resolution policy true) + s.answers.countP (·.settles policy true)
      ≤ (t.recordAll s.events).total (.resolution policy true)
    ∧ (t.recordAll s.events).total (.resolution policy true)
      ≤ t.total (.resolution policy true) + s.answers.countP (·.settles policy true) + starved
  := by
  intro s starved
  obtain ⟨n, hn, htotal⟩ := total_recordAll_eq t calls
  have hge := hn.accepted_ge policy
  have hle := hn.accepted_le policy
  dsimp only [s, starved]
  rw [htotal, htotal, ← hn.rejected]
  omega

end Session

end TimeSeries
