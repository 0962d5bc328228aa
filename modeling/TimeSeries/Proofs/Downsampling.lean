import Mathlib.Data.List.ReduceOption
import TimeSeries.Downsampling
import TimeSeries.Proofs.Aggregation.Folding

/-!
# Downsampling as grouping

A rule sees its samples one at a time and in any order.  What it gives out is what one gets
from all of them at once: the samples that are not behind an earlier one in time are put in
groups by their buckets, and each group is aggregated in the order of arrival.

The proof keeps track of what the rule has become after some samples.  If there were any, it
is open for the latest of their buckets, and has taken in the accepted values of that bucket.
-/

namespace TimeSeries

/-! ### Groups -/

namespace Rule

variable (r : Rule)

/-- The sample `s` is not late: no one of the `earlier` samples is in a later bucket. -/
def Accepts (earlier : List Sample) (s : Sample) : Prop :=
  ∀ x ∈ earlier, r.bucketOf x.timestamp ≤ r.bucketOf s.timestamp

instance (earlier : List Sample) (s : Sample) : Decidable (r.Accepts earlier s) :=
  inferInstanceAs (Decidable (∀ x ∈ earlier, _))

/-- Those of a list of samples that `r` accepts as they come behind `earlier` ones. -/
def acceptedAfter (earlier : List Sample) : List Sample → List Sample
  | [] => []
  | s :: samples =>
    if r.Accepts earlier s then s :: acceptedAfter (earlier ++ [s]) samples
    else acceptedAfter (earlier ++ [s]) samples

/-- Those of `samples` that `r` accepts as they come. -/
def accepted (samples : List Sample) : List Sample := r.acceptedAfter [] samples

/-- The accepted values of the bucket that starts at `start`. -/
def values (samples : List Sample) (start : Timestamp) : List Binary64 :=
  ((r.accepted samples).filter (r.bucketOf ·.timestamp = start)).map Sample.value

/-- The sample that `r` makes for the bucket at `start`, of all values that are accepted of
`samples` at once. -/
def batch (samples : List Sample) (start : Timestamp) : Option Sample :=
  match aggregate r.kind (r.values samples start) with
  | .ok value => some ⟨start, value⟩
  | .error _ => none

/-- What is to be answered to the sample `s` that comes behind `earlier` ones. -/
inductive Answers (earlier : List Sample) (s : Sample) : Option Sample → Prop where
  /-- It is not accepted. -/
  | late (haccepts : ¬r.Accepts earlier s) : Answers earlier s none
  /-- It is the first of all, or its bucket is open. -/
  | open (haccepts : r.Accepts earlier s)
      (hbucket : earlier = [] ∨ ∃ x ∈ earlier, r.bucketOf x.timestamp = r.bucketOf s.timestamp) :
      Answers earlier s none
  /-- It is the first sample of a later bucket, and the latest of those before it is closed. -/
  | closes {x : Sample} (hmem : x ∈ earlier)
      (hlatest : ∀ y ∈ earlier, r.bucketOf y.timestamp ≤ r.bucketOf x.timestamp)
      (hlater : r.bucketOf x.timestamp < r.bucketOf s.timestamp) :
      Answers earlier s (r.batch earlier (r.bucketOf x.timestamp))

/-! ### Runs -/

/-- What the rule `r` is after it has taken in `samples`. -/
def after (samples : List Sample) : Rule := samples.foldl (fun r s => (r.ingest s).rule) r

/-- What `r` answers to samples, one answer for each. -/
def answers (r : Rule) : List Sample → List (Option Sample)
  | [] => []
  | s :: samples => (r.ingest s).sample? :: (r.ingest s).rule.answers samples

/-- All that `r` gives out for `samples` and a flush behind them. -/
def emitted (samples : List Sample) : List Sample :=
  (r.answers samples ++ [(r.after samples).flush.sample?]).reduceOption

/-- The rule `r` has no bucket open and has taken in nothing. -/
structure Fresh : Prop where
  aggregator : r.aggregator = .new r.kind
  bucket : r.bucket? = none

variable {r}

theorem acceptedAfter_append
    (earlier first second : List Sample) :
  r.acceptedAfter earlier (first ++ second)
    = r.acceptedAfter earlier first ++ r.acceptedAfter (earlier ++ first) second
  := by
  induction first generalizing earlier with
  | nil => rw [List.nil_append, List.append_nil]; rfl
  | cons s first ih =>
    rw [List.cons_append, acceptedAfter, acceptedAfter, ih, List.append_assoc,
      List.singleton_append]
    split
    · rw [List.cons_append]
    · rfl

/-- A sample `s` behind `samples` is accepted or passed over, and those before it are accepted as
they were. -/
theorem accepted_concat
    (samples : List Sample) (s : Sample) :
  r.accepted (samples ++ [s])
    = r.accepted samples ++ if r.Accepts samples s then [s] else []
  := by
  rw [accepted, acceptedAfter_append, List.nil_append]
  rfl

theorem mem_of_mem_accepted
    {samples : List Sample} {s : Sample} (h : s ∈ r.accepted samples) :
  s ∈ samples
  := by
  induction samples using List.reverseRecOn with
  | nil => cases h
  | append_singleton samples x ih =>
    rw [accepted_concat] at h
    rcases List.mem_append.mp h with h | h
    · apply List.mem_append_left _ (ih h)
    · apply List.mem_append_right
      split at h
      · apply h
      · cases h

theorem values_concat_of_not_accepts
    {samples : List Sample} {s : Sample} (h : ¬r.Accepts samples s) :
  r.values (samples ++ [s]) = r.values samples
  := by
  funext start
  rw [values, values, accepted_concat, if_neg h, List.append_nil]

theorem values_concat_of_eq
    {samples : List Sample} {s : Sample} (h : r.Accepts samples s) :
  r.values (samples ++ [s]) (r.bucketOf s.timestamp)
    = r.values samples (r.bucketOf s.timestamp) ++ [s.value]
  := by
  rw [values, values, accepted_concat, if_pos h, List.filter_append, List.map_append]
  simp

theorem values_concat_of_ne
    {samples : List Sample} {s : Sample} {start : Timestamp}
    (h : r.bucketOf s.timestamp ≠ start) :
  r.values (samples ++ [s]) start = r.values samples start
  := by
  rw [values, values, accepted_concat, List.filter_append, List.map_append]
  split
  · simp [h]
  · simp

/-- If no one of `samples` is in the bucket at `start`, the bucket has no values. -/
theorem values_eq_nil
    {samples : List Sample} {start : Timestamp}
    (h : ∀ x ∈ samples, r.bucketOf x.timestamp ≠ start) :
  r.values samples start = []
  := by
  rw [values, List.map_eq_nil_iff, List.filter_eq_nil_iff]
  intro x hx
  simpa using h x (mem_of_mem_accepted hx)

/-- If `s` is one of the accepted `samples`, its bucket has values. -/
theorem values_ne_nil
    {samples : List Sample} {s : Sample} (h : s ∈ r.accepted samples) :
  r.values samples (r.bucketOf s.timestamp) ≠ []
  := by
  rw [values, Ne, List.map_eq_nil_iff, List.filter_eq_nil_iff]
  intro hnone
  simpa using hnone s h

/-- If no one of `samples` is in a later bucket than `x`, then `x` is accepted. -/
theorem mem_accepted_of_latest
    {samples : List Sample} {x : Sample} (hmem : x ∈ samples)
    (hlatest : ∀ y ∈ samples, r.bucketOf y.timestamp ≤ r.bucketOf x.timestamp) :
  x ∈ r.accepted samples
  := by
  induction samples using List.reverseRecOn with
  | nil => cases hmem
  | append_singleton samples s ih =>
    obtain ⟨hearlier, hs⟩ := List.forall_mem_append.mp hlatest
    rw [accepted_concat]
    rcases List.mem_append.mp hmem with hmem | hmem
    · apply List.mem_append_left _ (ih hmem hearlier)
    · obtain rfl := List.mem_singleton.mp hmem
      have haccepts : r.Accepts samples x := hearlier
      rw [if_pos haccepts]
      apply List.mem_append_right _ hmem

/-! ### One sample -/

/-- The rule with the bucket at `start` open and its accepted values taken in. -/
def opened (r : Rule) (samples : List Sample) (start : Timestamp) : Rule :=
  { r with
    aggregator := (r.values samples start).foldl Aggregator.append r.aggregator
    bucket? := some start }

/-- What a fresh rule `r` is after samples: still fresh if there are none, and else open for the
latest of their buckets. -/
inductive Reaches (r : Rule) : List Sample → Rule → Prop where
  | fresh : r.Reaches [] r
  | opened {samples : List Sample} {x : Sample} (hmem : x ∈ samples)
      (hlatest : ∀ y ∈ samples, r.bucketOf y.timestamp ≤ r.bucketOf x.timestamp) :
      r.Reaches samples (r.opened samples (r.bucketOf x.timestamp))

theorem close_opened
    (hfresh : r.Fresh) (samples : List Sample) (start : Timestamp) :
  ((r.opened samples start).close start).rule = r
    ∧ ((r.opened samples start).close start).sample? = r.batch samples start
  := by
  have hreset : (r.opened samples start).aggregator.reset = r.aggregator := by
    rw [Aggregator.reset, opened, Aggregator.kind_foldl_append, hfresh.aggregator,
      Aggregator.kind_new]
  have hrule : { r.opened samples start with aggregator := r.aggregator, bucket? := none } = r := by
    cases r
    cases hfresh.bucket
    rfl
  have hresult : (r.opened samples start).aggregator.result
      = aggregate r.kind (r.values samples start) := by
    rw [opened, aggregate, ← hfresh.aggregator]
  rw [close, batch, ← hresult, hreset, hrule]
  cases (r.opened samples start).aggregator.result with
  | ok value => constructor <;> rfl
  | error e => constructor <;> rfl

/-- If the sample `s` is accepted behind `samples`, a rule that is open for the bucket of `s` takes
it in. -/
theorem accept_opened
    {samples : List Sample} {s : Sample} (haccepts : r.Accepts samples s) :
  (r.opened samples (r.bucketOf s.timestamp)).accept (r.bucketOf s.timestamp) s
    = r.opened (samples ++ [s]) (r.bucketOf s.timestamp)
  := by
  rw [opened, opened, accept, values_concat_of_eq haccepts, List.foldl_append]
  rfl

/-- If no one of `samples` is in the bucket of `s`, a rule that accepts `s` is open for this
bucket. -/
theorem accept_eq_opened
    {samples : List Sample} {s : Sample} (haccepts : r.Accepts samples s)
    (hfirst : ∀ x ∈ samples, r.bucketOf x.timestamp ≠ r.bucketOf s.timestamp) :
  r.accept (r.bucketOf s.timestamp) s = r.opened (samples ++ [s]) (r.bucketOf s.timestamp)
  := by
  rw [opened, accept, values_concat_of_eq haccepts, values_eq_nil hfirst]
  rfl

theorem reaches_concat
    {samples : List Sample} {s : Sample} (haccepts : r.Accepts samples s) :
  r.Reaches (samples ++ [s]) (r.opened (samples ++ [s]) (r.bucketOf s.timestamp))
  := by
  apply Reaches.opened (List.mem_append_right _ List.mem_cons_self)
  intro y hy
  rcases List.mem_append.mp hy with hy | hy
  · apply haccepts y hy
  · rw [List.mem_singleton.mp hy]
    apply Int64.le_refl

/-- If the sample `s` is not accepted behind `samples`, the rule stays as it is and gives out
nothing. -/
theorem Reaches.ingest_of_not_accepts
    {samples : List Sample} {now : Rule} (h : r.Reaches samples now) {s : Sample}
    (haccepts : ¬r.Accepts samples s) :
  now.ingest s = ⟨now, none, []⟩ ∧ r.Reaches (samples ++ [s]) now
  := by
  cases h with
  | fresh =>
    exfalso
    apply haccepts
    rintro _ ⟨⟩
  | @opened _ x hmem hlatest =>
    have hlate : r.bucketOf s.timestamp < r.bucketOf x.timestamp := by
      apply Int64.not_le.mp
      intro hle
      apply haccepts
      intro y hy
      apply Int64.le_trans (hlatest y hy) hle
    constructor
    · apply if_pos hlate
    · have hopened : r.opened samples = r.opened (samples ++ [s]) := by
        funext start
        rw [Rule.opened, Rule.opened, values_concat_of_not_accepts haccepts]
      rw [hopened]
      apply Reaches.opened (List.mem_append_left _ hmem)
      intro y hy
      rcases List.mem_append.mp hy with hy | hy
      · apply hlatest y hy
      · rw [List.mem_singleton.mp hy]
        apply Int64.le_of_lt hlate

/-- If the sample `s` is accepted behind `samples`, the rule takes it in, and closes the open bucket
if it is an earlier one. -/
theorem Reaches.ingest_of_accepts
    {samples : List Sample} {now : Rule} (hfresh : r.Fresh) (h : r.Reaches samples now)
    {s : Sample} (haccepts : r.Accepts samples s) :
  (now.ingest s).rule = r.opened (samples ++ [s]) (r.bucketOf s.timestamp)
    ∧ r.Answers samples s (now.ingest s).sample?
  := by
  cases h with
  | fresh =>
    have hingest : r.ingest s = ⟨r.accept (r.bucketOf s.timestamp) s, none, []⟩ := by
      rw [ingest, hfresh.bucket]
    rw [hingest]
    constructor
    · apply accept_eq_opened haccepts
      rintro _ ⟨⟩
    · apply Answers.open haccepts
      left
      rfl
  | @opened _ x hmem hlatest =>
    have hnot : ¬r.bucketOf s.timestamp < r.bucketOf x.timestamp := by
      apply Int64.not_lt.mpr (haccepts x hmem)
    rcases Int64.lt_or_eq_of_le (haccepts x hmem) with hlater | hsame
    · have hne : r.bucketOf s.timestamp ≠ r.bucketOf x.timestamp := (Int64.ne_of_lt hlater).symm
      obtain ⟨hrule, hsample⟩ := close_opened hfresh samples (r.bucketOf x.timestamp)
      generalize hclosed : (r.opened samples (r.bucketOf x.timestamp)).close
        (r.bucketOf x.timestamp) = closed at hrule hsample
      have hingest : (r.opened samples (r.bucketOf x.timestamp)).ingest s
          = { closed with rule := closed.rule.accept (r.bucketOf s.timestamp) s } := by
        rw [← hclosed]
        exact (if_neg hnot).trans (if_neg hne)
      rw [hingest]
      dsimp only
      rw [hrule, hsample]
      constructor
      · apply accept_eq_opened haccepts
        intro y hy
        apply Int64.ne_of_lt (Int64.lt_of_le_of_lt (hlatest y hy) hlater)
      · apply Answers.closes hmem hlatest hlater
    · have hingest : (r.opened samples (r.bucketOf x.timestamp)).ingest s
          = ⟨(r.opened samples (r.bucketOf s.timestamp)).accept (r.bucketOf s.timestamp) s, none,
            []⟩ := by
        rw [hsame]
        exact (if_neg Int64.lt_irrefl).trans (if_pos rfl)
      rw [hingest]
      constructor
      · apply accept_opened haccepts
      · apply Answers.open haccepts
        right
        use x

/-- One sample: after `s` the rule is open for the latest bucket again, and its answer is as it
should be. -/
theorem Reaches.ingest
    {samples : List Sample} {now : Rule} (hfresh : r.Fresh) (h : r.Reaches samples now)
    (s : Sample) :
  r.Reaches (samples ++ [s]) (now.ingest s).rule ∧ r.Answers samples s (now.ingest s).sample?
  := by
  by_cases haccepts : r.Accepts samples s
  · obtain ⟨hrule, hanswers⟩ := h.ingest_of_accepts hfresh haccepts
    rw [hrule]
    use reaches_concat haccepts
  · obtain ⟨hingest, hreaches⟩ := h.ingest_of_not_accepts haccepts
    rw [hingest]
    use hreaches
    apply Answers.late haccepts

theorem Reaches.flush
    {samples : List Sample} {now : Rule} (hfresh : r.Fresh) (h : r.Reaches samples now) :
  now.flush.rule = r
    ∧ ((samples = [] ∧ now.flush.sample? = none) ∨ ∃ x ∈ samples,
      (∀ y ∈ samples, r.bucketOf y.timestamp ≤ r.bucketOf x.timestamp)
        ∧ now.flush.sample? = r.batch samples (r.bucketOf x.timestamp))
  := by
  cases h with
  | fresh =>
    rw [Rule.flush, hfresh.bucket]
    use rfl
    left
    use rfl
  | @opened _ x hmem hlatest =>
    obtain ⟨hrule, hsample⟩ := close_opened hfresh samples (r.bucketOf x.timestamp)
    use hrule
    right
    use x, hmem, hlatest, hsample

/-! ### Many samples -/

theorem after_concat
    (samples : List Sample) (s : Sample) :
  r.after (samples ++ [s]) = ((r.after samples).ingest s).rule
  := by
  rw [after, List.foldl_append]
  rfl

theorem answers_append
    (first second : List Sample) :
  r.answers (first ++ second) = r.answers first ++ (r.after first).answers second
  := by
  induction first generalizing r with
  | nil => rfl
  | cons s first ih =>
    rw [List.cons_append, answers, answers, ih]
    rfl

theorem reaches_after
    (hfresh : r.Fresh) (samples : List Sample) :
  r.Reaches samples (r.after samples)
  := by
  induction samples using List.reverseRecOn with
  | nil => apply Reaches.fresh
  | append_singleton samples s ih =>
    rw [after_concat]
    apply (ih.ingest hfresh s).1

theorem batch_eq_some_iff
    {samples : List Sample} {start : Timestamp} {x : Sample} :
  r.batch samples start = some x
    ↔ start = x.timestamp ∧ aggregate r.kind (r.values samples start) = .ok x.value
  := by
  rw [batch]
  cases aggregate r.kind (r.values samples start) with
  | ok value =>
    cases x
    simp
  | error e => simp

/-- If a sample can be made for the bucket at `start`, some accepted one of `samples` is in it. -/
theorem exists_mem_accepted_of_aggregate_eq_ok
    {samples : List Sample} {start : Timestamp} {value : Binary64}
    (h : aggregate r.kind (r.values samples start) = .ok value) :
  ∃ s ∈ r.accepted samples, r.bucketOf s.timestamp = start
  := by
  by_contra hnone
  have hempty : r.values samples start = [] := by
    rw [values, List.map_eq_nil_iff, List.filter_eq_nil_iff]
    intro s hs hstart
    apply hnone
    use s, hs, by simpa using hstart
  have hresult : aggregate r.kind [] = .error .empty := by
    cases r.kind <;> rfl
  rw [hempty, hresult] at h
  cases h

/-- If the bucket at `start` is before that of `s`, the sample made for it does not depend on
`s`. -/
theorem batch_concat_of_lt
    {samples : List Sample} {s : Sample} {start : Timestamp} (h : start < r.bucketOf s.timestamp) :
  r.batch (samples ++ [s]) start = r.batch samples start
  := by
  rw [batch, batch, values_concat_of_ne (Int64.ne_of_lt h).symm]

/-- The bucket at `start` is closed after `samples`, as one of them is in a later one. -/
def Closed (r : Rule) (samples : List Sample) (start : Timestamp) : Prop :=
  ∃ y ∈ samples, start < r.bucketOf y.timestamp

theorem closed_concat_iff
    {samples : List Sample} {s : Sample} {start : Timestamp} :
  r.Closed (samples ++ [s]) start ↔ r.Closed samples start ∨ start < r.bucketOf s.timestamp
  := by
  simp [Closed, or_and_right, exists_or]

/-- If a sample `x` is made for a bucket, this is closed or it is the latest one, in which `y`
is. -/
theorem closed_or_eq
    {samples : List Sample} {x y : Sample}
    (hlatest : ∀ z ∈ samples, r.bucketOf z.timestamp ≤ r.bucketOf y.timestamp) (hy : y ∈ samples)
    (hx : r.batch samples x.timestamp = some x) :
  r.Closed samples x.timestamp ∨ x.timestamp = r.bucketOf y.timestamp
  := by
  obtain ⟨s, hs, hbucket⟩ := exists_mem_accepted_of_aggregate_eq_ok (batch_eq_some_iff.mp hx).2
  rw [← hbucket]
  rcases Int64.lt_or_eq_of_le (hlatest s (mem_of_mem_accepted hs)) with hlt | heq
  · left
    use y, hy, hlt
  · right
    apply heq

theorem lt_of_closed
    {samples : List Sample} {s : Sample} {start : Timestamp} (haccepts : r.Accepts samples s)
    (h : r.Closed samples start) :
  start < r.bucketOf s.timestamp
  := by
  obtain ⟨y, hy, hlt⟩ := h
  apply Int64.lt_of_lt_of_le hlt (haccepts y hy)

/-- After one more sample `s` the samples that are made for closed buckets are those before and the
`answer` to `s`. -/
theorem Answers.mem_iff
    {samples : List Sample} {s x : Sample} {answer : Option Sample}
    (h : r.Answers samples s answer) :
  (r.batch samples x.timestamp = some x ∧ r.Closed samples x.timestamp) ∨ some x = answer
    ↔ r.batch (samples ++ [s]) x.timestamp = some x ∧ r.Closed (samples ++ [s]) x.timestamp
  := by
  rw [closed_concat_iff]
  cases h with
  | late haccepts =>
    have hlate : x.timestamp < r.bucketOf s.timestamp → r.Closed samples x.timestamp := by
      intro hlt
      simp only [Accepts, not_forall, Int64.not_le] at haccepts
      obtain ⟨y, hy, hlater⟩ := haccepts
      use y, hy, Int64.lt_trans hlt hlater
    rw [batch, batch, values_concat_of_not_accepts haccepts, or_iff_left_of_imp hlate]
    simp
  | «open» haccepts hbucket =>
    constructor
    · rintro (⟨hbatch, hclosed⟩ | hnone)
      · rw [batch_concat_of_lt (lt_of_closed haccepts hclosed)]
        use hbatch
        left
        apply hclosed
      · cases hnone
    · rintro ⟨hbatch, hclosed⟩
      have hlt := or_imp.mpr ⟨lt_of_closed haccepts, id⟩ hclosed
      rw [batch_concat_of_lt hlt] at hbatch
      left
      use hbatch
      rcases hbucket with rfl | ⟨y, hy, hsame⟩
      · obtain ⟨z, hz, _⟩ := exists_mem_accepted_of_aggregate_eq_ok (batch_eq_some_iff.mp hbatch).2
        cases mem_of_mem_accepted hz
      · use y, hy
        rw [hsame]
        apply hlt
  | @closes y hy hlatest hlater =>
    have haccepts : r.Accepts samples s := by
      intro z hz
      apply Int64.le_trans (hlatest z hz) (Int64.le_of_lt hlater)
    constructor
    · rintro (⟨hbatch, hclosed⟩ | hsome)
      · rw [batch_concat_of_lt (lt_of_closed haccepts hclosed)]
        use hbatch
        left
        apply hclosed
      · obtain ⟨hstart, _⟩ := batch_eq_some_iff.mp hsome.symm
        rw [hstart] at hlater hsome
        rw [batch_concat_of_lt hlater]
        use hsome.symm
        right
        apply hlater
    · rintro ⟨hbatch, hclosed⟩
      have hlt := or_imp.mpr ⟨lt_of_closed haccepts, id⟩ hclosed
      rw [batch_concat_of_lt hlt] at hbatch
      rcases closed_or_eq hlatest hy hbatch with hclosed | hstart
      · left
        use hbatch
      · right
        rw [← hstart, hbatch]

/-- What a fresh rule answers to `samples` are the samples that are made for the closed buckets. -/
theorem mem_reduceOption_answers_iff
    (hfresh : r.Fresh) (samples : List Sample) (x : Sample) :
  x ∈ (r.answers samples).reduceOption
    ↔ r.batch samples x.timestamp = some x ∧ r.Closed samples x.timestamp
  := by
  induction samples using List.reverseRecOn with
  | nil => simp [answers, Closed]
  | append_singleton samples s ih =>
    have hanswers := ((reaches_after hfresh samples).ingest hfresh s).2
    rw [answers_append, List.reduceOption_append, List.mem_append, ih, ← hanswers.mem_iff,
      answers, answers, List.reduceOption_mem_iff, List.mem_singleton]

/-- If the times of `given` increase, and the `next` sample is after all of them, they increase with
it behind them. -/
theorem increasing_append
    {given : List Sample} {next : Option Sample}
    (h : given.Pairwise fun a b => a.timestamp < b.timestamp)
    (hnext : ∀ b, some b = next → ∀ a ∈ given, a.timestamp < b.timestamp) :
  (given ++ next.toList).Pairwise fun a b => a.timestamp < b.timestamp
  := by
  cases next with
  | none => rwa [Option.toList_none, List.append_nil]
  | some b =>
    rw [Option.toList_some, List.pairwise_append]
    use h, List.pairwise_singleton _ _
    intro a ha b' hb'
    rw [List.mem_singleton.mp hb']
    apply hnext b rfl a ha

/-- The sample `b` made for the latest bucket, in which `y` is, comes after every sample `a` made
for a closed one. -/
theorem lt_of_mem_answers
    (hfresh : r.Fresh) {samples : List Sample} {y a b : Sample}
    (hlatest : ∀ z ∈ samples, r.bucketOf z.timestamp ≤ r.bucketOf y.timestamp)
    (hb : some b = r.batch samples (r.bucketOf y.timestamp))
    (ha : a ∈ (r.answers samples).reduceOption) :
  a.timestamp < b.timestamp
  := by
  rw [← (batch_eq_some_iff.mp hb.symm).1]
  apply lt_of_closed hlatest ((mem_reduceOption_answers_iff hfresh samples a).mp ha).2

theorem increasing_reduceOption_answers
    (hfresh : r.Fresh) (samples : List Sample) :
  (r.answers samples).reduceOption.Pairwise fun a b => a.timestamp < b.timestamp
  := by
  induction samples using List.reverseRecOn with
  | nil => apply List.Pairwise.nil
  | append_singleton samples s ih =>
    have hanswers := ((reaches_after hfresh samples).ingest hfresh s).2
    rw [answers_append, List.reduceOption_append, answers, answers, List.reduceOption_singleton]
    apply increasing_append ih
    intro b hb a ha
    cases hanswer : ((r.after samples).ingest s).sample? with
    | none =>
      rw [hanswer] at hb
      cases hb
    | some b' =>
      rw [hanswer] at hanswers hb
      generalize hgiven : some b' = answer at hanswers hb
      cases hanswers with
      | late => cases hb
      | «open» => cases hb
      | closes hmem hlatest hlater => apply lt_of_mem_answers hfresh hlatest hb ha

theorem emitted_eq
    (samples : List Sample) :
  r.emitted samples
    = (r.answers samples).reduceOption ++ (r.after samples).flush.sample?.toList
  := by
  rw [emitted, List.reduceOption_append, List.reduceOption_singleton]

/-- A fresh rule gives out `x` for `samples`, with a flush behind them, exactly when `x` is the
sample made for a bucket of theirs. -/
theorem mem_emitted_iff
    (hfresh : r.Fresh) (samples : List Sample) (x : Sample) :
  x ∈ r.emitted samples ↔ r.batch samples x.timestamp = some x
  := by
  rw [emitted_eq, List.mem_append, Option.mem_toList, mem_reduceOption_answers_iff hfresh]
  obtain ⟨_, ⟨rfl, hnone⟩ | ⟨y, hy, hlatest, hsample⟩⟩ :=
    (reaches_after hfresh samples).flush hfresh
  · rw [hnone]
    constructor
    · rintro (⟨hbatch, _⟩ | hnone)
      · apply hbatch
      · cases hnone
    · intro hbatch
      obtain ⟨s, hs, _⟩ := exists_mem_accepted_of_aggregate_eq_ok (batch_eq_some_iff.mp hbatch).2
      cases mem_of_mem_accepted hs
  · rw [hsample]
    constructor
    · rintro (⟨hbatch, _⟩ | hbatch)
      · apply hbatch
      · rw [← (batch_eq_some_iff.mp hbatch).1]
        apply hbatch
    · intro hbatch
      rcases closed_or_eq hlatest hy hbatch with hclosed | hstart
      · left
        use hbatch
      · right
        rw [← hstart]
        apply hbatch

theorem increasing_emitted
    (hfresh : r.Fresh) (samples : List Sample) :
  (r.emitted samples).Pairwise fun a b => a.timestamp < b.timestamp
  := by
  rw [emitted_eq]
  apply increasing_append (increasing_reduceOption_answers hfresh samples)
  obtain ⟨_, ⟨_, hnone⟩ | ⟨y, _, hlatest, hsample⟩⟩ := (reaches_after hfresh samples).flush hfresh
  · rw [hnone]
    intro b hb
    cases hb
  · rw [hsample]
    intro b hb a ha
    apply lt_of_mem_answers hfresh hlatest hb ha

/-! ### Downsampling -/

/-- What the rule `r` gives out for `samples` as they come is what one gets from all of them at
once. -/
structure Downsamples (r : Rule) (samples : List Sample) : Prop where
  /-- A sample that is not accepted leaves the rule. -/
  passes : ∀ earlier s later, samples = earlier ++ s :: later → ¬r.Accepts earlier s →
    (r.after earlier).ingest s = ⟨r.after earlier, none, []⟩
  /-- The first sample of a later bucket is answered with the sample for the bucket before. -/
  answers : ∀ earlier s later, samples = earlier ++ s :: later →
    r.Answers earlier s ((r.after earlier).ingest s).sample?
  increasing : (r.emitted samples).Pairwise fun a b => a.timestamp < b.timestamp
  /-- Each sample given out stands for a bucket of accepted samples. -/
  mem_emitted : ∀ x, x ∈ r.emitted samples ↔
    (∃ s ∈ r.accepted samples, r.bucketOf s.timestamp = x.timestamp)
      ∧ aggregate r.kind (r.values samples x.timestamp) = .ok x.value
  /-- There is one for each bucket, as long as a word counts its values. -/
  emits : ∀ s ∈ r.accepted samples,
    (r.values samples (r.bucketOf s.timestamp)).length < wordLimit →
      ∃ value, ⟨r.bucketOf s.timestamp, value⟩ ∈ r.emitted samples
  /-- Nothing is left of the samples after the flush. -/
  flushed : (r.after samples).flush.rule = r

theorem Fresh.downsamples
    (hfresh : r.Fresh) (samples : List Sample) :
  r.Downsamples samples
  where
  passes earlier s _ _ haccepts := ((reaches_after hfresh earlier).ingest_of_not_accepts haccepts).1
  answers earlier s _ _ := ((reaches_after hfresh earlier).ingest hfresh s).2
  increasing := increasing_emitted hfresh samples
  mem_emitted x := by
    rw [mem_emitted_iff hfresh, batch_eq_some_iff, eq_self, true_and, iff_and_self]
    apply exists_mem_accepted_of_aggregate_eq_ok
  emits s hs hlength := by
    obtain ⟨value, hvalue⟩ :=
      Aggregator.exists_aggregate_eq_ok r.kind (values_ne_nil hs) hlength
    use value
    rw [mem_emitted_iff hfresh]
    apply batch_eq_some_iff.mpr
    use rfl, hvalue
  flushed := ((reaches_after hfresh samples).flush hfresh).1

/-- The rule `r` after `stretches` of samples with a flush behind each. -/
def afterStretches (r : Rule) (stretches : List (List Sample)) : Rule :=
  stretches.foldl (fun r samples => (r.after samples).flush.rule) r

theorem Fresh.afterStretches
    (hfresh : r.Fresh) (stretches : List (List Sample)) :
  r.afterStretches stretches = r
  := by
  induction stretches with
  | nil => rfl
  | cons samples stretches ih =>
    rw [Rule.afterStretches, List.foldl_cons, (hfresh.downsamples samples).flushed]
    apply ih

theorem fresh_of_new
    {destination : String} {width : UInt64} {kind : AggregationKind}
    (h : new destination width kind = .ok r) :
  r.Fresh
  := by
  rw [new] at h
  split at h
  · cases h
    constructor
    · rw [Rule.kind, Aggregator.kind_new]
    · rfl
  · cases h

theorem parts_of_new
    {destination : String} {width : UInt64} {kind : AggregationKind}
    (h : new destination width kind = .ok r) :
  r.destination = destination ∧ r.width = width
  := by
  rw [new] at h
  split at h
  · cases h
    use rfl
  · cases h

/-- A rule that is made for `destination`, `width` and `kind` downsamples whatever comes, and so it
does after any number of flushes. -/
theorem exists_new_downsamples
    (destination : String) {width : UInt64} (hpos : 1 ≤ width.toNat)
    (hlt : width.toNat < 2 ^ 63) (kind : AggregationKind) :
  ∃ r, new destination width kind = .ok r ∧ r.kind = kind ∧ ∀ stretches samples,
    r.afterStretches stretches = r ∧ r.Downsamples samples
  := by
  have hnew : new destination width kind
      = .ok ⟨destination, width, .new kind, none, hpos, hlt⟩ := dif_pos ⟨hpos, hlt⟩
  have hfresh := fresh_of_new hnew
  apply Exists.intro
  use hnew, Aggregator.kind_new kind
  intro stretches samples
  use hfresh.afterStretches stretches
  apply hfresh.downsamples

/-- A case of `exists_new_downsamples`: two buckets of an hour, where a sample of the first one
comes when the second one is open, and is passed over. -/
theorem exists_new_downsamples_hourly :
  let samples : List Sample := [⟨3700, ⟨1⟩⟩, ⟨3650, ⟨2⟩⟩, ⟨7200, ⟨3⟩⟩, ⟨3800, ⟨4⟩⟩]
  ∃ r, new "hourly" 3600 .last = .ok r ∧ r.Downsamples samples
    ∧ r.emitted samples = [⟨3600, ⟨2⟩⟩, ⟨7200, ⟨3⟩⟩]
  := by
  intro samples
  obtain ⟨r, hnew, _, hall⟩ := @exists_new_downsamples "hourly" 3600 (by decide)
    (by decide) .last
  use r, hnew, (hall [] samples).2
  cases hnew
  decide

end Rule

end TimeSeries
