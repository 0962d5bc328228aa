import TimeSeries.Proofs.Downsampling
import TimeSeries.Proofs.Downsampling.Alignment
import TimeSeries.Proofs.Snapshot.Aggregators

/-!
# What is true of a rule at any time

A rule comes from a new one by samples, flushes and reloads of its own frames.  Whatever its
history is, it is what a fresh rule is after the samples since the last flush.  So an open bucket
starts where buckets start and has values, and the aggregator has taken in these values and no
others; and with no bucket open the aggregator is a new one.  Hence a bucket that is closed
always gives a sample, and none is ever closed empty.
-/

namespace TimeSeries

namespace Rule

/-! ### Buckets -/

/-- If `r` and `r'` have the same buckets, they accept the same of `samples`. -/
theorem acceptedAfter_congr
    {r r' : Rule} (h : r'.bucketOf = r.bucketOf) (earlier samples : List Sample) :
  r'.acceptedAfter earlier samples = r.acceptedAfter earlier samples
  := by
  induction samples generalizing earlier with
  | nil => rfl
  | cons s samples ih =>
    have haccepts : r'.Accepts earlier s ↔ r.Accepts earlier s := by rw [Accepts, Accepts, h]
    simp only [acceptedAfter, haccepts, ih]

theorem values_congr
    {r r' : Rule} (h : r'.bucketOf = r.bucketOf) (samples : List Sample) :
  r'.values samples = r.values samples
  := by
  funext start
  rw [values, values, accepted, accepted, acceptedAfter_congr h, h]

/-- A bucket of `r` has no more values than there are `samples`. -/
theorem length_values_le
    (r : Rule) (samples : List Sample) (start : Timestamp) :
  (r.values samples start).length ≤ samples.length
  := by
  have haccepted : (r.accepted samples).length ≤ samples.length := by
    induction samples using List.reverseRecOn with
    | nil => apply Nat.le_refl
    | append_singleton samples s ih =>
      rw [accepted_concat, List.length_append, List.length_append]
      apply Nat.add_le_add ih
      split
      · apply Nat.le_refl
      · apply Nat.zero_le
  rw [values, List.length_map]
  apply Nat.le_trans (List.length_filter_le _ _) haccepted

/-! ### Histories -/

/-- The rule comes from a new one, whose destination has a name that a word measures, by samples,
flushes and reloads; these are the samples since the last flush. -/
inductive Comes : Rule → List Sample → Prop where
  | new {destination : String} {width : UInt64} {kind : AggregationKind} {r : Rule}
      (hname : (Text.toUtf8 destination).length < wordLimit)
      (hnew : new destination width kind = .ok r) : Comes r []
  | ingest {r : Rule} {samples : List Sample} (h : r.Comes samples) (s : Sample) :
      Comes (r.ingest s).rule (samples ++ [s])
  | flush {r : Rule} {samples : List Sample} (h : r.Comes samples) : Comes r.flush.rule []
  | reload {r r' : Rule} {samples : List Sample} {rest : List UInt8} {later : Cursor}
      (h : r.Comes samples) (hload : load ⟨encodeFrames r.frames ++ rest⟩ = .ok r' later) :
      Comes r' samples

/-- The rule `r` is in order after `samples`, which came since the last flush. -/
structure InOrder (r : Rule) (samples : List Sample) : Prop where
  /-- An open bucket starts where a bucket starts, and has values. -/
  opened : ∀ start ∈ r.bucket?, r.bucketOf start = start ∧ r.values samples start ≠ []
    ∧ r.aggregator.isEmpty = false
  /-- The aggregator has taken in the values of the open bucket and no others. -/
  aggregator_eq : ∀ start ∈ r.bucket?,
    r.aggregator = (r.values samples start).foldl Aggregator.append (.new r.kind)
  /-- With no bucket open, the aggregator is a new one. -/
  closed : r.bucket? = none → r.aggregator = .new r.kind
  /-- An open bucket that is flushed gives a sample and leaves nothing, with no event. -/
  flush_open : ∀ start ∈ r.bucket?, ∃ value, r.aggregator.result = .ok value
    ∧ r.flush = ⟨{ r with aggregator := .new r.kind, bucket? := none }, some ⟨start, value⟩, []⟩
  /-- With no bucket open, there is nothing to flush. -/
  flush_closed : r.bucket? = none → r.flush = ⟨r, none, []⟩
  /-- A sample of a later bucket closes the open one, which gives a sample; the new bucket has
  the value of that sample only.  Again there is no event. -/
  ingest_later : ∀ start ∈ r.bucket?, ∀ s, start < r.bucketOf s.timestamp →
    ∃ value, r.aggregator.result = .ok value
      ∧ r.ingest s = ⟨{ r with
          aggregator := (Aggregator.new r.kind).append s.value
          bucket? := some (r.bucketOf s.timestamp) }, some ⟨start, value⟩, []⟩
  /-- Any other sample closes nothing, and there is no event. -/
  ingest_early : ∀ s, (∀ start ∈ r.bucket?, r.bucketOf s.timestamp ≤ start) →
    (r.ingest s).sample? = none ∧ (r.ingest s).events = []

variable {r : Rule} {samples : List Sample}

theorem closes_of_isEmpty_eq_false
    (h : r.aggregator.isEmpty = false) (start : Timestamp) :
  ∃ value, r.aggregator.result = .ok value
    ∧ r.close start
      = ⟨{ r with aggregator := .new r.kind, bucket? := none }, some ⟨start, value⟩, []⟩
  := by
  obtain ⟨value, hvalue⟩ := Aggregator.exists_result_eq_ok h
  use value, hvalue
  rw [close, hvalue]
  rfl

/-- One step: if the open bucket of `r` has values and the aggregator is that of these, then `r` is
in order, so that no bucket is closed without a sample. -/
theorem inOrder_of_aggregator_eq
    (hopen : ∀ start ∈ r.bucket?, r.bucketOf start = start ∧ r.values samples start ≠ []
      ∧ r.aggregator = (r.values samples start).foldl Aggregator.append (.new r.kind))
    (hclosed : r.bucket? = none → r.aggregator = .new r.kind)
    (hcount : ∀ start, (r.values samples start).length < wordLimit) :
  r.InOrder samples
  := by
  have hfilled : ∀ start ∈ r.bucket?, r.aggregator.isEmpty = false := by
    intro start hstart
    obtain ⟨_, hne, heq⟩ := hopen start hstart
    rw [heq]
    apply Aggregator.isEmpty_foldl_append _ hne (hcount start)
  constructor
  · intro start hstart
    obtain ⟨haligned, hne, _⟩ := hopen start hstart
    use haligned, hne, hfilled start hstart
  · intro start hstart
    apply (hopen start hstart).2.2
  · apply hclosed
  · intro start hstart
    rw [Rule.flush, Option.mem_def.mp hstart]
    apply closes_of_isEmpty_eq_false (hfilled start hstart)
  · intro hnone
    rw [Rule.flush, hnone]
  · intro start hstart s hlater
    obtain ⟨value, hvalue, hclose⟩ := closes_of_isEmpty_eq_false (hfilled start hstart) start
    use value, hvalue
    rw [Rule.ingest, Option.mem_def.mp hstart]
    dsimp only
    rw [if_neg (Int64.not_lt.mpr (Int64.le_of_lt hlater)), if_neg (Int64.ne_of_lt hlater).symm,
      hclose]
    rfl
  · intro s hearly
    rw [Rule.ingest]
    cases hbucket : r.bucket? with
    | none => use rfl
    | some start =>
      dsimp only
      split
      · use rfl
      · rename_i hlate
        have hsame : r.bucketOf s.timestamp = start :=
          Int64.le_antisymm (hearly start hbucket) (Int64.not_lt.mp hlate)
        rw [if_pos hsame]
        use rfl

/-- If a fresh rule reaches `r` by `samples`, and a word counts the values of each bucket, `r` is in
order. -/
theorem Reaches.inOrder
    {fresh : Rule} (hfresh : fresh.Fresh) (h : fresh.Reaches samples r)
    (hcount : ∀ start, (r.values samples start).length < wordLimit) :
  r.InOrder samples
  := by
  apply inOrder_of_aggregator_eq _ _ hcount
  · intro start hstart
    cases h with
    | fresh =>
      rw [hfresh.bucket] at hstart
      cases hstart
    | @opened _ x hmem hlatest =>
      obtain rfl := Option.some.inj hstart
      have hbuckets : (fresh.opened samples (fresh.bucketOf x.timestamp)).bucketOf
          = fresh.bucketOf := rfl
      have hkind : (fresh.opened samples (fresh.bucketOf x.timestamp)).kind = fresh.kind :=
        Aggregator.kind_foldl_append _ _
      rw [values_congr hbuckets, hkind, hbuckets, ← hfresh.aggregator]
      use fresh.bucketOf_bucketOf x.timestamp
      use values_ne_nil (mem_accepted_of_latest hmem hlatest)
      rfl
  · intro hnone
    cases h with
    | fresh => apply hfresh.aggregator
    | opened => cases hnone

/-! ### Histories and fresh rules -/

theorem Reaches.destination_eq
    {fresh : Rule} (h : fresh.Reaches samples r) :
  r.destination = fresh.destination
  := by
  cases h <;> rfl

/-- If `r` comes from a new rule with `samples` since the last flush, it is what a `fresh` one is
after these. -/
theorem Comes.exists_fresh
    (h : r.Comes samples) :
  ∃ fresh : Rule, fresh.Fresh ∧ (Text.toUtf8 fresh.destination).length < wordLimit
    ∧ fresh.Reaches samples r
  := by
  induction h with
  | @new _ _ _ r hname hnew =>
    use r, fresh_of_new hnew
    rw [(parts_of_new hnew).1]
    use hname
    apply Reaches.fresh
  | ingest _ s ih =>
    obtain ⟨fresh, hfresh, hname, hreaches⟩ := ih
    use fresh, hfresh, hname, (hreaches.ingest hfresh s).1
  | flush _ ih =>
    obtain ⟨fresh, hfresh, hname, hreaches⟩ := ih
    use fresh, hfresh, hname
    rw [(hreaches.flush hfresh).1]
    apply Reaches.fresh
  | reload _ hload ih =>
    obtain ⟨fresh, hfresh, hname, hreaches⟩ := ih
    use fresh, hfresh, hname
    rw [← hreaches.destination_eq] at hname
    rw [((loads _ hname).eq_of_ok hload).1]
    apply hreaches

/-- If `r` has any history with `samples` since the last flush, and a word counts the values of each
bucket, it is in order. -/
theorem inOrder_of_comes
    (h : r.Comes samples) (hcount : ∀ start, (r.values samples start).length < wordLimit) :
  r.InOrder samples
  := by
  obtain ⟨fresh, hfresh, _, hreaches⟩ := h.exists_fresh
  apply hreaches.inOrder hfresh hcount

/-- A case of `inOrder_of_comes`: a rule that was flushed, took in a sample that is not a number,
and was reloaded then. -/
theorem inOrder_of_comes_reloaded :
  let hourly : Rule := ⟨"hourly", 3600, .new .average, none, by decide, by decide⟩
  let s : Sample := ⟨3700, ⟨0x7ff8000000000001⟩⟩
  let r := (hourly.flush.rule.ingest s).rule
  new "hourly" 3600 .average = .ok hourly ∧ load ⟨encodeFrames r.frames ++ [1]⟩ = .ok r ⟨[1]⟩
    ∧ r.bucket? = some 3600 ∧ r.InOrder [s]
  := by
  intro hourly s r
  have hname : (Text.toUtf8 "hourly").length < wordLimit := by
    show 6 < wordLimit
    decide
  have hnew : new "hourly" 3600 .average = .ok hourly := rfl
  have hload : load ⟨encodeFrames r.frames ++ [1]⟩ = .ok r ⟨[1]⟩ := r.loads hname [1]
  have hcomes : r.Comes [s] := ((Comes.new hname hnew).flush.ingest s).reload hload
  use hnew, hload, by decide
  apply inOrder_of_comes hcomes
  intro start
  apply Nat.lt_of_le_of_lt (length_values_le r [s] start)
  decide

end Rule

end TimeSeries
