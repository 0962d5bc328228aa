import TimeSeries.Proofs.Downsampling.Invariant
import TimeSeries.Proofs.Snapshot.Spelling

/-!
# Rules that were loaded

A rule is loaded from its frames as they are: nothing is said about an open bucket that starts
where no bucket starts, about one that nothing was taken into, or about values that are left over
with no bucket open.  So a loaded rule need not be one that samples and flushes lead to.

What is wrong with it does not last.  Up to the first bucket that is closed the rule goes on from
what was loaded; from then on it is what a new rule is after the same arrivals, and what it gives
out comes from the samples of the bucket that it is labelled with, and from no others.
-/

namespace TimeSeries

namespace Rule

/-! ### Arrivals -/

/-- What a rule is given. -/
inductive Arrival where
  | sample (s : Sample)
  | flush
deriving DecidableEq

/-- The samples among `arrivals`. -/
def samplesOf (arrivals : List Arrival) : List Sample :=
  arrivals.filterMap fun
    | .sample s => some s
    | .flush => none

/-- The samples of `arrivals` that come after the last flush. -/
def sinceFlush (arrivals : List Arrival) : List Sample :=
  arrivals.foldl (fun samples a =>
    match a with
    | .sample s => samples ++ [s]
    | .flush => []) []

/-- What `r` makes of an arrival. -/
def take (r : Rule) : Arrival → Emission
  | .sample s => r.ingest s
  | .flush => r.flush

/-- The rule `r` after `arrivals`. -/
def run (r : Rule) (arrivals : List Arrival) : Rule :=
  arrivals.foldl (fun r a => (r.take a).rule) r

/-- The arrival closes the open bucket of `r`. -/
def Closes (r : Rule) : Arrival → Prop
  | .sample s => ∃ start ∈ r.bucket?, start < r.bucketOf s.timestamp
  | .flush => r.bucket? ≠ none

/-- One of `arrivals` closes a bucket of `r`. -/
def HasClosed (r : Rule) (arrivals : List Arrival) : Prop :=
  ∃ earlier a later, arrivals = earlier ++ a :: later ∧ (r.run earlier).Closes a

/-- The new rule with the same destination, width and kind as `r`. -/
def blank (r : Rule) : Rule := { r with aggregator := .new r.kind, bucket? := none }

/-- If `r` has an open bucket, it starts where a bucket starts and has values; with no bucket open,
nothing is taken in. -/
structure Settled (r : Rule) : Prop where
  opened : ∀ start ∈ r.bucket?, r.bucketOf start = start ∧ r.aggregator.isEmpty = false
  closed : r.bucket? = none → r.aggregator = .new r.kind

/-- The bucket of `r` that is open after `arrivals` that close none. -/
def carriedStart? (r : Rule) (arrivals : List Arrival) : Option Timestamp :=
  r.bucket?.or ((samplesOf arrivals).head?.map (r.bucketOf ·.timestamp))

/-- The values of the bucket at `start` among `arrivals` that close none. -/
def carriedValues (r : Rule) (arrivals : List Arrival) (start : Timestamp) : List Binary64 :=
  ((samplesOf arrivals).filter (r.bucketOf ·.timestamp = start)).map Sample.value

/-- How a rule goes on, with `a` after the `earlier` arrivals. -/
structure Resumes (r : Rule) (earlier : List Arrival) (a : Arrival) : Prop where
  /-- As long as no bucket is closed, nothing is given out. -/
  silent : ¬(r.run earlier).Closes a → ((r.run earlier).take a).sample? = none
  /-- The first bucket that is closed is the one that was open, or that of the first sample.
  Its values are taken in after what the rule began with. -/
  carried : ¬r.HasClosed earlier → (r.run earlier).Closes a →
    ∃ start ∈ r.carriedStart? earlier, ((r.run earlier).take a).sample?
      = match ((r.carriedValues earlier start).foldl Aggregator.append r.aggregator).result with
        | .ok value => some ⟨start, value⟩
        | .error _ => none
  /-- From then on the rule is what a new one is. -/
  forgets : r.HasClosed earlier → r.run earlier = r.blank.run earlier
  /-- A sample that is given out then, or by a fresh rule, comes from the samples of its bucket
  since the last flush. -/
  own : r.HasClosed earlier ∨ r.Fresh → ∀ x ∈ ((r.run earlier).take a).sample?,
    (∃ s ∈ r.accepted (sinceFlush earlier), r.bucketOf s.timestamp = x.timestamp)
      ∧ aggregate r.kind (r.values (sinceFlush earlier) x.timestamp) = .ok x.value
  /-- A settled rule labels all that it gives out with the starts of buckets. -/
  labels : r.Settled → ∀ x ∈ ((r.run earlier).take a).sample?, r.bucketOf x.timestamp = x.timestamp

variable {r now copy : Rule} {earlier arrivals : List Arrival} {a : Arrival}

theorem run_concat
    (r : Rule) (arrivals : List Arrival) (a : Arrival) :
  r.run (arrivals ++ [a]) = ((r.run arrivals).take a).rule
  := by
  rw [run, List.foldl_append]
  rfl

theorem samplesOf_concat
    (arrivals : List Arrival) (a : Arrival) :
  samplesOf (arrivals ++ [a]) = samplesOf arrivals ++ samplesOf [a]
  := List.filterMap_append

theorem sinceFlush_concat
    (arrivals : List Arrival) (a : Arrival) :
  sinceFlush (arrivals ++ [a])
    = match a with
      | .sample s => sinceFlush arrivals ++ [s]
      | .flush => []
  := by
  rw [sinceFlush, List.foldl_append]
  rfl

theorem hasClosed_concat_iff :
  r.HasClosed (arrivals ++ [a]) ↔ r.HasClosed arrivals ∨ (r.run arrivals).Closes a
  := by
  constructor
  · rintro ⟨earlier, b, later, heq, hcloses⟩
    rcases List.eq_nil_or_concat' later with rfl | ⟨later, c, rfl⟩
    · obtain ⟨rfl, hb⟩ := List.append_inj' heq rfl
      obtain rfl := List.singleton_inj.mp hb
      right
      apply hcloses
    · have hsplit : arrivals ++ [a] = (earlier ++ b :: later) ++ [c] := by
        rw [heq, List.append_assoc, List.cons_append]
      left
      use earlier, b, later, (List.append_inj' hsplit rfl).1
  · rintro (⟨earlier, b, later, rfl, hcloses⟩ | hcloses)
    · use earlier, b, later ++ [a], by simp
    · use arrivals, a, [], rfl

theorem not_hasClosed_nil :
  ¬r.HasClosed []
  := by
  rintro ⟨earlier, b, later, heq, _⟩
  cases earlier <;> cases heq

/-! ### One arrival -/

theorem close_rule
    (r : Rule) (start : Timestamp) :
  (r.close start).rule = r.blank
  := by
  rw [close]
  cases r.aggregator.result <;> rfl

theorem close_sample?
    (r : Rule) (start : Timestamp) :
  (r.close start).sample?
    = match r.aggregator.result with
      | .ok value => some ⟨start, value⟩
      | .error _ => none
  := by
  rw [close]
  cases r.aggregator.result <;> rfl

theorem blank_accept
    (r : Rule) (start : Timestamp) (s : Sample) :
  (r.accept start s).blank = r.blank
  := by
  rw [blank, blank, accept, kind, Aggregator.kind_append]
  rfl

theorem blank_blank
    (r : Rule) :
  r.blank.blank = r.blank
  := by
  rw [blank, kind, blank, Aggregator.kind_new]

theorem bucketOf_eq_of_blank_eq
    (h : copy.blank = now.blank) :
  copy.bucketOf = now.bucketOf
  := by
  have hwidth : copy.blank.width = now.blank.width := by rw [h]
  have hwidth : copy.width = now.width := hwidth
  funext t
  rw [bucketOf, bucketOf, hwidth]

theorem take_of_closes
    (h : r.Closes a) :
  ∃ start ∈ r.bucket?, (r.take a).sample? = (r.close start).sample?
    ∧ (r.take a).rule = (r.blank.take a).rule
  := by
  cases a with
  | flush =>
    obtain ⟨start, hstart⟩ := Option.ne_none_iff_exists'.mp h
    use start, hstart
    rw [take, take, flush, hstart]
    use rfl
    rw [close_rule]
    rfl
  | sample s =>
    obtain ⟨start, hstart, hlater⟩ := h
    use start, hstart
    have hingest : r.ingest s = { r.close start with
        rule := (r.close start).rule.accept (r.bucketOf s.timestamp) s } := by
      rw [ingest, Option.mem_def.mp hstart]
      dsimp only
      rw [if_neg (Int64.not_lt.mpr (Int64.le_of_lt hlater)), if_neg (Int64.ne_of_lt hlater).symm]
    rw [take, take, hingest]
    use rfl
    rw [close_rule]
    rfl

/-- If `a` closes no bucket of `r`, it is passed over or accepted. -/
theorem take_of_not_closes
    (h : ¬r.Closes a) :
  (a = .flush ∧ r.bucket? = none ∧ r.take a = ⟨r, none, []⟩)
    ∨ ∃ s, a = .sample s
      ∧ ((∃ start ∈ r.bucket?, r.bucketOf s.timestamp < start ∧ r.take a = ⟨r, none, []⟩)
        ∨ (∀ start ∈ r.bucket?, start = r.bucketOf s.timestamp)
          ∧ r.take a = ⟨r.accept (r.bucketOf s.timestamp) s, none, []⟩)
  := by
  cases a with
  | flush =>
    have hnone : r.bucket? = none := not_not.mp h
    left
    use rfl, hnone
    rw [take, flush, hnone]
  | sample s =>
    right
    use s, rfl
    rw [take, ingest]
    cases hbucket : r.bucket? with
    | none =>
      right
      use fun start hstart => by cases hstart
    | some start =>
      have hle : r.bucketOf s.timestamp ≤ start := by
        apply Int64.not_lt.mp
        intro hlater
        apply h
        use start, hbucket
      dsimp only
      rcases Int64.lt_or_eq_of_le hle with hearly | hsame
      · left
        use start, rfl, hearly
        rw [if_pos hearly]
      · right
        rw [hsame, if_neg Int64.lt_irrefl, if_pos rfl]
        use fun current hcurrent => (Option.some.inj hcurrent).symm

theorem blank_take
    (r : Rule) (a : Arrival) :
  (r.take a).rule.blank = r.blank
  := by
  by_cases hcloses : r.Closes a
  · obtain ⟨_, _, _, hrule⟩ := take_of_closes hcloses
    rw [hrule]
    cases a with
    | flush => apply blank_blank
    | sample s =>
      show (r.blank.accept _ s).blank = r.blank
      rw [blank_accept, blank_blank]
  · rcases take_of_not_closes hcloses with ⟨_, _, htake⟩ | ⟨s, _, ⟨_, _, _, htake⟩ | ⟨_, htake⟩⟩
    · rw [htake]
    · rw [htake]
    · rw [htake]
      apply blank_accept

/-- After the sample `s` a bucket is open: the one that was, or that of `s`. -/
theorem exists_mem_bucket?_ingest
    (r : Rule) (s : Sample) :
  ∃ start ∈ (r.ingest s).rule.bucket?, start ∈ r.bucket? ∨ start = r.bucketOf s.timestamp
  := by
  by_cases hcloses : r.Closes (.sample s)
  · obtain ⟨_, _, _, hrule⟩ := take_of_closes hcloses
    rw [take] at hrule
    rw [hrule]
    exact ⟨_, rfl, .inr rfl⟩
  · obtain ⟨h, _⟩ | ⟨_, h, ⟨start, hstart, _, htake⟩ | ⟨_, htake⟩⟩ := take_of_not_closes hcloses
    · cases h
    · rw [take] at htake
      rw [htake]
      exact ⟨start, hstart, .inl hstart⟩
    · cases h
      rw [take] at htake
      rw [htake]
      exact ⟨_, rfl, .inr rfl⟩

/-! ### A new rule beside a loaded one -/

/-- The rule `copy` began as a new one and got the arrivals that `now` got, none of which closed
a bucket of `now`. -/
structure Trails (copy now : Rule) : Prop where
  blank_eq : copy.blank = now.blank
  eq_blank : copy.bucket? = none → copy = now.blank
  le : ∀ start ∈ copy.bucket?, ∃ current ∈ now.bucket?, start ≤ current

/-- If `copy` trails `now` and `a` closes a bucket of `now`, there is no difference any more. -/
theorem Trails.take_of_closes
    (h : copy.Trails now) (hcloses : now.Closes a) :
  (copy.take a).rule = (now.take a).rule
  := by
  obtain ⟨current, hcurrent, _, hrule⟩ := Rule.take_of_closes hcloses
  rw [hrule]
  by_cases hopen : copy.bucket? = none
  · rw [h.eq_blank hopen]
  · rw [← h.blank_eq]
    have hcopy : copy.Closes a := by
      cases a with
      | flush => apply hopen
      | sample s =>
        obtain ⟨start, hstart⟩ := Option.ne_none_iff_exists'.mp hopen
        obtain ⟨current, hcurrent, hle⟩ := h.le start hstart
        obtain ⟨_, hcurrent', hlater⟩ := hcloses
        obtain rfl := Option.mem_unique hcurrent hcurrent'
        use start, hstart
        rw [bucketOf_eq_of_blank_eq h.blank_eq]
        apply Int64.lt_of_le_of_lt hle hlater
    obtain ⟨_, _, _, hrule⟩ := Rule.take_of_closes hcopy
    rw [hrule]

/-- If `copy` trails `now` and `a` closes no bucket of `now`, then `copy` still trails: the bucket
that it has open is not a later one. -/
theorem Trails.take_of_not_closes
    (h : copy.Trails now) (hcloses : ¬now.Closes a) :
  (copy.take a).rule.Trails (now.take a).rule
  := by
  have hblank : (copy.take a).rule.blank = (now.take a).rule.blank := by
    rw [blank_take, blank_take, h.blank_eq]
  rcases Rule.take_of_not_closes hcloses with ⟨rfl, hnone, htake⟩ | ⟨s, rfl, hsample⟩
  · have hcopy : copy.bucket? = none := by
      apply Option.eq_none_iff_forall_not_mem.mpr
      intro start hstart
      obtain ⟨current, hcurrent, _⟩ := h.le start hstart
      rw [hnone] at hcurrent
      cases hcurrent
    have hflush : copy.take .flush = ⟨copy, none, []⟩ := by rw [take, flush, hcopy]
    rw [htake, hflush]
    apply h
  · obtain ⟨start, hstart, horigin⟩ := copy.exists_mem_bucket?_ingest s
    rw [bucketOf_eq_of_blank_eq h.blank_eq] at horigin
    constructor
    · apply hblank
    · intro hnone
      rw [take, Option.mem_def.mp hstart] at hnone
      cases hnone
    · intro start' hstart'
      obtain rfl := Option.mem_unique hstart hstart'
      rcases hsample with ⟨current, hcurrent, hearly, htake⟩ | ⟨hbucket, htake⟩
      · rw [htake]
        rcases horigin with horigin | rfl
        · apply h.le _ horigin
        · use current, hcurrent, Int64.le_of_lt hearly
      · rw [htake]
        use now.bucketOf s.timestamp, rfl
        rcases horigin with horigin | rfl
        · obtain ⟨current, hcurrent, hle⟩ := h.le _ horigin
          rwa [hbucket current hcurrent] at hle
        · apply Int64.le_refl

theorem trails_or_eq
    (r : Rule) (arrivals : List Arrival) :
  (¬r.HasClosed arrivals → (r.blank.run arrivals).Trails (r.run arrivals))
    ∧ (r.HasClosed arrivals → r.run arrivals = r.blank.run arrivals)
  := by
  induction arrivals using List.reverseRecOn with
  | nil =>
    constructor
    · intro _
      constructor
      · apply blank_blank
      · intro _
        rfl
      · rintro _ ⟨⟩
    · intro hclosed
      exfalso
      apply not_hasClosed_nil hclosed
  | append_singleton arrivals a ih =>
    obtain ⟨htrails, heq⟩ := ih
    rw [hasClosed_concat_iff, run_concat, run_concat]
    constructor
    · intro hopen
      rw [not_or] at hopen
      apply (htrails hopen.1).take_of_not_closes hopen.2
    · rintro (hclosed | hcloses)
      · rw [heq hclosed]
      · by_cases hclosed : r.HasClosed arrivals
        · rw [heq hclosed]
        · rw [(htrails hclosed).take_of_closes hcloses]

/-! ### The bucket that is carried over -/

/-- The rule `r` that has taken in the values of the carried bucket. -/
def carry (r : Rule) (arrivals : List Arrival) : Rule :=
  match r.carriedStart? arrivals with
  | none => r
  | some start =>
    { r with
      aggregator := (r.carriedValues arrivals start).foldl Aggregator.append r.aggregator
      bucket? := some start }

theorem carry_of_some
    {start : Timestamp} (h : r.carriedStart? arrivals = some start) :
  r.carry arrivals = { r with
    aggregator := (r.carriedValues arrivals start).foldl Aggregator.append r.aggregator
    bucket? := some start }
  := by
  rw [carry, h]

theorem carry_of_none
    (h : r.carriedStart? arrivals = none) :
  r.carry arrivals = r
  := by
  rw [carry, h]

theorem carry_bucket?
    (r : Rule) (arrivals : List Arrival) :
  (r.carry arrivals).bucket? = r.carriedStart? arrivals
  := by
  cases hstart : r.carriedStart? arrivals with
  | none =>
    rw [carry_of_none hstart]
    rw [carriedStart?] at hstart
    apply (Option.or_eq_none_iff.mp hstart).1
  | some start => rw [carry_of_some hstart]

theorem carry_concat_flush
    (r : Rule) (arrivals : List Arrival) :
  r.carry (arrivals ++ [.flush]) = r.carry arrivals
  := by
  have hflush : samplesOf [.flush] = [] := rfl
  have hsamples : samplesOf (arrivals ++ [.flush]) = samplesOf arrivals := by
    rw [samplesOf_concat, hflush, List.append_nil]
  have hstart : r.carriedStart? (arrivals ++ [.flush]) = r.carriedStart? arrivals := by
    rw [carriedStart?, carriedStart?, hsamples]
  have hvalues : r.carriedValues (arrivals ++ [.flush]) = r.carriedValues arrivals := by
    funext start
    rw [carriedValues, carriedValues, hsamples]
  rw [carry, carry, hstart, hvalues]

theorem carriedStart?_concat
    (r : Rule) (arrivals : List Arrival) (s : Sample) :
  r.carriedStart? (arrivals ++ [.sample s])
    = (r.carriedStart? arrivals).or (some (r.bucketOf s.timestamp))
  := by
  have hsamples : samplesOf (arrivals ++ [.sample s]) = samplesOf arrivals ++ [s] :=
    samplesOf_concat arrivals (.sample s)
  rw [carriedStart?, carriedStart?, hsamples]
  cases samplesOf arrivals with
  | nil =>
    rw [List.nil_append, List.head?_nil, Option.map_none, Option.or_none, List.head?_cons,
      Option.map_some]
  | cons first samples =>
    rw [List.cons_append, List.head?_cons, List.head?_cons, Option.map_some, Option.or_assoc,
      Option.some_or]

theorem carriedValues_concat
    (r : Rule) (arrivals : List Arrival) (s : Sample) (start : Timestamp) :
  r.carriedValues (arrivals ++ [.sample s]) start
    = r.carriedValues arrivals start ++ if r.bucketOf s.timestamp = start then [s.value] else []
  := by
  have hsamples : samplesOf (arrivals ++ [.sample s]) = samplesOf arrivals ++ [s] :=
    samplesOf_concat arrivals (.sample s)
  rw [carriedValues, carriedValues, hsamples, List.filter_append, List.map_append]
  split
  · rename_i hsame
    simp [hsame]
  · rename_i hother
    simp [hother]

theorem carriedValues_eq_nil
    (h : r.carriedStart? arrivals = none) (start : Timestamp) :
  r.carriedValues arrivals start = []
  := by
  rw [carriedStart?] at h
  have hfirst := (Option.or_eq_none_iff.mp h).2
  rw [Option.map_eq_none_iff, List.head?_eq_none_iff] at hfirst
  rw [carriedValues, hfirst]
  rfl

theorem blank_run
    (r : Rule) (arrivals : List Arrival) :
  (r.run arrivals).blank = r.blank
  := by
  induction arrivals using List.reverseRecOn with
  | nil => rfl
  | append_singleton arrivals a ih => rw [run_concat, blank_take, ih]

/-- If no bucket is closed by `arrivals`, the rule goes on from what it began with. -/
theorem run_eq_carry
    (h : ¬r.HasClosed arrivals) :
  r.run arrivals = r.carry arrivals
  := by
  induction arrivals using List.reverseRecOn with
  | nil =>
    cases hstart : r.carriedStart? [] with
    | none => rw [carry_of_none hstart]; rfl
    | some start =>
      have hbucket : r.bucket? = some start := by
        rwa [carriedStart?, samplesOf, List.filterMap_nil, List.head?_nil, Option.map_none,
          Option.or_none] at hstart
      rw [carry_of_some hstart, ← hbucket]
      rfl
  | append_singleton arrivals a ih =>
    rw [hasClosed_concat_iff, not_or] at h
    obtain ⟨hearlier, hcloses⟩ := h
    have ih := ih hearlier
    have hbuckets := bucketOf_eq_of_blank_eq (r.blank_run arrivals)
    have hcarry := r.carry_bucket? arrivals
    rw [← ih] at hcarry
    rw [run_concat]
    obtain ⟨rfl, _, htake⟩ | ⟨s, rfl, ⟨start, hstart, hearly, htake⟩ | ⟨hbucket, htake⟩⟩ :=
      take_of_not_closes hcloses
    · rw [htake, carry_concat_flush]
      apply ih
    · rw [hcarry] at hstart
      rw [hbuckets] at hearly
      have hconcat := r.carriedStart?_concat arrivals s
      rw [Option.mem_def.mp hstart] at hconcat
      rw [htake, carry_of_some hconcat, carriedValues_concat, if_neg (Int64.ne_of_lt hearly),
        List.append_nil, ← carry_of_some hstart]
      apply ih
    · rw [hcarry, hbuckets] at hbucket
      rw [htake, hbuckets]
      have hconcat := r.carriedStart?_concat arrivals s
      cases hstart : r.carriedStart? arrivals with
      | none =>
        rw [hstart] at hconcat
        rw [carry_of_some hconcat, carriedValues_concat, carriedValues_eq_nil hstart, if_pos rfl,
          ih, carry_of_none hstart]
        rfl
      | some start =>
        obtain rfl := hbucket start hstart
        rw [hstart] at hconcat
        rw [carry_of_some hconcat, carriedValues_concat, if_pos rfl, ih, carry_of_some hstart,
          List.foldl_append]
        rfl

/-! ### Fresh rules -/

theorem fresh_blank
    (r : Rule) :
  r.blank.Fresh
  := by
  constructor
  · show Aggregator.new r.kind = .new (Aggregator.new r.kind).kind
    rw [Aggregator.kind_new]
  · rfl

theorem reaches_run
    (hfresh : r.Fresh) (arrivals : List Arrival) :
  r.Reaches (sinceFlush arrivals) (r.run arrivals)
  := by
  induction arrivals using List.reverseRecOn with
  | nil => apply Reaches.fresh
  | append_singleton arrivals a ih =>
    rw [run_concat, sinceFlush_concat]
    cases a with
    | sample s => apply (ih.ingest hfresh s).1
    | flush =>
      rw [take, (ih.flush hfresh).1]
      apply Reaches.fresh

/-- If `r` is fresh, what it gives out at `a` is made of the samples of its bucket since the last
flush. -/
theorem Fresh.batch_eq
    (hfresh : r.Fresh) (earlier : List Arrival) (a : Arrival) {x : Sample}
    (hx : x ∈ ((r.run earlier).take a).sample?) :
  r.batch (sinceFlush earlier) x.timestamp = some x
  := by
  have hreaches := reaches_run hfresh earlier
  have hfound : ∃ start, r.batch (sinceFlush earlier) start = some x := by
    cases a with
    | sample s =>
      have hanswers := (hreaches.ingest hfresh s).2
      rw [take] at hx
      rw [Option.mem_def.mp hx] at hanswers
      generalize hanswer : some x = answer at hanswers
      cases hanswers with
      | late => cases hanswer
      | «open» => cases hanswer
      | closes => exact ⟨_, rfl⟩
    | flush =>
      rw [take] at hx
      obtain ⟨_, ⟨_, hnone⟩ | ⟨y, _, _, hsample⟩⟩ := hreaches.flush hfresh
      · rw [hnone] at hx
        cases hx
      · rw [hsample] at hx
        use r.bucketOf y.timestamp, hx
  obtain ⟨start, hstart⟩ := hfound
  rwa [(batch_eq_some_iff.mp hstart).1] at hstart

/-! ### Loading -/

theorem own_of_fresh
    (hfresh : r.Fresh) (earlier : List Arrival) (a : Arrival) {x : Sample}
    (hx : x ∈ ((r.run earlier).take a).sample?) :
  (∃ s ∈ r.accepted (sinceFlush earlier), r.bucketOf s.timestamp = x.timestamp)
    ∧ aggregate r.kind (r.values (sinceFlush earlier) x.timestamp) = .ok x.value
  := by
  have haggregate := (batch_eq_some_iff.mp (hfresh.batch_eq earlier a hx)).2
  use exists_mem_accepted_of_aggregate_eq_ok haggregate, haggregate

theorem own_of_hasClosed
    (hclosed : r.HasClosed earlier) (a : Arrival) {x : Sample}
    (hx : x ∈ ((r.run earlier).take a).sample?) :
  (∃ s ∈ r.accepted (sinceFlush earlier), r.bucketOf s.timestamp = x.timestamp)
    ∧ aggregate r.kind (r.values (sinceFlush earlier) x.timestamp) = .ok x.value
  := by
  have hbuckets : r.blank.bucketOf = r.bucketOf := bucketOf_eq_of_blank_eq r.blank_blank
  have hkind : r.blank.kind = r.kind := Aggregator.kind_new r.kind
  rw [(r.trails_or_eq earlier).2 hclosed] at hx
  have hown := own_of_fresh r.fresh_blank earlier a hx
  rwa [accepted, acceptedAfter_congr hbuckets, values_congr hbuckets, hbuckets, hkind] at hown

theorem carried_of_closes
    (hopen : ¬r.HasClosed earlier) (hcloses : (r.run earlier).Closes a) :
  ∃ start ∈ r.carriedStart? earlier, ((r.run earlier).take a).sample?
    = match ((r.carriedValues earlier start).foldl Aggregator.append r.aggregator).result with
      | .ok value => some ⟨start, value⟩
      | .error _ => none
  := by
  obtain ⟨start, hstart, hsample, _⟩ := take_of_closes hcloses
  rw [run_eq_carry hopen, carry_bucket?] at hstart
  use start, hstart
  rw [hsample, close_sample?, run_eq_carry hopen, carry_of_some hstart]

theorem sample?_of_not_closes
    (h : ¬r.Closes a) :
  (r.take a).sample? = none
  := by
  obtain ⟨_, _, htake⟩ | ⟨_, _, ⟨_, _, _, htake⟩ | ⟨_, htake⟩⟩ := take_of_not_closes h
  · rw [htake]
  · rw [htake]
  · rw [htake]

/-- If `r` is settled, the bucket that it carries over starts where a bucket starts. -/
theorem Settled.bucketOf_carriedStart
    (h : r.Settled) {start : Timestamp} (hstart : start ∈ r.carriedStart? earlier) :
  r.bucketOf start = start
  := by
  rcases Option.or_eq_some_iff.mp hstart with hopen | ⟨_, hfirst⟩
  · apply (h.opened start hopen).1
  · obtain ⟨s, _, rfl⟩ := Option.map_eq_some_iff.mp hfirst
    apply bucketOf_bucketOf

/-- One arrival `a`, whatever came before in `earlier`. -/
theorem resumes
    (r : Rule) (earlier : List Arrival) (a : Arrival) :
  r.Resumes earlier a
  where
  silent := sample?_of_not_closes
  carried := carried_of_closes
  forgets := (r.trails_or_eq earlier).2
  own := by
    rintro (hclosed | hfresh) x hx
    · apply own_of_hasClosed hclosed a hx
    · apply own_of_fresh hfresh earlier a hx
  labels hsettled x hx := by
    by_cases hclosed : r.HasClosed earlier
    · obtain ⟨⟨s, _, hbucket⟩, _⟩ := own_of_hasClosed hclosed a hx
      rw [← hbucket]
      apply bucketOf_bucketOf
    · by_cases hcloses : (r.run earlier).Closes a
      · obtain ⟨start, hstart, hsample⟩ := carried_of_closes hclosed hcloses
        rw [hsample] at hx
        split at hx
        · cases hx
          apply hsettled.bucketOf_carriedStart hstart
        · cases hx
      · rw [sample?_of_not_closes hcloses] at hx
        cases hx

/-- The frames from which `r` is loaded are those that it is saved as, for any rule with a
destination whose name a word measures; and what was loaded is carried over into one bucket at
most. -/
theorem load_eq_ok_iff_and_resumes
    (r : Rule) (cursor later : Cursor) :
  (load cursor = .ok r later
      ↔ (Text.toUtf8 r.destination).length < wordLimit
        ∧ cursor.unread = encodeFrames r.frames ++ later.unread)
    ∧ new r.destination r.width r.kind = .ok r.blank
    ∧ ∀ earlier a, r.Resumes earlier a
  := by
  have hnew : new r.destination r.width r.kind = .ok r.blank := dif_pos ⟨r.width_pos, r.width_lt⟩
  constructor
  · constructor
    · intro hload
      obtain ⟨frames, hfits, hunread, rfl⟩ := spells_load cursor later r hload
      use hfits _ List.mem_cons_self
    · rintro ⟨hname, hunread⟩
      obtain ⟨unread⟩ := cursor
      obtain rfl := hunread
      apply r.loads hname
  · use hnew, r.resumes

/-- Why `Settled` is asked for: a bucket that is open from a timestamp where none starts is loaded,
and its sum is given out with a label that is the start of no bucket. -/
theorem load_skewed :
  let five : Binary64 := ⟨0x4014000000000000⟩
  let frames : List Frame :=
    [.bytes [100], .unsigned 10, .unsigned 2, .double five, .bytes [0], .unsigned 1, .signed 7]
  let skewed : Rule := ⟨"d", 10, .single .sum five false, some 7, by decide, by decide⟩
  (∃ cursor, Cursor.ofSealed (sealFrames frames) = .ok cursor ∧ load cursor = .ok skewed ⟨[]⟩)
    ∧ ¬skewed.Settled ∧ skewed.flush.sample? = some ⟨7, five⟩ ∧ ∀ t, skewed.bucketOf t ≠ 7
  := by
  intro five frames skewed
  have hframes : frames = skewed.frames := rfl
  have hname : (Text.toUtf8 skewed.destination).length < wordLimit := by
    show 1 < wordLimit
    decide
  have hseven : skewed.bucketOf 7 ≠ 7 := by decide
  constructor
  · use ⟨encodeFrames frames⟩
    use ofSealed_sealBytes _
    have hload := skewed.loads hname []
    rwa [List.append_nil] at hload
  · constructor
    · intro hsettled
      apply hseven
      apply (hsettled.opened 7 rfl).1
    · use rfl
      intro t ht
      have hstart := skewed.bucketOf_bucketOf t
      rw [ht] at hstart
      apply hseven hstart

end Rule

end TimeSeries
