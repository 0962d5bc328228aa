import TimeSeries.Proofs.Chunk.Change
import TimeSeries.Proofs.Chunk.Columns
import TimeSeries.Proofs.Chunk.Ends

/-!
# What is done to plain chunks

A plain chunk is its timeline in slots: two chunks with the same timeline, slots and base are one
(`PlainChunk.eq_of_timeline_eq`).  `p.put s` and `p.filter keep` are the chunks whose timelines are
`p.timeline.put s` and `p.timeline.filter keep`.  What `upsert`, `delete`, `deleteRange` and `split`
do in the columns at places is stated by them at times.
-/

namespace TimeSeries

namespace PlainChunk

variable {p : PlainChunk}

/-- The answer of a chunk `p` to an addition when all its slots are taken. -/
inductive Declines (p : PlainChunk) : Change → ChunkError → Prop where
  | full {s : Sample} (h : p.length = p.slots) : Declines p (.add s) (.full p.capacity)

/-! ### Timelines -/

/-- If `p` and `q` have one timeline and the same slots, they are one chunk.  Their bases have to be
compared only if there are no samples. -/
theorem eq_of_timeline_eq
    {q : PlainChunk} (htimeline : p.timeline = q.timeline) (hslots : p.slots = q.slots)
    (hfallback : p.timeline.first? = none → p.base = q.base) :
  p = q
  := by
  have hcolumns : p.columns = q.columns :=
    Columns.eq_of_samples_eq (congrArg Timeline.samples htimeline)
  have hbase : p.base = q.base := by
    cases hfirst : p.timeline.first? with
    | none => apply hfallback hfirst
    | some first =>
      have hp : p.columns.first? = some first := by rw [Columns.first?_eq, ← hfirst, timeline]
      have hq : q.columns.first? = some first := by rw [← hcolumns, hp]
      rw [p.base_eq first hp, q.base_eq first hq]
  obtain ⟨columns, slots, base, _, _⟩ := p
  obtain ⟨columns', slots', base', _, _⟩ := q
  dsimp only at hcolumns hslots hbase
  subst hcolumns hslots hbase
  rfl

/-- The chunk with the samples of `timeline`, whose base is `fallback` if there are none. -/
def ofTimeline (timeline : Timeline) (slots : Nat) (fallback : Timestamp)
    (h : timeline.length ≤ slots) : PlainChunk :=
  rebased (.ofTimeline timeline) slots fallback (by
    rw [← Columns.length_timeline, Columns.timeline_ofTimeline]
    exact h)

theorem timeline_ofTimeline
    {l : Timeline} {slots : Nat} (fallback : Timestamp) (h : l.length ≤ slots) :
  (ofTimeline l slots fallback h).timeline = l
  := Columns.timeline_ofTimeline l

/-- A chunk of `columns` is one of their timeline. -/
theorem rebased_eq
    {columns : Columns} {l : Timeline} {slots : Nat} (fallback : Timestamp)
    (hsize : columns.size ≤ slots) (hlength : l.length ≤ slots) (h : columns.timeline = l) :
  rebased columns slots fallback hsize = ofTimeline l slots fallback hlength
  := by
  have htimeline : (rebased columns slots fallback hsize).timeline
      = (ofTimeline l slots fallback hlength).timeline := by
    rw [timeline_ofTimeline]
    apply h
  apply eq_of_timeline_eq htimeline rfl
  intro hnone
  have hfirst : columns.first? = none := by
    rw [columns.first?_eq]
    apply hnone
  have hfirst' : (Columns.ofTimeline l).first? = none := by
    rw [Columns.first?_eq, Columns.timeline_ofTimeline, ← h, ← columns.first?_eq, hfirst]
  rw [ofTimeline, rebased, rebased]
  dsimp only
  rw [hfirst, hfirst']

/-- A chunk `p` is the one of its own columns, slots and base. -/
theorem rebased_self
    (p : PlainChunk) :
  rebased p.columns p.slots p.base p.length_le = p
  := by
  apply eq_of_timeline_eq
  · rfl
  · rfl
  · intro hnone
    have hfirst : p.columns.first? = none := by
      rw [p.columns.first?_eq]
      apply hnone
    rw [rebased]
    dsimp only
    rw [hfirst, Option.getD_none]

/-- Puts `s` at its time, in place of the sample that may be there.  A full chunk gets one more slot
if the time is a new one. -/
def put (c : PlainChunk) (s : Sample) : PlainChunk :=
  let timeline := c.timeline.put s
  ofTimeline timeline (max c.slots timeline.length) c.base (Nat.le_max_right _ _)

/-- Keeps the samples at the times of which `keep` holds. -/
def filter (c : PlainChunk) (keep : Timestamp → Bool) : PlainChunk :=
  ofTimeline (c.timeline.filter keep) c.slots c.base (by
    apply Nat.le_trans (c.timeline.length_filter_le keep)
    rw [← c.length_eq]
    apply c.length_le)

theorem timeline_put
    (p : PlainChunk) (s : Sample) :
  (p.put s).timeline = p.timeline.put s
  := timeline_ofTimeline p.base (Nat.le_max_right _ _)

theorem timeline_filter
    (p : PlainChunk) (keep : Timestamp → Bool) :
  (p.filter keep).timeline = p.timeline.filter keep
  := timeline_ofTimeline _ _

/-! ### Places and times -/

/-- If `d` holds the samples of `p` with `s` put among them, it is `p.put s`, provided that it has a
slot for each of them and makes none that it does not need. -/
theorem eq_put
    {d : PlainChunk} {s : Sample} (htimeline : d.timeline = p.timeline.put s)
    (hslots : d.slots = max p.slots d.length) :
  d = p.put s
  := by
  rw [d.length_eq, htimeline] at hslots
  apply eq_of_timeline_eq
  · rw [htimeline, timeline_put]
  · apply hslots
  · intro hnone
    rw [htimeline, Timeline.first?, Timeline.samples_put, Option.map_eq_none_iff,
      List.head?_eq_none_iff] at hnone
    simp at hnone

/-- What `upsert` does at the place of a sample, it does at its time. -/
theorem upsert_eq
    (p : PlainChunk) (s : Sample) (policy : DuplicatePolicy) :
  p.upsert s policy =
    match p.timeline.valueAt? s.timestamp with
    | none => .done (p.put s) 1
    | some existing =>
      match policy.resolve? existing s.value with
      | some value =>
        (Step.done (p.put ⟨s.timestamp, value⟩) 0).preceded [.once (.resolution policy true)]
      | none =>
        (Step.fail p (.duplicate s.timestamp existing s.value)).preceded
          [.once (.resolution policy false)]
  := by
  have hle := p.length_le
  rw [upsert]
  split
  · rename_i hplace
    have hnone : p.timeline.valueAt? s.timestamp = none :=
      Columns.valueAt?_of_place?_eq_none hplace
    have hlength : (p.insert s hplace).length = p.length + 1 := p.columns.size_insert hplace
    have htimeline : (p.insert s hplace).timeline = p.timeline.put s :=
      Columns.timeline_insert hplace
    have hslots : (p.insert s hplace).slots = max p.slots (p.insert s hplace).length := by
      rw [hlength, insert]
      dsimp only
      rw [length] at *
      split <;> omega
    rw [hnone, eq_put htimeline hslots]
  · rename_i i hplace
    have hvalue : p.timeline.valueAt? s.timestamp = some (p.columns.value i) :=
      Columns.valueAt?_of_place?_eq_some hplace
    have hput (value : Binary64) : p.revalue i value = p.put ⟨s.timestamp, value⟩ := by
      have htimeline : (p.revalue i value).timeline = p.timeline.put ⟨s.timestamp, value⟩ :=
        Columns.timeline_revalue hplace value
      apply eq_put htimeline
      apply (Nat.max_eq_left hle).symm
    rw [hvalue]
    dsimp only
    cases policy.resolve? (p.columns.value i) s.value with
    | some value =>
      dsimp only
      rw [hput]
    | none => rfl

/-- What `delete` takes out at a place, it takes out at a time. -/
theorem delete_eq
    (p : PlainChunk) (t : Timestamp) :
  p.delete t =
    match p.timeline.valueAt? t with
    | some _ => .done (p.filter (· != t)) ()
    | none => .fail p (.notFound t)
  := by
  rw [delete]
  split
  · rename_i i hplace
    have hvalue : p.timeline.valueAt? t = some (p.columns.value i) :=
      Columns.valueAt?_of_place?_eq_some hplace
    have hrest (h : (p.columns.erase i).size ≤ p.slots) :
        rebased (p.columns.erase i) p.slots p.base h = p.filter (· != t) := by
      apply rebased_eq
      apply Columns.timeline_erase hplace
    rw [hvalue]
    dsimp only
    rw [hrest]
  · rename_i hplace
    have hnone : p.timeline.valueAt? t = none := Columns.valueAt?_of_place?_eq_none hplace
    rw [hnone]

/-- What `deleteRange` drains between two places are the samples between two times. -/
theorem deleteRange_eq
    (p : PlainChunk) (range : TimeRange) :
  p.deleteRange range = .done (p.filter (!range.contains ·))
    (p.samples.countP (range.contains ·.timestamp))
  := by
  have hcount : p.columns.rankBehind range.stop - p.columns.rank range.start
      = p.samples.countP (range.contains ·.timestamp) := p.columns.rankBehind_sub_rank range
  rw [deleteRange, ← hcount]
  split
  · rename_i hlt
    dsimp only
    congr 1
    apply rebased_eq
    apply Columns.timeline_drain hlt
  · have hzero : p.columns.rankBehind range.stop - p.columns.rank range.start = 0 := by omega
    have htimeline : p.timeline = p.timeline.filter (!range.contains ·) := by
      symm
      apply p.timeline.filter_eq_self_of_countP
      apply hcount.symm.trans hzero
    have hself : rebased p.columns p.slots p.base p.length_le = p.filter (!range.contains ·) := by
      apply rebased_eq
      apply htimeline
    rw [hzero, ← hself, rebased_self]

/-- A chunk with exactly the slots that the samples of `l` need. -/
def part (c : PlainChunk) (l : Timeline) : PlainChunk :=
  ofTimeline l l.length c.base (Nat.le_refl _)

theorem split_eq
    (p : PlainChunk) (h : p.length ≠ 0) :
  p.split = .ok (.done (p.part (p.timeline.take (p.length - p.length / 2)))
    (p.part (p.timeline.drop (p.length - p.length / 2))))
  := by
  have hpart {low high : Nat} {l : Timeline}
      (hsamples : (p.samples.drop low).take (high - low) = l.samples) :
      rebased (p.columns.part low high) (p.columns.part low high).size p.base (Nat.le_refl _)
        = p.part l := by
    have htimeline : (p.columns.part low high).timeline = l := by
      apply Timeline.eq_of_samples_eq
      rw [← hsamples]
      apply Columns.samples_part
    have hsize : (p.columns.part low high).size = l.length := by
      rw [← htimeline, Columns.length_timeline]
    rw [part, ← rebased_eq p.base (Nat.le_of_eq hsize) (Nat.le_refl _) htimeline]
    simp only [hsize]
  rw [split, if_neg h]
  dsimp only
  rw [hpart (l := p.timeline.take (p.length - p.length / 2)) rfl,
    hpart (l := p.timeline.drop (p.length - p.length / 2)) _]
  apply List.take_of_length_le
  apply Nat.le_of_eq
  rw [List.length_drop, length_samples]

/-! ### Appending -/

/-- If `p` has a free slot and `s` is after its samples, an append puts `s` behind them. -/
theorem append_eq_ok
    {s : Sample} (hroom : p.length < p.slots)
    (hlast : ∀ last ∈ p.timeline.last?, last < s.timestamp) :
  ∃ d, p.append s = .ok d ∧ d.timeline = p.timeline.push s hlast ∧ d.slots = p.slots
  := by
  have hlast' : ∀ last ∈ p.columns.last?, last < s.timestamp := by
    rw [p.columns.last?_eq]
    exact hlast
  use p.push s hroom hlast'
  constructor
  · rw [append, dif_pos hroom]
    split
    · rfl
    · rename_i last hsome
      rw [dif_pos (hlast' last hsome)]
  · constructor
    · apply Timeline.eq_of_samples_eq
      apply Columns.samples_push hlast'
    · rfl

/-- If all slots of `p` are taken, an append says so, whatever the sample `s` is. -/
theorem append_of_full
    (s : Sample) (h : p.length = p.slots) :
  p.append s = .error (.full p.capacity)
  := dif_neg (Nat.not_lt_of_le (Nat.le_of_eq h.symm))

/-- If `p` has a free slot and `s` is not after its last sample, an append refuses `s`. -/
theorem append_of_late
    {s : Sample} {last : Timestamp} (hroom : p.length < p.slots)
    (hlast : p.timeline.last? = some last) (hle : s.timestamp ≤ last) :
  p.append s = .error (.outOfOrder s.timestamp last)
  := by
  rw [← p.last?_eq, last?] at hlast
  rw [append, dif_pos hroom]
  split
  · rename_i hnone
    rw [hnone] at hlast
    cases hlast
  · rename_i last' hsome
    obtain rfl := Option.some.inj (hsome.symm.trans hlast)
    rw [dif_neg (Int64.not_lt.mpr hle)]

theorem append_cases
    (p : PlainChunk) (s : Sample) :
  (p.length < p.slots ∧ ∀ last ∈ p.timeline.last?, last < s.timestamp)
    ∨ ∃ e, p.append s = .error e ∧ (Change.add s).Fails p.Declines p.timeline e
  := by
  by_cases hroom : p.length < p.slots
  · by_cases hlast : ∀ last ∈ p.timeline.last?, last < s.timestamp
    · left
      use hroom, hlast
    · right
      push Not at hlast
      obtain ⟨last, hsome, hle⟩ := hlast
      use .outOfOrder s.timestamp last, append_of_late hroom hsome (Int64.not_lt.mp hle)
      apply Change.Fails.outOfOrder hsome (Int64.not_lt.mp hle)
  · right
    have hfull : p.length = p.slots := Nat.le_antisymm p.length_le (Nat.le_of_not_lt hroom)
    use .full p.capacity, append_of_full s hfull
    apply Change.Fails.declined
    apply Declines.full hfull

/-- An addition of `s` puts it behind the samples of `p`, or fails and leaves `p`. -/
theorem add_ends
    (p : PlainChunk) (s : Sample) :
  (p.add s).Ends (fun _ d => (Change.add s).Acts p.timeline 1 d.timeline)
    fun e d => d = p ∧ (Change.add s).Fails p.Declines p.timeline e
  := by
  rw [add]
  rcases p.append_cases s with ⟨hroom, hlast⟩ | ⟨e, happend, hfails⟩
  · obtain ⟨d, happend, htimeline, _⟩ := append_eq_ok hroom hlast
    rw [happend]
    apply Step.ends_done
    rw [htimeline, Timeline.push_eq_put]
    apply Change.Acts.add hlast
  · rw [happend]
    apply Step.ends_fail
    use rfl, hfails

/-- If `p` has a free slot for each of `samples`, and these follow its own in order, they take these
slots. -/
theorem appendAll_eq_ok
    {samples : List Sample} (hroom : p.length + samples.length ≤ p.slots)
    (hincreasing : (p.samples ++ samples).Pairwise fun a b => a.timestamp < b.timestamp) :
  ∃ d, p.appendAll samples = .ok d ∧ d.samples = p.samples ++ samples ∧ d.slots = p.slots
  := by
  induction samples generalizing p with
  | nil =>
    use p, rfl
    simp
  | cons s samples ih =>
    rw [← List.singleton_append, ← List.append_assoc] at hincreasing
    have hlast : ∀ last ∈ p.timeline.last?, last < s.timestamp :=
      Timeline.last_lt_of_increasing (List.pairwise_append.mp hincreasing).1
    rw [List.length_cons] at hroom
    obtain ⟨next, happend, htimeline, hslots⟩ := append_eq_ok (by omega) hlast
    have hsamples : next.samples = p.samples ++ [s] := congrArg Timeline.samples htimeline
    have hlength : next.length = p.length + 1 := by
      rw [← length_samples, ← length_samples, hsamples, List.length_append]
      rfl
    rw [← hsamples] at hincreasing
    obtain ⟨d, hd, hsamples', hslots'⟩ := ih (by omega) hincreasing
    use d
    constructor
    · rw [appendAll, List.foldlM_cons, happend]
      apply hd
    · rw [hsamples', hslots', hsamples, hslots, List.append_assoc]
      use rfl

/-! ### Changes -/

/-- An insertion of `s` puts it at its time in `p`, or leaves `p` where `policy` refuses it. -/
theorem upsert_ends
    (p : PlainChunk) (s : Sample) (policy : DuplicatePolicy) (position : ChunkPosition) :
  (p.upsert s policy).Ends
    (fun added d => (Change.upsert s policy position).Acts p.timeline added d.timeline)
    fun e d => d = p ∧ (Change.upsert s policy position).Fails p.Declines p.timeline e
  := by
  rw [upsert_eq]
  cases hvalue : p.timeline.valueAt? s.timestamp with
  | none =>
    apply Step.ends_done
    rw [timeline_put]
    apply Change.Acts.insert hvalue
  | some existing =>
    dsimp only
    cases hresolve : policy.resolve? existing s.value with
    | none =>
      apply Step.Ends.preceded
      apply Step.ends_fail
      use rfl
      apply Change.Fails.duplicate hvalue hresolve
    | some value =>
      apply Step.Ends.preceded
      apply Step.ends_done
      rw [timeline_put]
      apply Change.Acts.resolve hvalue hresolve

/-- A removal leaves `p` without the sample at the time `t`, or leaves `p` where there is none. -/
theorem delete_ends
    (p : PlainChunk) (t : Timestamp) (position : ChunkPosition) :
  (p.delete t).Ends (fun _ d => (Change.delete t position).Acts p.timeline 1 d.timeline)
    fun e d => d = p ∧ (Change.delete t position).Fails p.Declines p.timeline e
  := by
  rw [delete_eq]
  cases hvalue : p.timeline.valueAt? t with
  | none =>
    apply Step.ends_fail
    use rfl
    apply Change.Fails.notFound hvalue
  | some value =>
    apply Step.ends_done
    rw [timeline_filter]
    apply Change.Acts.delete hvalue

/-- A removal of `range` leaves `p` without the samples in it, and does not fail. -/
theorem deleteRange_ends
    (p : PlainChunk) (range : TimeRange) (position : ChunkPosition) :
  (p.deleteRange range).Ends
    (fun n d => (Change.deleteRange range position).Acts p.timeline n d.timeline)
    fun _ _ => False
  := by
  rw [deleteRange_eq]
  apply Step.ends_done
  rw [timeline_filter]
  apply Change.Acts.deleteRange

end PlainChunk

end TimeSeries
