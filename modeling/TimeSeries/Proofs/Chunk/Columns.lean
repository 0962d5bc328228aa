import Mathlib.Data.List.InsertIdx
import TimeSeries.Chunk.Plain
import TimeSeries.Proofs.Timeline

/-!
# Columns as timelines

Two columns are the samples of a timeline: `Columns.timeline` reads them off, and no two pairs of
columns have the same one.  The place `c.rank t` lies behind the samples of `c` before `t`.  So what
is done at this place in both columns, an insertion, a replacement or a removal, is done to the
timeline at the time `t`, and what is drained between two places is cut out between two times.
-/

namespace TimeSeries

/-- If `p` is a bound of timestamps, it holds for a sample of `l` whenever it holds for a later
one. -/
theorem Timeline.pairwise_bound
    (l : Timeline) {p : Timestamp → Bool} (hp : ∀ t u, t < u → p u = true → p t = true) :
  l.samples.Pairwise fun x y => p y.timestamp = true → p x.timestamp = true
  := by
  apply l.increasing.imp
  intro x y
  apply hp

namespace Columns

variable {c d : Columns} {t : Timestamp} {s : Sample}

/-! ### Reading -/

theorem length_samples
    (c : Columns) :
  c.samples.length = c.size
  := by
  rw [← List.length_map Sample.timestamp, map_timestamp_samples, Array.length_toList, size]

theorem length_timeline
    (c : Columns) :
  c.timeline.length = c.size
  := c.length_samples

/-- If the timestamps and the values of `c` are those of `samples`, these are read off `c`. -/
theorem samples_eq
    {samples : List Sample} (htimestamps : c.timestamps.toList = samples.map Sample.timestamp)
    (hvalues : c.values.toList = samples.map Sample.value) :
  c.samples = samples
  := by
  rw [Columns.samples, htimestamps, hvalues, List.zip_map', List.map_map]
  apply List.map_id''
  intro s
  rfl

/-- If the same samples are read off `c` and `d`, these are the same columns. -/
theorem eq_of_samples_eq
    (h : c.samples = d.samples) :
  c = d
  := by
  have htimestamps : c.timestamps = d.timestamps := by
    rw [← Array.toList_inj, ← map_timestamp_samples, ← map_timestamp_samples, h]
  have hvalues : c.values = d.values := by
    rw [← Array.toList_inj, ← map_value_samples, ← map_value_samples, h]
  obtain ⟨timestamps, values, _, _⟩ := c
  subst htimestamps hvalues
  rfl

theorem first?_eq
    (c : Columns) :
  c.first? = c.timeline.first?
  := by
  rw [first?, Timeline.first?, ← List.head?_map]
  show _ = (c.samples.map Sample.timestamp).head?
  rw [map_timestamp_samples, List.head?_eq_getElem?, Array.getElem?_toList]

theorem last?_eq
    (c : Columns) :
  c.last? = c.timeline.last?
  := by
  rw [last?, Timeline.last?, ← List.getLast?_map]
  show _ = (c.samples.map Sample.timestamp).getLast?
  rw [map_timestamp_samples, Array.getLast?_toList]

/-- At the place `i` of both columns is the sample at the place `i`. -/
theorem sampleAt?_eq
    (c : Columns) (i : Nat) :
  c.sampleAt? i = c.samples[i]?
  := by
  have htimestamp : c.timestamps[i]? = c.samples[i]?.map Sample.timestamp := by
    rw [← Array.getElem?_toList, ← map_timestamp_samples, List.getElem?_map]
  have hvalue : c.values[i]? = c.samples[i]?.map Sample.value := by
    rw [← Array.getElem?_toList, ← map_value_samples, List.getElem?_map]
  rw [sampleAt?, htimestamp, hvalue]
  cases c.samples[i]? with
  | none => rfl
  | some s => rfl

/-! ### Places -/

/-- A bound `p` holds for as many timestamps as samples, and these stand in front. -/
theorem pointOf_eq_countP
    {p : Timestamp → Bool} (hp : ∀ t u, t < u → p u = true → p t = true) :
  c.pointOf p = c.samples.countP (p ·.timestamp)
  := by
  rw [pointOf_eq hp, ← map_timestamp_samples, ← List.countP_eq_length_filter, List.countP_map]
  rfl

theorem take_pointOf
    {p : Timestamp → Bool} (hp : ∀ t u, t < u → p u = true → p t = true) :
  c.samples.take (c.pointOf p) = c.samples.filter (p ·.timestamp)
    ∧ c.samples.drop (c.pointOf p) = c.samples.filter (!p ·.timestamp)
  := by
  have hsplit : c.samples.filter (p ·.timestamp) ++ c.samples.filter (!p ·.timestamp)
      = c.samples := by
    apply filter_append_filter (c.timeline.pairwise_bound hp)
  rw [pointOf_eq_countP hp, List.countP_eq_length_filter]
  constructor
  · conv =>
      left
      right
      rw [← hsplit]
    apply List.take_left
  · conv =>
      left
      right
      rw [← hsplit]
    apply List.drop_left

/-- The place `c.rank t` lies behind the samples before `t`. -/
theorem rank_eq
    (c : Columns) (t : Timestamp) :
  c.rank t = (c.timeline.before t).length
  := by
  rw [rank, pointOf_eq_countP (lt_bound t), List.countP_eq_length_filter]
  rfl

/-- At the place of `t` is the sample at the time `t`. -/
theorem getElem?_place
    {i : Fin c.size} (h : c.place? t = some i) :
  c.samples[i.val]? = some ⟨t, c.value i⟩
  := by
  obtain ⟨_, htimestamp⟩ := of_place?_eq_some h
  have hvalue : c.values[i.val]? = some (c.value i) := by
    apply Array.getElem?_eq_getElem
  rw [← sampleAt?_eq, sampleAt?, htimestamp, hvalue]
  rfl

/-- If there is a place of `t`, the value there is the one at the time `t`. -/
theorem valueAt?_of_place?_eq_some
    {i : Fin c.size} (h : c.place? t = some i) :
  c.timeline.valueAt? t = some (c.value i)
  := by
  apply (c.timeline.valueAt?_eq_some_iff t _).mpr
  apply List.mem_of_getElem? (getElem?_place h)

/-- If there is no place of `t`, there is no sample at the time `t`. -/
theorem valueAt?_of_place?_eq_none
    (h : c.place? t = none) :
  c.timeline.valueAt? t = none
  := by
  apply (c.timeline.valueAt?_eq_none_iff t).mpr
  rintro x hx rfl
  apply not_mem_of_place?_eq_none h
  rw [← map_timestamp_samples]
  apply List.mem_map_of_mem hx

/-- Around the place `i` of `t` are the samples before `t` and those after `t`. -/
theorem samples_eq_of_place?
    {i : Fin c.size} (h : c.place? t = some i) :
  c.samples = c.timeline.before t ++ ⟨t, c.value i⟩ :: c.timeline.after t
    ∧ i.val = (c.timeline.before t).length
  := by
  obtain ⟨hi, _⟩ := of_place?_eq_some h
  have hsamples : c.samples = _ := c.timeline.samples_eq t
  rw [Timeline.at?, valueAt?_of_place?_eq_some h] at hsamples
  constructor
  · apply hsamples
  · rw [hi, rank_eq]

/-! ### Changes -/

theorem samples_push
    (h : ∀ last ∈ c.last?, last < s.timestamp) :
  (c.push s h).samples = c.samples ++ [s]
  := by
  apply samples_eq
  · rw [push, Array.toList_push, List.map_append, map_timestamp_samples]
    rfl
  · rw [push, Array.toList_push, List.map_append, map_value_samples]
    rfl

/-- An insertion at the place `c.rank s.timestamp` puts `s` at its time. -/
theorem timeline_insert
    (h : c.place? s.timestamp = none) :
  (c.insert s h).timeline = c.timeline.put s
  := by
  have hsplit : c.samples = c.timeline.before s.timestamp ++ c.timeline.after s.timestamp := by
    have hsamples : c.samples = _ := c.timeline.samples_eq s.timestamp
    rw [Timeline.at?, valueAt?_of_place?_eq_none h] at hsamples
    apply hsamples
  have hsamples : (c.insert s h).samples = c.samples.insertIdx (c.rank s.timestamp) s := by
    apply samples_eq
    · rw [insert, Array.toList_insertIdx, List.map_insertIdx, map_timestamp_samples]
    · rw [insert, Array.toList_insertIdx, List.map_insertIdx, map_value_samples]
  apply Timeline.eq_of_samples_eq
  show (c.insert s h).samples = _
  rw [hsamples, rank_eq]
  conv =>
    left
    arg 1
    rw [hsplit]
  apply insertIdx_append

/-- A value at the place of `t` is put at the time `t`. -/
theorem timeline_revalue
    {i : Fin c.size} (h : c.place? t = some i) (value : Binary64) :
  (c.revalue i value).timeline = c.timeline.put ⟨t, value⟩
  := by
  obtain ⟨hsplit, hi⟩ := samples_eq_of_place? h
  apply Timeline.eq_of_samples_eq
  apply samples_eq
  · show c.timestamps.toList = _
    rw [← map_timestamp_samples, hsplit, Timeline.samples_put, List.map_append, List.map_append]
    rfl
  · show (c.values.setIfInBounds i value).toList = _
    rw [Array.toList_setIfInBounds, ← map_value_samples, hsplit, hi, Timeline.samples_put,
      List.map_append, List.map_append, List.set_append_right _ _ (by simp)]
    simp

/-- What is taken out at the place of `t` is the sample at the time `t`. -/
theorem timeline_erase
    {i : Fin c.size} (h : c.place? t = some i) :
  (c.erase i).timeline = c.timeline.filter (· != t)
  := by
  obtain ⟨hsplit, hi⟩ := samples_eq_of_place? h
  have hbefore : (c.timeline.before t).filter (·.timestamp != t) = c.timeline.before t := by
    apply List.filter_eq_self.mpr
    intro x hx
    simpa using Int64.ne_of_lt (Timeline.lt_of_mem_before hx)
  have hafter : (c.timeline.after t).filter (·.timestamp != t) = c.timeline.after t := by
    apply List.filter_eq_self.mpr
    intro x hx
    simpa using (Int64.ne_of_lt (Timeline.lt_of_mem_after hx)).symm
  have hsamples : (c.erase i).samples = c.samples.eraseIdx i := by
    apply samples_eq
    · rw [erase, Array.toList_eraseIdxIfInBounds, ← List.eraseIdx_map, map_timestamp_samples]
    · rw [erase, Array.toList_eraseIdxIfInBounds, ← List.eraseIdx_map, map_value_samples]
  apply Timeline.eq_of_samples_eq
  show (c.erase i).samples = c.samples.filter (·.timestamp != t)
  rw [hsamples, hsplit, hi, List.eraseIdx_append_of_length_le (Nat.le_refl _), Nat.sub_self,
    List.filter_append, hbefore, List.filter_cons_of_neg (by simp), hafter]
  rfl

theorem samples_part
    (c : Columns) (low high : Nat) :
  (c.part low high).samples = (c.samples.drop low).take (high - low)
  := by
  apply samples_eq
  · rw [part, Array.toList_extract, List.extract_eq_take_drop, List.map_take, List.map_drop,
      map_timestamp_samples]
  · rw [part, Array.toList_extract, List.extract_eq_take_drop, List.map_take, List.map_drop,
      map_value_samples]

theorem samples_drain
    {low high : Nat} (h : low ≤ high) :
  (c.drain low high h).samples = c.samples.take low ++ c.samples.drop high
  := by
  apply samples_eq
  · rw [drain, toList_extract_append, List.map_append, List.map_take, List.map_drop,
      map_timestamp_samples]
  · rw [drain, toList_extract_append, List.map_append, List.map_take, List.map_drop,
      map_value_samples]

/-! ### Ranges -/

/-- The samples up to the end of `range` are those before it and those in it. -/
theorem countP_le_stop
    {range : TimeRange} (h : range.start ≤ range.stop) (samples : List Sample) :
  samples.countP (decide <| ·.timestamp ≤ range.stop)
    = samples.countP (decide <| ·.timestamp < range.start)
      + samples.countP (range.contains ·.timestamp)
  := by
  induction samples with
  | nil => rfl
  | cons x samples ih =>
    rw [List.countP_cons, List.countP_cons, List.countP_cons, ih]
    by_cases hbefore : x.timestamp < range.start
    · have hle : x.timestamp ≤ range.stop := Int64.le_of_lt (Int64.lt_of_lt_of_le hbefore h)
      have hout : range.contains x.timestamp = false := by
        simp [TimeRange.contains, Int64.not_le.mpr hbefore]
      rw [if_pos (decide_eq_true hle), if_pos (decide_eq_true hbefore), hout,
        if_neg Bool.false_ne_true]
      omega
    · have hin : range.contains x.timestamp = decide (x.timestamp ≤ range.stop) := by
        simp [TimeRange.contains, Int64.not_lt.mp hbefore]
      have hnot : ¬decide (x.timestamp < range.start) = true := hbefore ∘ of_decide_eq_true
      rw [if_neg hnot, hin]
      omega

/-- If something stands between the places of `range` in `c`, its ends are in order. -/
theorem start_le_stop
    {range : TimeRange} (h : c.rank range.start < c.rankBehind range.stop) :
  range.start ≤ range.stop
  := by
  apply Int64.not_lt.mp
  intro hlt
  rw [rank, rankBehind, pointOf_eq_countP (lt_bound _), pointOf_eq_countP (le_bound _)] at h
  apply Nat.not_lt_of_le _ h
  apply List.countP_mono_left
  intro x _ hx
  apply decide_eq_true
  apply Int64.lt_of_le_of_lt (of_decide_eq_true hx) hlt

/-- Between the places of `range` in `c` stand as many samples as there are in it. -/
theorem rankBehind_sub_rank
    (c : Columns) (range : TimeRange) :
  c.rankBehind range.stop - c.rank range.start
    = c.samples.countP (range.contains ·.timestamp)
  := by
  rw [rank, rankBehind, pointOf_eq_countP (lt_bound _), pointOf_eq_countP (le_bound _)]
  by_cases h : range.start ≤ range.stop
  · rw [countP_le_stop h]
    omega
  · have hnone : c.samples.countP (range.contains ·.timestamp) = 0 := by
      apply List.countP_eq_zero.mpr
      intro x _ hx
      obtain ⟨hstart, hstop⟩ := (range.contains_iff _).mp hx
      apply h (Int64.le_trans hstart hstop)
    have hle : c.samples.countP (decide <| ·.timestamp ≤ range.stop)
        ≤ c.samples.countP (decide <| ·.timestamp < range.start) := by
      apply List.countP_mono_left
      intro x _ hx
      apply decide_eq_true
      apply Int64.lt_of_le_of_lt (of_decide_eq_true hx) (Int64.not_le.mp h)
    omega

/-- If the samples between the places of `range` are drained, those of `c` that are not in `range`
are left. -/
theorem timeline_drain
    {range : TimeRange} (h : c.rank range.start < c.rankBehind range.stop) :
  (c.drain (c.rank range.start) (c.rankBehind range.stop) (Nat.le_of_lt h)).timeline
    = c.timeline.filter (!range.contains ·)
  := by
  have hends := start_le_stop h
  have hbefore : (c.samples.filter (!range.contains ·.timestamp)).filter
      (decide <| ·.timestamp < range.start)
        = c.samples.filter (decide <| ·.timestamp < range.start) := by
    rw [List.filter_filter]
    apply List.filter_congr
    intro x _
    by_cases hx : x.timestamp < range.start
    · simp [TimeRange.contains, hx, Int64.not_le.mpr hx]
    · simp [hx]
  have hbehind : (c.samples.filter (!range.contains ·.timestamp)).filter
      (fun x => !decide (x.timestamp < range.start))
        = c.samples.filter fun x => !decide (x.timestamp ≤ range.stop) := by
    rw [List.filter_filter]
    apply List.filter_congr
    intro x _
    by_cases hx : x.timestamp ≤ range.stop
    · simp [TimeRange.contains, hx]
    · have hstart : range.start ≤ x.timestamp :=
        Int64.le_of_lt (Int64.lt_of_le_of_lt hends (Int64.not_le.mp hx))
      simp [TimeRange.contains, hx, hstart]
  apply Timeline.eq_of_samples_eq
  show (c.drain _ _ _).samples = c.samples.filter (!range.contains ·.timestamp)
  rw [samples_drain, rank, rankBehind, (take_pointOf (lt_bound _)).1,
    (take_pointOf (le_bound _)).2, ← hbefore, ← hbehind]
  apply filter_append_filter
  apply (c.timeline.filter (!range.contains ·)).pairwise_bound (lt_bound range.start)

/-! ### Columns of a timeline -/

/-- The times and the values of the timeline `l`. -/
def ofTimeline (l : Timeline) : Columns where
  timestamps := (l.samples.map Sample.timestamp).toArray
  values := (l.samples.map Sample.value).toArray
  size_eq := by rw [List.size_toArray, List.size_toArray, List.length_map, List.length_map]
  increasing := List.pairwise_map.mpr l.increasing

theorem timeline_ofTimeline
    (l : Timeline) :
  (ofTimeline l).timeline = l
  := by
  apply Timeline.eq_of_samples_eq
  apply samples_eq
  · rfl
  · rfl

end Columns

/-! ### Plain chunks -/

namespace PlainChunk

variable (p : PlainChunk)

theorem length_samples :
  p.samples.length = p.length
  := p.columns.length_samples

theorem length_eq :
  p.length = p.timeline.length
  := p.columns.length_timeline.symm

theorem first?_eq :
  p.first? = p.timeline.first?
  := p.columns.first?_eq

theorem last?_eq :
  p.last? = p.timeline.last?
  := p.columns.last?_eq

theorem sampleAt?_eq
    (i : Nat) :
  p.sampleAt? i = p.samples[i]?
  := p.columns.sampleAt?_eq i

end PlainChunk

end TimeSeries
