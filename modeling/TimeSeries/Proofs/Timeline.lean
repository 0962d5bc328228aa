import Mathlib.Tactic.Common
import TimeSeries.Timeline
import TimeSeries.TimeRange

/-!
# Timelines as maps

A timeline maps each of its times to a value.  Around any time `t` it falls into the
samples before `t`, the one at `t` if there is one, and the samples after `t`.  From this
follows how the map changes when a sample is put, removed or added at the end.
-/

namespace TimeSeries

namespace Timeline

/-- If `l` and `l'` have the same samples, they are the same timeline. -/
theorem eq_of_samples_eq
    {l l' : Timeline} (h : l.samples = l'.samples) :
  l = l'
  := by
  cases l
  cases h
  rfl

/-! ### Three parts -/

/-- The sample of `l` at the time `t`, if there is one. -/
def at? (l : Timeline) (t : Timestamp) : Option Sample := (l.valueAt? t).map (⟨t, ·⟩)

/-- If all `samples` are after the time `t`, none of them is before it. -/
theorem filter_before_eq_nil
    {samples : List Sample} {t : Timestamp} (h : ∀ y ∈ samples, t < y.timestamp) :
  samples.filter (·.timestamp < t) = []
  := by
  apply List.filter_eq_nil_iff.mpr
  intro y hy
  simpa using Int64.lt_asymm (h y hy)

theorem filter_after_eq_self
    {samples : List Sample} {t : Timestamp} (h : ∀ y ∈ samples, t < y.timestamp) :
  samples.filter (t < ·.timestamp) = samples
  := by
  apply List.filter_eq_self.mpr
  intro y hy
  simpa using h y hy

/-- If all `samples` are after the time `t`, none of them is at it. -/
theorem find?_eq_none_of_after
    {samples : List Sample} {t : Timestamp} (h : ∀ y ∈ samples, t < y.timestamp) :
  samples.find? (·.timestamp == t) = none
  := by
  apply List.find?_eq_none.mpr
  intro y hy hat
  rw [beq_iff_eq] at hat
  apply Int64.lt_irrefl (hat ▸ h y hy)

/-- Around any time `t` a timeline `l` falls into three parts: the samples before `t`, the one at
`t` if there is one, and the samples after `t`. -/
theorem samples_eq
    (l : Timeline) (t : Timestamp) :
  l.samples = l.before t ++ ((l.at? t).toList ++ l.after t)
  := by
  obtain ⟨samples, increasing⟩ := l
  simp only [before, after, at?, valueAt?]
  induction samples with
  | nil => rfl
  | cons x samples ih =>
    obtain ⟨hfirst, hlater⟩ := List.pairwise_cons.mp increasing
    rw [List.filter_cons, List.filter_cons, List.find?_cons]
    by_cases hlt : x.timestamp < t
    · have hne : (x.timestamp == t) = false := beq_false_of_ne (Int64.ne_of_lt hlt)
      simp only [hlt, Int64.lt_asymm hlt, hne, decide_true, decide_false, if_true, if_false,
        Bool.false_eq_true, List.cons_append]
      rw [← ih hlater]
    · by_cases heq : x.timestamp = t
      · subst heq
        simp [filter_before_eq_nil hfirst, filter_after_eq_self hfirst, Int64.lt_irrefl]
      · have hgt : t < x.timestamp :=
          Int64.lt_of_le_of_ne (Int64.not_lt.mp hlt) (Ne.symm heq)
        have hafter (y : Sample) (hy : y ∈ samples) : t < y.timestamp :=
          Int64.lt_trans hgt (hfirst y hy)
        simp [filter_before_eq_nil hafter, filter_after_eq_self hafter,
          find?_eq_none_of_after hafter, hlt, hgt, beq_false_of_ne heq]

theorem lt_of_mem_before
    {l : Timeline} {t : Timestamp} {x : Sample} (h : x ∈ l.before t) :
  x.timestamp < t
  := of_decide_eq_true (List.mem_filter.mp h).2

theorem lt_of_mem_after
    {l : Timeline} {t : Timestamp} {x : Sample} (h : x ∈ l.after t) :
  t < x.timestamp
  := of_decide_eq_true (List.mem_filter.mp h).2

theorem not_mem_before
    (l : Timeline) (t : Timestamp) (v : Binary64) :
  ⟨t, v⟩ ∉ l.before t
  := by
  intro h
  apply Int64.lt_irrefl (a := t)
  apply lt_of_mem_before h

theorem not_mem_after
    (l : Timeline) (t : Timestamp) (v : Binary64) :
  ⟨t, v⟩ ∉ l.after t
  := by
  intro h
  apply Int64.lt_irrefl (a := t)
  apply lt_of_mem_after h

/-- In front of `l` are the samples before the time `t`, and behind them the one at `t`, if there is
one, and those after it. -/
theorem span_eq
    (l : Timeline) (t : Timestamp) :
  l.samples.takeWhile (·.timestamp < t) = l.before t
    ∧ l.samples.dropWhile (·.timestamp < t) = (l.at? t).toList ++ l.after t
  := by
  have hbefore (x : Sample) (hx : x ∈ l.before t) : decide (x.timestamp < t) = true :=
    decide_eq_true (lt_of_mem_before hx)
  have hrest (x : Sample) (hx : x ∈ (l.at? t).toList ++ l.after t) :
      decide (x.timestamp < t) = false := by
    apply decide_eq_false
    rcases List.mem_append.mp hx with hx | hx
    · obtain ⟨v, _, rfl⟩ := Option.map_eq_some_iff.mp (Option.mem_toList.mp hx)
      apply Int64.lt_irrefl
    · apply Int64.lt_asymm (lt_of_mem_after hx)
  rw [l.samples_eq t, List.takeWhile_append_of_pos hbefore, List.dropWhile_append_of_pos hbefore]
  cases hlist : (l.at? t).toList ++ l.after t with
  | nil => simp
  | cons x rest =>
    have hx := hrest x (by simp [hlist])
    simp [hx]

/-! ### Ends -/

/-- If `l` has a sample `x`, it has a first time, and `x` is not before it. -/
theorem exists_first_le
    {l : Timeline} {x : Sample} (hx : x ∈ l.samples) :
  ∃ first, l.first? = some first ∧ first ≤ x.timestamp
  := by
  obtain ⟨samples, increasing⟩ := l
  cases samples with
  | nil => cases hx
  | cons y samples =>
    use y.timestamp, rfl
    rcases List.mem_cons.mp hx with rfl | hx
    · apply Int64.le_refl
    · apply Int64.le_of_lt ((List.pairwise_cons.mp increasing).1 x hx)

/-- If `l` has a sample `x`, it has a last time, and `x` is not after it. -/
theorem exists_le_last
    {l : Timeline} {x : Sample} (hx : x ∈ l.samples) :
  ∃ last, l.last? = some last ∧ x.timestamp ≤ last
  := by
  cases hlast : l.last? with
  | none =>
    rw [last?, Option.map_eq_none_iff, List.getLast?_eq_none_iff] at hlast
    rw [hlast] at hx
    cases hx
  | some last => use last, rfl, le_last hlast hx

/-! ### Lookups -/

/-- The value of `l` at the time `t` is `v` exactly when `l` has the sample of this time and
value. -/
theorem valueAt?_eq_some_iff
    (l : Timeline) (t : Timestamp) (v : Binary64) :
  l.valueAt? t = some v ↔ ⟨t, v⟩ ∈ l.samples
  := by
  rw [l.samples_eq t, List.mem_append, List.mem_append, at?, Option.mem_toList]
  constructor
  · intro h
    right
    left
    rw [h]
    rfl
  · rintro (h | h | h)
    · cases not_mem_before l t v h
    · obtain ⟨w, hw, heq⟩ := Option.map_eq_some_iff.mp h
      rwa [← (Sample.mk.inj heq).2]
    · cases not_mem_after l t v h

theorem valueAt?_eq_none_iff
    (l : Timeline) (t : Timestamp) :
  l.valueAt? t = none ↔ ∀ x ∈ l.samples, x.timestamp ≠ t
  := by
  simp [valueAt?]

/-- There is a value of `l` at the time `t` when some sample of `l` has this time. -/
theorem any_eq_isSome
    (l : Timeline) (t : Timestamp) :
  l.samples.any (·.timestamp == t) = (l.valueAt? t).isSome
  := by
  rw [valueAt?, Option.isSome_map, List.isSome_find?]

theorem samples_put
    (l : Timeline) (s : Sample) :
  (l.put s).samples = l.before s.timestamp ++ s :: l.after s.timestamp
  := rfl

/-- If `l` has the value `v` at the time `t`, it does not change when this sample is put in it. -/
theorem put_eq_self
    (l : Timeline) {t : Timestamp} {v : Binary64} (h : l.valueAt? t = some v) :
  l.put ⟨t, v⟩ = l
  := by
  have hsamples := l.samples_eq t
  rw [at?, h] at hsamples
  apply eq_of_samples_eq hsamples.symm

/-- If `s` is put in `l`, it is found at its time, and at any other time `t` all is as before. -/
theorem valueAt?_put
    (l : Timeline) (s : Sample) (t : Timestamp) :
  (l.put s).valueAt? t = if t = s.timestamp then some s.value else l.valueAt? t
  := by
  have hmem (u : Timestamp) (v : Binary64) : (⟨u, v⟩ : Sample) ∈ (l.put s).samples
      ↔ (⟨u, v⟩ : Sample) ∈ l.before s.timestamp ∨ ⟨u, v⟩ = s
        ∨ (⟨u, v⟩ : Sample) ∈ l.after s.timestamp := by
    rw [samples_put, List.mem_append, List.mem_cons]
  apply Option.ext
  intro v
  rw [valueAt?_eq_some_iff, hmem]
  by_cases ht : t = s.timestamp
  · subst ht
    rw [if_pos rfl, Option.some_inj]
    constructor
    · rintro (h | h | h)
      · cases not_mem_before l s.timestamp v h
      · rw [← h]
      · cases not_mem_after l s.timestamp v h
    · rintro rfl
      right
      left
      rfl
  · rw [if_neg ht, valueAt?_eq_some_iff]
    constructor
    · rintro (h | h | h)
      · apply (List.mem_filter.mp h).1
      · cases ht (by rw [← h])
      · apply (List.mem_filter.mp h).1
    · intro h
      by_cases hlt : t < s.timestamp
      · left
        apply List.mem_filter.mpr ⟨h, decide_eq_true hlt⟩
      · right
        right
        have hgt : s.timestamp < t := Int64.lt_of_le_of_ne (Int64.not_lt.mp hlt) (Ne.symm ht)
        apply List.mem_filter.mpr ⟨h, decide_eq_true hgt⟩

/-- If `l` keeps the times of which `keep` holds, nothing is found at the others, and at these all
is as before. -/
theorem valueAt?_filter
    (l : Timeline) (keep : Timestamp → Bool) (t : Timestamp) :
  (l.filter keep).valueAt? t = if keep t then l.valueAt? t else none
  := by
  apply Option.ext
  intro v
  rw [valueAt?_eq_some_iff, filter, List.mem_filter]
  cases hkeep : keep t with
  | true => simp [valueAt?_eq_some_iff]
  | false => simp

/-- If `l` has no sample at a time of which `drop` holds, it does not change when these times are
dropped. -/
theorem filter_eq_self_of_countP
    (l : Timeline) {drop : Timestamp → Bool} (h : l.samples.countP (drop ·.timestamp) = 0) :
  l.filter (!drop ·) = l
  := by
  apply eq_of_samples_eq
  apply List.filter_eq_self.mpr
  intro x hx
  have hdrop := List.countP_eq_zero.mp h x hx
  simpa using hdrop

/-- If the times of `samples` increase and go on to do so with `s` behind them, `s` is after the
last one. -/
theorem last_lt_of_increasing
    {samples : List Sample} {s : Sample}
    (h : (samples ++ [s]).Pairwise fun a b => a.timestamp < b.timestamp) :
  ∀ last ∈ samples.getLast?.map Sample.timestamp, last < s.timestamp
  := by
  intro last hlast
  obtain ⟨x, hx, rfl⟩ := Option.map_eq_some_iff.mp hlast
  apply (List.pairwise_append.mp h).2.2 x (List.mem_of_getLast? hx) s
  apply List.mem_singleton_self

/-- All of the first `n` samples of `l` are before all of the others. -/
theorem last_take_lt_first_drop
    (l : Timeline) (n : Nat) :
  ∀ last ∈ (l.take n).last?, ∀ first ∈ (l.drop n).first?, last < first
  := by
  intro last hlast first hfirst
  obtain ⟨x, hx, rfl⟩ := Option.map_eq_some_iff.mp hlast
  obtain ⟨y, hy, rfl⟩ := Option.map_eq_some_iff.mp hfirst
  have hincreasing := l.increasing
  rw [← List.take_append_drop n l.samples] at hincreasing
  apply (List.pairwise_append.mp hincreasing).2.2
  · apply List.mem_of_getLast? hx
  · apply List.mem_of_head? hy

/-- If `t` is after the last time of `l`, it is after every sample `x` of `l`. -/
theorem lt_of_last_lt
    {l : Timeline} {t : Timestamp} (h : ∀ last ∈ l.last?, last < t) {x : Sample}
    (hx : x ∈ l.samples) :
  x.timestamp < t
  := by
  obtain ⟨last, hlast, hle⟩ := exists_le_last hx
  apply Int64.lt_of_le_of_lt hle (h last hlast)

/-- If `t` is after the last time of `l`, there is no sample of `l` at `t`. -/
theorem valueAt?_eq_none_of_last_lt
    {l : Timeline} {t : Timestamp} (h : ∀ last ∈ l.last?, last < t) :
  l.valueAt? t = none
  := by
  apply (l.valueAt?_eq_none_iff t).mpr
  intro x hx
  apply Int64.ne_of_lt (lt_of_last_lt h hx)

theorem samples_push
    (l : Timeline) (s : Sample) (h : ∀ last ∈ l.last?, last < s.timestamp) :
  (l.push s h).samples = l.samples ++ [s]
  := rfl

/-- If `s` is after the last time of `l`, it may as well be put in `l` as pushed behind it. -/
theorem push_eq_put
    (l : Timeline) (s : Sample) (h : ∀ last ∈ l.last?, last < s.timestamp) :
  l.push s h = l.put s
  := by
  have hnone := valueAt?_eq_none_of_last_lt h
  have hafter : l.after s.timestamp = [] := by
    apply List.filter_eq_nil_iff.mpr
    intro x hx
    simpa using Int64.lt_asymm (lt_of_last_lt h hx)
  have hsamples := l.samples_eq s.timestamp
  rw [at?, hnone, hafter] at hsamples
  apply eq_of_samples_eq
  rw [samples_put, samples_push, hafter, hsamples]
  simp

end Timeline

end TimeSeries
