import TimeSeries.Sample

/-!
# Timelines

A timeline is a list of samples whose timestamps strictly increase, and so has at
most one sample at each time.  `valueAt?` looks a time up; `put`, `filter`, `take`
and `drop` give other timelines.
-/

namespace TimeSeries

/-- A timeline: samples in the order of their times, and at most one at each time. -/
structure Timeline where
  samples : List Sample
  increasing : samples.Pairwise fun a b => a.timestamp < b.timestamp
deriving DecidableEq

namespace Timeline

/-- The timeline without samples. -/
def empty : Timeline := ⟨[], List.Pairwise.nil⟩

/-- The number of samples of `l`. -/
def length (l : Timeline) : Nat := l.samples.length

/-- The timestamp of the first sample of `l`, if there is one. -/
def first? (l : Timeline) : Option Timestamp := l.samples.head?.map Sample.timestamp

/-- The timestamp of the last sample of `l`, if there is one. -/
def last? (l : Timeline) : Option Timestamp := l.samples.getLast?.map Sample.timestamp

/-- The value of `l` at the time `t`, if there is a sample at this time. -/
def valueAt? (l : Timeline) (t : Timestamp) : Option Binary64 :=
  (l.samples.find? (·.timestamp == t)).map Sample.value

/-- No sample `s` of a timeline is after `last`, if this is the last timestamp. -/
theorem le_last
    {l : Timeline} {last : Timestamp} (h : l.last? = some last) {s : Sample}
    (hs : s ∈ l.samples) :
  s.timestamp ≤ last
  := by
  obtain ⟨samples, increasing⟩ := l
  simp only [last?, Option.map_eq_some_iff] at h
  obtain ⟨x, hx, rfl⟩ := h
  obtain ⟨init, hinit⟩ := List.getLast?_eq_some_iff.mp hx
  subst hinit
  rcases List.mem_append.mp hs with hs | hs
  · exact Int64.le_of_lt ((List.pairwise_append.mp increasing).2.2 s hs x (by simp))
  · rw [List.mem_singleton.mp hs]
    exact Int64.le_refl _

/-- Adds `s` behind the samples of `l`, all of which are before it. -/
def push (l : Timeline) (s : Sample) (h : ∀ last ∈ l.last?, last < s.timestamp) : Timeline where
  samples := l.samples ++ [s]
  increasing := by
    refine List.pairwise_append.mpr ⟨l.increasing, List.pairwise_singleton _ _, ?_⟩
    intro x hx y hy
    rw [List.mem_singleton.mp hy]
    cases hlast : l.last? with
    | none =>
      simp only [last?, Option.map_eq_none_iff, List.getLast?_eq_none_iff] at hlast
      simp [hlast] at hx
    | some last => exact Int64.lt_of_le_of_lt (le_last hlast hx) (h last hlast)

/-- The samples of `l` before the time `t`, in their order. -/
def before (l : Timeline) (t : Timestamp) : List Sample :=
  l.samples.filter (·.timestamp < t)

/-- The samples of `l` after the time `t`, in their order. -/
def after (l : Timeline) (t : Timestamp) : List Sample :=
  l.samples.filter (t < ·.timestamp)

/-- Puts `s` in `l` at its time, in place of the sample that may be there. -/
def put (l : Timeline) (s : Sample) : Timeline where
  samples := l.before s.timestamp ++ s :: l.after s.timestamp
  increasing := by
    refine List.pairwise_append.mpr ⟨l.increasing.sublist List.filter_sublist, ?_, ?_⟩
    · refine List.pairwise_cons.mpr ⟨?_, l.increasing.sublist List.filter_sublist⟩
      intro y hy
      exact of_decide_eq_true (List.mem_filter.mp hy).2
    · intro x hx y hy
      have hx := of_decide_eq_true (List.mem_filter.mp hx).2
      rcases List.mem_cons.mp hy with rfl | hy
      · exact hx
      · exact Int64.lt_trans hx (of_decide_eq_true (List.mem_filter.mp hy).2)

/-- Keeps the samples at the times of which `keep` holds. -/
def filter (l : Timeline) (keep : Timestamp → Bool) : Timeline where
  samples := l.samples.filter (keep ·.timestamp)
  increasing := l.increasing.sublist List.filter_sublist

/-- The first `n` samples. -/
def take (l : Timeline) (n : Nat) : Timeline where
  samples := l.samples.take n
  increasing := l.increasing.sublist (List.take_sublist _ _)

/-- All but the first `n` samples. -/
def drop (l : Timeline) (n : Nat) : Timeline where
  samples := l.samples.drop n
  increasing := l.increasing.sublist (List.drop_sublist _ _)

/-- A sample of `l` lies before `t`, at `t` or after it, so that those before and those after are no
more than all. -/
theorem length_before_after
    (l : Timeline) (t : Timestamp) :
  (l.before t).length + (l.after t).length ≤ l.length
  := by
  obtain ⟨samples, increasing⟩ := l
  simp only [before, after, length]
  clear increasing
  induction samples with
  | nil => simp
  | cons s samples ih =>
    rw [List.filter_cons, List.filter_cons]
    by_cases hlt : s.timestamp < t
    · have hgt : ¬t < s.timestamp := fun h => Int64.lt_irrefl (Int64.lt_trans hlt h)
      simp only [hlt, hgt, decide_true, decide_false, Bool.false_eq_true, if_true, if_false,
        List.length_cons]
      omega
    · by_cases hgt : t < s.timestamp <;>
        simp only [hlt, hgt, decide_true, decide_false, Bool.false_eq_true, if_true, if_false,
          List.length_cons] <;> omega

/-- What `l.filter keep` has are samples of `l`, so that there are no more of them. -/
theorem length_filter_le
    (l : Timeline) (keep : Timestamp → Bool) :
  (l.filter keep).length ≤ l.length
  := List.length_filter_le _ _

end Timeline

end TimeSeries
