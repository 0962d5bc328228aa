import TimeSeries.Timeline

/-!
# Columns

A plain chunk keeps the timestamps of its samples in one array and their values in
another, at the same places.  As the timestamps strictly increase, a place is found
by halving: `rank t` is the place of the first timestamp that is not before `t`.
Samples are inserted and taken out at a place, in both arrays alike, and the
timestamps increase again.
-/

namespace TimeSeries

/-! ### Partition points -/

/-- The place behind the elements of `a` for which `p` holds, if they stand in front of all
others.  It is sought from `low` to `high`, by halving. -/
def partitionPoint {α : Type} (p : α → Bool) (a : Array α) (low high : Nat) : Nat :=
  if low < high then
    let middle := low + (high - low) / 2
    match a[middle]? with
    | some x =>
      if p x then partitionPoint p a (middle + 1) high else partitionPoint p a low middle
    | none => low
  else low
termination_by high - low

/-- If `p` holds for the elements of `a` before the place `n` and for none from there on, then `n`
is found between any `low` and `high` that it lies between. -/
theorem partitionPoint_eq
    {α : Type} {p : α → Bool} {a : Array α} {n low high : Nat} (hlow : low ≤ n) (hhigh : n ≤ high)
    (hsize : high ≤ a.size) (hfront : ∀ i x, a[i]? = some x → i < n → p x = true)
    (hback : ∀ i x, a[i]? = some x → n ≤ i → p x = false) :
  partitionPoint p a low high = n
  := by
  fun_induction partitionPoint p a low high with
  | case1 low high hlt middle x hx hp ih =>
    apply ih _ hhigh hsize
    apply Nat.lt_of_not_le
    intro hle
    rw [hback middle x hx hle] at hp
    cases hp
  | case2 low high hlt middle x hx hp ih =>
    have hle : n ≤ middle := by
      apply Nat.le_of_not_lt
      intro hlt
      apply hp (hfront middle x hx hlt)
    apply ih hlow hle
    omega
  | case3 low high hlt middle hnone =>
    rw [Array.getElem?_eq_none_iff] at hnone
    omega
  | case4 low high hle =>
    omega

/-- The partition point of `front` and `back` lies between them. -/
theorem partitionPoint_append
    {α : Type} {p : α → Bool} {a : Array α} {front back : List α} (h : a.toList = front ++ back)
    (hfront : ∀ x ∈ front, p x = true) (hback : ∀ x ∈ back, p x = false) :
  partitionPoint p a 0 a.size = front.length
  := by
  have hsize : front.length ≤ a.size := by
    rw [← Array.length_toList, h, List.length_append]
    apply Nat.le_add_right
  apply partitionPoint_eq (Nat.zero_le _) hsize (Nat.le_refl _)
  · intro i x hx hi
    rw [← Array.getElem?_toList, h, List.getElem?_append_left hi] at hx
    apply hfront x (List.mem_of_getElem? hx)
  · intro i x hx hi
    rw [← Array.getElem?_toList, h, List.getElem?_append_right hi] at hx
    apply hback x (List.mem_of_getElem? hx)

/-! ### Increasing timestamps -/

/-- If of two elements of `l` the earlier one has `p` whenever the later one has it, then the elements
in front of the first that lacks `p` are all that have it. -/
theorem takeWhile_eq_filter
    {α : Type} {p : α → Bool} {l : List α} (h : l.Pairwise fun x y => p y = true → p x = true) :
  l.takeWhile p = l.filter p ∧ l.dropWhile p = l.filter (!p ·)
  := by
  induction l with
  | nil => exact ⟨rfl, rfl⟩
  | cons x l ih =>
    obtain ⟨hx, hl⟩ := List.pairwise_cons.mp h
    obtain ⟨htake, hdrop⟩ := ih hl
    by_cases hp : p x = true
    · simp [hp, htake, hdrop]
    · have hnone : l.filter p = [] := List.filter_eq_nil_iff.mpr fun y hy => mt (hx y hy) hp
      have hall : l.filter (!p ·) = l := List.filter_eq_self.mpr fun y hy => by
        simpa using mt (hx y hy) hp
      simp [hp, hnone, hall]

/-- If of two elements of `l` the earlier one has `p` whenever the later one has it, then `l` is the
elements that have `p` and behind them those that lack it. -/
theorem filter_append_filter
    {α : Type} {p : α → Bool} {l : List α} (h : l.Pairwise fun x y => p y = true → p x = true) :
  l.filter p ++ l.filter (!p ·) = l
  := by
  obtain ⟨htake, hdrop⟩ := takeWhile_eq_filter h
  rw [← htake, ← hdrop]
  apply List.takeWhile_append_dropWhile

/-! ### Columns -/

/-- The columns of a chunk: `timestamps` in their order, and in `values` a value at the place of
each of them. -/
structure Columns where
  timestamps : Array Timestamp
  values : Array Binary64
  size_eq : values.size = timestamps.size
  increasing : timestamps.toList.Pairwise (· < ·)
deriving DecidableEq

namespace Columns

variable (c : Columns)

/-- The columns without samples, which are those of a chunk that was never written to. -/
def empty : Columns := ⟨#[], #[], rfl, List.Pairwise.nil⟩

/-- The number of samples, read off `c.timestamps`. -/
def size : Nat := c.timestamps.size

/-- The timestamp at the first place of `c`, if `c` has samples. -/
def first? : Option Timestamp := c.timestamps[0]?

/-- The timestamp at the last place of `c`, if `c` has samples. -/
def last? : Option Timestamp := c.timestamps.back?

/-- The sample at the place `i`. -/
def sampleAt? (i : Nat) : Option Sample := do return ⟨← c.timestamps[i]?, ← c.values[i]?⟩

/-- The samples of `c`: each timestamp together with the value at its place. -/
def samples : List Sample := (c.timestamps.toList.zip c.values.toList).map fun (t, v) => ⟨t, v⟩

/-- The place behind the timestamps for which `p` holds. -/
def pointOf (p : Timestamp → Bool) : Nat := partitionPoint p c.timestamps 0 c.size

/-- The number of timestamps before `t`. -/
def rank (t : Timestamp) : Nat := c.pointOf (· < t)

/-- The number of timestamps up to `t`. -/
def rankBehind (t : Timestamp) : Nat := c.pointOf (· ≤ t)

/-- The place of the timestamp `t`. -/
def place? (t : Timestamp) : Option (Fin c.size) :=
  if h : c.timestamps[c.rank t]? = some t then
    some ⟨c.rank t, (Array.getElem?_eq_some_iff.mp h).1⟩
  else none

/-- The value at the place `i`. -/
def value (i : Fin c.size) : Binary64 :=
  have h : i.val < c.values.size := Nat.lt_of_lt_of_eq i.isLt c.size_eq.symm
  c.values[i.val]

/-! ### Samples -/

theorem map_timestamp_samples :
  c.samples.map Sample.timestamp = c.timestamps.toList
  := by
  rw [samples, List.map_map]
  apply List.map_fst_zip
  apply Nat.le_of_eq
  rw [Array.length_toList, Array.length_toList, c.size_eq]

theorem map_value_samples :
  c.samples.map Sample.value = c.values.toList
  := by
  rw [samples, List.map_map]
  apply List.map_snd_zip
  apply Nat.le_of_eq
  rw [Array.length_toList, Array.length_toList, c.size_eq]

/-- The samples of `c` as a timeline. -/
def timeline : Timeline where
  samples := c.samples
  increasing := by
    rw [← List.pairwise_map (R := (· < ·)), map_timestamp_samples]
    apply c.increasing

/-! ### Places -/

variable {c : Columns} {p : Timestamp → Bool} {t : Timestamp}

/-- The timestamps for which a bound `p` holds stand in front of the others. -/
theorem timestamps_eq
    (hp : ∀ t u, t < u → p u = true → p t = true) :
  c.timestamps.toList = c.timestamps.toList.filter p ++ c.timestamps.toList.filter (!p ·)
  := by
  symm
  apply filter_append_filter
  apply c.increasing.imp
  intro t u hlt
  apply hp t u hlt

theorem pointOf_eq
    (hp : ∀ t u, t < u → p u = true → p t = true) :
  c.pointOf p = (c.timestamps.toList.filter p).length
  := by
  apply partitionPoint_append (timestamps_eq hp)
  · intro t ht
    apply (List.mem_filter.mp ht).2
  · intro t ht
    simpa using (List.mem_filter.mp ht).2

theorem lt_bound
    (t : Timestamp) :
  ∀ u v : Timestamp, u < v → decide (v < t) = true → decide (u < t) = true
  := by
  intro u v huv hv
  apply decide_eq_true
  apply Int64.lt_trans huv (of_decide_eq_true hv)

theorem le_bound
    (t : Timestamp) :
  ∀ u v : Timestamp, u < v → decide (v ≤ t) = true → decide (u ≤ t) = true
  := by
  intro u v huv hv
  apply decide_eq_true
  apply Int64.le_of_lt (Int64.lt_of_lt_of_le huv (of_decide_eq_true hv))

theorem rank_le
    (c : Columns) (t : Timestamp) :
  c.rank t ≤ c.timestamps.size
  := by
  rw [rank, pointOf_eq (lt_bound t), ← Array.length_toList]
  apply List.length_filter_le

/-- Before the place `c.rank t` stand the timestamps before `t`. -/
theorem rank_eq_length
    {before after : List Timestamp} (h : c.timestamps.toList = before ++ after)
    (hbefore : ∀ u ∈ before, u < t) (hafter : ∀ u ∈ after, ¬u < t) :
  c.rank t = before.length
  := by
  have hfront : before.filter (fun u => decide (u < t)) = before := by
    apply List.filter_eq_self.mpr
    intro u hu
    apply decide_eq_true (hbefore u hu)
  have hback : after.filter (fun u => decide (u < t)) = [] := by
    apply List.filter_eq_nil_iff.mpr
    intro u hu hlt
    apply hafter u hu (of_decide_eq_true hlt)
  rw [rank, pointOf_eq (lt_bound t), h, List.filter_append, hfront, hback, List.append_nil]

/-- If `t` is a timestamp, it stands at the place `c.rank t`. -/
theorem getElem?_rank
    (h : t ∈ c.timestamps.toList) :
  c.timestamps[c.rank t]? = some t
  := by
  obtain ⟨before, after, hts⟩ := List.append_of_mem h
  have hincreasing := c.increasing
  rw [hts] at hincreasing
  obtain ⟨_, hat, hbefore⟩ := List.pairwise_append.mp hincreasing
  have hrank : c.rank t = before.length := by
    apply rank_eq_length hts
    · intro u hu
      apply hbefore u hu t List.mem_cons_self
    · intro u hu
      rcases List.mem_cons.mp hu with rfl | hu
      · apply Int64.lt_irrefl
      · apply Int64.lt_asymm ((List.pairwise_cons.mp hat).1 u hu)
  rw [hrank, ← Array.getElem?_toList, hts, List.getElem?_append_right (Nat.le_refl _), Nat.sub_self]
  rfl

theorem not_mem_of_place?_eq_none
    (h : c.place? t = none) :
  t ∉ c.timestamps.toList
  := by
  intro hmem
  rw [place?, dif_pos (getElem?_rank hmem)] at h
  cases h

/-- If `i` is the place of `t`, it is `c.rank t`, and `t` stands there. -/
theorem of_place?_eq_some
    {i : Fin c.size} (h : c.place? t = some i) :
  i.val = c.rank t ∧ c.timestamps[i.val]? = some t
  := by
  rw [place?] at h
  split at h
  · rename_i hat
    cases h
    exact ⟨rfl, hat⟩
  · cases h

/-! ### Changes -/

/-- What is inserted behind `front` stands between `front` and `back`. -/
theorem insertIdx_append
    {α : Type} (front back : List α) (x : α) :
  (front ++ back).insertIdx front.length x = front ++ x :: back
  := by
  induction front with
  | nil => apply List.insertIdx_zero
  | cons y front ih => rw [List.cons_append, List.length_cons, List.insertIdx_succ_cons, ih,
      List.cons_append]

/-- What is left of an array without the places from `low` on, before `high`. -/
theorem toList_extract_append
    {α : Type} (a : Array α) (low high : Nat) :
  (a.extract 0 low ++ a.extract high).toList = a.toList.take low ++ a.toList.drop high
  := by
  have hback : (a.toList.drop high).length = a.size - high := by
    rw [List.length_drop, Array.length_toList]
  rw [Array.toList_append, Array.toList_extract, Array.toList_extract, List.extract_eq_take_drop,
    List.extract_eq_take_drop, List.drop_zero, Nat.sub_zero, ← hback, List.take_length]

/-- If `t` has no place in `c`, the timestamps increase also with `t` inserted at the place
`c.rank t`. -/
theorem increasing_insert
    (h : c.place? t = none) :
  (c.timestamps.insertIdx (c.rank t) t (c.rank_le t)).toList.Pairwise (· < ·)
  := by
  have hts := timestamps_eq (c := c) (lt_bound t)
  have hincreasing := c.increasing
  rw [hts] at hincreasing
  obtain ⟨hfront, hback, _⟩ := List.pairwise_append.mp hincreasing
  rw [Array.toList_insertIdx, rank, pointOf_eq (lt_bound t)]
  conv =>
    arg 2
    arg 1
    rw [hts]
  rw [insertIdx_append]
  apply List.pairwise_append.mpr
  refine ⟨hfront, List.pairwise_cons.mpr ⟨?_, hback⟩, ?_⟩
  · intro u hu
    obtain ⟨hmem, hnot⟩ := List.mem_filter.mp hu
    have hle : t ≤ u := by simpa using hnot
    apply Int64.lt_of_le_of_ne hle
    rintro rfl
    apply not_mem_of_place?_eq_none h hmem
  · intro u hu v hv
    have hut : u < t := of_decide_eq_true (List.mem_filter.mp hu).2
    rcases List.mem_cons.mp hv with rfl | hv
    · apply hut
    · have htv : t ≤ v := by simpa using (List.mem_filter.mp hv).2
      apply Int64.lt_of_lt_of_le hut htv

/-- No timestamp of `c` is after `last`, if this is the one at the last place. -/
theorem le_last
    {last : Timestamp} (h : c.last? = some last) (ht : t ∈ c.timestamps.toList) :
  t ≤ last
  := by
  rw [last?, ← Array.getLast?_toList] at h
  obtain ⟨front, hts⟩ := List.getLast?_eq_some_iff.mp h
  have hincreasing := c.increasing
  rw [hts] at ht hincreasing
  rcases List.mem_append.mp ht with ht | ht
  · apply Int64.le_of_lt
    apply (List.pairwise_append.mp hincreasing).2.2 t ht last (List.mem_singleton_self _)
  · rw [List.mem_singleton.mp ht]
    apply Int64.le_refl

variable (c)

/-- The columns with `s` behind the samples of `c`, all of which are before `s.timestamp`. -/
def push (s : Sample) (h : ∀ last ∈ c.last?, last < s.timestamp) : Columns where
  timestamps := c.timestamps.push s.timestamp
  values := c.values.push s.value
  size_eq := by rw [Array.size_push, Array.size_push, c.size_eq]
  increasing := by
    rw [Array.toList_push]
    refine List.pairwise_append.mpr ⟨c.increasing, List.pairwise_singleton _ _, ?_⟩
    intro t ht u hu
    rw [List.mem_singleton.mp hu]
    cases hlast : c.last? with
    | none =>
      rw [last?, ← Array.getLast?_toList, List.getLast?_eq_none_iff] at hlast
      rw [hlast] at ht
      cases ht
    | some last => exact Int64.lt_of_le_of_lt (le_last hlast ht) (h last hlast)

/-- The columns with `s` among the samples of `c`, none of which is at `s.timestamp`. -/
def insert (s : Sample) (h : c.place? s.timestamp = none) : Columns where
  timestamps := c.timestamps.insertIdx (c.rank s.timestamp) s.timestamp (c.rank_le s.timestamp)
  values := c.values.insertIdx (c.rank s.timestamp) s.value
    (Nat.le_trans (c.rank_le s.timestamp) (Nat.le_of_eq c.size_eq.symm))
  size_eq := by rw [Array.size_insertIdx, Array.size_insertIdx, c.size_eq]
  increasing := increasing_insert h

/-- Another value at the place `i`. -/
def revalue (i : Nat) (value : Binary64) : Columns where
  timestamps := c.timestamps
  values := c.values.setIfInBounds i value
  size_eq := by rw [Array.size_setIfInBounds, c.size_eq]
  increasing := c.increasing

/-- The samples without the one at the place `i`. -/
def erase (i : Nat) : Columns where
  timestamps := c.timestamps.eraseIdxIfInBounds i
  values := c.values.eraseIdxIfInBounds i
  size_eq := by
    rw [← Array.length_toList, ← Array.length_toList, Array.toList_eraseIdxIfInBounds,
      Array.toList_eraseIdxIfInBounds, List.length_eraseIdx, List.length_eraseIdx,
      Array.length_toList, Array.length_toList, c.size_eq]
  increasing := by
    rw [Array.toList_eraseIdxIfInBounds]
    apply List.Pairwise.sublist (List.eraseIdx_sublist _ _) c.increasing

/-- The samples at the places from `low` on, before `high`. -/
def part (low high : Nat) : Columns where
  timestamps := c.timestamps.extract low high
  values := c.values.extract low high
  size_eq := by rw [Array.size_extract, Array.size_extract, c.size_eq]
  increasing := by
    rw [Array.toList_extract]
    apply c.increasing.sublist ((List.take_sublist _ _).trans (List.drop_sublist _ _))

/-- The samples without those at the places from `low` on, before `high`. -/
def drain (low high : Nat) (h : low ≤ high) : Columns where
  timestamps := c.timestamps.extract 0 low ++ c.timestamps.extract high
  values := c.values.extract 0 low ++ c.values.extract high
  size_eq := by
    rw [Array.size_append, Array.size_append]
    simp only [Array.size_extract, c.size_eq]
  increasing := by
    have hback : (c.timestamps.toList.drop high).Sublist (c.timestamps.toList.drop low) :=
      List.drop_sublist_drop_left _ h
    have hall := hback.append_left (c.timestamps.toList.take low)
    rw [List.take_append_drop] at hall
    rw [toList_extract_append]
    apply c.increasing.sublist hall

/-! ### Sizes and first timestamps -/

theorem size_push
    {s : Sample} (h : ∀ last ∈ c.last?, last < s.timestamp) :
  (c.push s h).size = c.size + 1
  := Array.size_push _

theorem size_insert
    {s : Sample} (h : c.place? s.timestamp = none) :
  (c.insert s h).size = c.size + 1
  := Array.size_insertIdx (c.rank_le _)

theorem size_erase_le
    (i : Nat) :
  (c.erase i).size ≤ c.size
  := by
  rw [size, size, ← Array.length_toList, ← Array.length_toList, erase,
    Array.toList_eraseIdxIfInBounds]
  apply (List.eraseIdx_sublist _ _).length_le

theorem size_drain_le
    {low high : Nat} (h : low ≤ high) :
  (c.drain low high h).size ≤ c.size
  := by
  rw [size, size, ← Array.length_toList, ← Array.length_toList, drain, toList_extract_append,
    List.length_append, List.length_take, List.length_drop]
  omega

/-- The first timestamp of `c.push s h` is that of `c`, or that of `s` if `c` has none. -/
theorem first?_push
    {s : Sample} (h : ∀ last ∈ c.last?, last < s.timestamp) :
  (c.push s h).first? = some (c.first?.getD s.timestamp)
  := by
  rw [first?, first?, push, ← Array.getElem?_toList, ← Array.getElem?_toList, Array.toList_push]
  cases c.timestamps.toList with
  | nil => rfl
  | cons t ts => rfl

/-- The first timestamp of `c.insert s h` is that of `s` if `c` has none before it, or else that of
`c`. -/
theorem first?_insert
    {s : Sample} (h : c.place? s.timestamp = none) :
  (c.insert s h).first? = if c.rank s.timestamp = 0 then some s.timestamp else c.first?
  := by
  rw [first?, first?, insert, ← Array.getElem?_toList, ← Array.getElem?_toList,
    Array.toList_insertIdx]
  by_cases hrank : c.rank s.timestamp = 0
  · rw [if_pos hrank, hrank, List.insertIdx_zero]
    rfl
  · rw [if_neg hrank, List.getElem?_insertIdx_of_lt (Nat.pos_of_ne_zero hrank)]

end Columns

end TimeSeries
