import Mathlib.Data.Set.Card
import TimeSeries.Proofs.Chunk.Reachable

/-!
# Chunks as maps

To a user a chunk is a finite map from times to values, whatever its encoding and however
it came about.  `m.Answers declined change outcome m'` says how the map `m` answers a
change, and that it is `m'` afterwards.  A chunk that holds a timeline follows the map of
this timeline: at every point of a run of changes a scan goes through the entries of the
map in the order of their times, and each change is answered as the map answers it.  Only
where there is no room for an addition, or memory is refused, the chunk declines, and then
nothing is changed.
-/

namespace TimeSeries

/-- A finite map to a user: for each time the value there, or `none`. -/
abbrev Contents := Timestamp → Option Binary64

namespace Contents

/-- The times at which `m` has a value. -/
def times (m : Contents) : Set Timestamp := {t | (m t).isSome}

/-- How the map `m` answers a change, and what it is afterwards.  What a chunk may answer for want
of room or memory is left to `declined`. -/
inductive Answers (declined : Change → ChunkError → Prop) (m : Contents) :
    Change → Except ChunkError Nat → Contents → Prop where
  /-- A sample is added after all others. -/
  | added {s : Sample} (hlast : ∀ t ∈ m.times, t < s.timestamp) :
      Answers declined m (.add s) (.ok 1) (Function.update m s.timestamp (some s.value))
  /-- A sample does not come after the last one. -/
  | outOfOrder {s : Sample} {last : Timestamp} (hlast : last ∈ m.times)
      (hgreatest : ∀ t ∈ m.times, t ≤ last) (hle : s.timestamp ≤ last) :
      Answers declined m (.add s) (.error (.outOfOrder s.timestamp last)) m
  /-- A sample is inserted where there was none. -/
  | inserted {s : Sample} {policy : DuplicatePolicy} {position : ChunkPosition}
      (hnone : m s.timestamp = none) :
      Answers declined m (.upsert s policy position) (.ok 1)
        (Function.update m s.timestamp (some s.value))
  /-- The policy settles a sample with the one at the same time. -/
  | resolved {s : Sample} {policy : DuplicatePolicy} {position : ChunkPosition}
      {existing value : Binary64} (hsome : m s.timestamp = some existing)
      (hresolve : policy.resolve? existing s.value = some value) :
      Answers declined m (.upsert s policy position) (.ok 0)
        (Function.update m s.timestamp (some value))
  /-- The sample that is there is not to be touched. -/
  | blocked {s : Sample} {position : ChunkPosition} {existing : Binary64}
      (hsome : m s.timestamp = some existing) :
      Answers declined m (.upsert s .block position)
        (.error (.duplicate s.timestamp existing s.value)) m
  /-- The sample at a time is removed. -/
  | deleted {t : Timestamp} {position : ChunkPosition} (hmem : t ∈ m.times) :
      Answers declined m (.delete t position) (.ok 1) (Function.update m t none)
  /-- There is no sample at a time. -/
  | notFound {t : Timestamp} {position : ChunkPosition} (hmem : t ∉ m.times) :
      Answers declined m (.delete t position) (.error (.notFound t)) m
  /-- The samples from the start of a range to its end are removed. -/
  | deletedRange {range : TimeRange} {position : ChunkPosition} :
      Answers declined m (.deleteRange range position)
        (.ok (m.times ∩ {t | range.start ≤ t ∧ t ≤ range.stop}).ncard)
        fun t => if range.start ≤ t ∧ t ≤ range.stop then none else m t
  /-- The chunk has no room for a sample, or was refused memory. -/
  | declined {change : Change} {e : ChunkError} (h : declined change e) :
      Answers declined m change (.error e) m

end Contents

/-- Asked for any number of samples, `scan` gives the entries of `m` in the order of their times. -/
def Scan.Lists (scan : Scan) (m : Contents) : Prop :=
  ∃ samples : List Sample, (∀ n, (scan.take n).1 = samples.take n)
    ∧ samples.Pairwise (fun a b => a.timestamp < b.timestamp)
    ∧ ∀ t v, ⟨t, v⟩ ∈ samples ↔ m t = some v

/-- Asked for changes one after the other, the chunk gives the answers of the map, and a scan of it
lists the map at every point. -/
inductive Chunk.Follows (memory : Memory) : Chunk → Contents → List Change → Prop where
  | stop {c : Chunk} {m : Contents} (hscan : (c.scan .forward).Lists m) : Follows memory c m []
  | next {c : Chunk} {m m' : Contents} {change : Change} {changes : List Change}
      (hscan : (c.scan .forward).Lists m)
      (hanswers : m.Answers (c.Declines memory) change (c.change memory change).outcome m')
      (hfollows : Follows memory (c.change memory change).after m' changes) :
      Follows memory c m (change :: changes)

/-! ### Maps of timelines -/

namespace Timeline

variable {l : Timeline}

theorem mem_times_iff
    (l : Timeline) (t : Timestamp) :
  t ∈ Contents.times l.valueAt? ↔ ∃ x ∈ l.samples, x.timestamp = t
  := by
  rw [Contents.times, Set.mem_ofPred_eq, ← l.any_eq_isSome, List.any_eq_true]
  simp

theorem lt_of_mem_times
    {t u : Timestamp} (h : ∀ last ∈ l.last?, last < t) (hu : u ∈ Contents.times l.valueAt?) :
  u < t
  := by
  obtain ⟨x, hx, rfl⟩ := (l.mem_times_iff u).mp hu
  apply lt_of_last_lt h hx

theorem update_valueAt?
    (l : Timeline) (s : Sample) :
  Function.update l.valueAt? s.timestamp (some s.value) = (l.put s).valueAt?
  := by
  funext t
  rw [valueAt?_put, Function.update_apply]

theorem update_valueAt?_none
    (l : Timeline) (t : Timestamp) :
  Function.update l.valueAt? t none = (l.filter (· != t)).valueAt?
  := by
  funext u
  rw [valueAt?_filter, Function.update_apply]
  by_cases hu : u = t
  · simp [hu]
  · simp [hu]

theorem valueAt?_filter_range
    (l : Timeline) (range : TimeRange) :
  (l.filter (!range.contains ·)).valueAt?
    = fun t => if range.start ≤ t ∧ t ≤ range.stop then none else l.valueAt? t
  := by
  funext t
  rw [valueAt?_filter]
  by_cases ht : range.contains t = true
  · rw [if_pos ((range.contains_iff t).mp ht), ht]
    rfl
  · rw [if_neg (ht ∘ (range.contains_iff t).mpr), Bool.eq_false_iff.mpr ht]
    rfl

/-- As many times in `range` have a value in the map of `l` as there are samples of `l` in it. -/
theorem ncard_times
    (l : Timeline) (range : TimeRange) :
  (Contents.times l.valueAt? ∩ {t | range.start ≤ t ∧ t ≤ range.stop}).ncard
    = l.samples.countP (range.contains ·.timestamp)
  := by
  have hnodup : ((l.samples.filter (range.contains ·.timestamp)).map Sample.timestamp).Nodup := by
    apply List.pairwise_map.mpr
    apply (l.increasing.sublist List.filter_sublist).imp
    intro x y hlt
    apply Int64.ne_of_lt hlt
  have hset : Contents.times l.valueAt? ∩ {t | range.start ≤ t ∧ t ≤ range.stop}
      = ((l.samples.filter (range.contains ·.timestamp)).map Sample.timestamp).toFinset := by
    ext t
    rw [Set.mem_inter_iff, mem_times_iff, Set.mem_ofPred_eq, ← TimeRange.contains_iff,
      List.coe_toFinset, Set.mem_ofPred_eq, List.mem_map]
    constructor
    · rintro ⟨⟨x, hx, rfl⟩, hrange⟩
      use x, List.mem_filter.mpr ⟨hx, hrange⟩
    · rintro ⟨x, hx, rfl⟩
      obtain ⟨hx, hrange⟩ := List.mem_filter.mp hx
      use ⟨x, hx, rfl⟩
  rw [hset, Set.ncard_coe_finset, List.toFinset_card_of_nodup hnodup, List.length_map,
    List.countP_eq_length_filter]

end Timeline

/-! ### Steps -/

variable {l l' : Timeline} {change : Change}

/-- If `change` acts on `l` and gives `n` and `l'`, then the map of `l` answers `n` and becomes the
map of `l'`. -/
theorem Change.Acts.answers
    {n : Nat} (h : change.Acts l n l') (declined : Change → ChunkError → Prop) :
  Contents.Answers declined l.valueAt? change (.ok n) l'.valueAt?
  := by
  cases h with
  | add hlast =>
    rw [← l.update_valueAt?]
    apply Contents.Answers.added
    intro t ht
    apply Timeline.lt_of_mem_times hlast ht
  | insert hnone =>
    rw [← l.update_valueAt?]
    apply Contents.Answers.inserted hnone
  | resolve hsome hresolve =>
    rw [← l.update_valueAt?]
    apply Contents.Answers.resolved hsome hresolve
  | @delete t position value hsome =>
    rw [← l.update_valueAt?_none]
    apply Contents.Answers.deleted
    rw [Contents.times, Set.mem_ofPred_eq, hsome]
    rfl
  | @deleteRange range position =>
    rw [l.valueAt?_filter_range, ← l.ncard_times]
    apply Contents.Answers.deletedRange

/-- If `change` fails on `l` with the error `e`, then the map of `l` answers `e` and stays. -/
theorem Change.Fails.answers
    {declined : Change → ChunkError → Prop} {e : ChunkError} (h : change.Fails declined l e) :
  Contents.Answers declined l.valueAt? change (.error e) l.valueAt?
  := by
  cases h with
  | @outOfOrder s last hlast hle =>
    apply Contents.Answers.outOfOrder _ _ hle
    · obtain ⟨x, hx, hlast⟩ := Option.map_eq_some_iff.mp hlast
      apply (l.mem_times_iff last).mpr
      use x, List.mem_of_getLast? hx
    · intro t ht
      obtain ⟨x, hx, rfl⟩ := (l.mem_times_iff t).mp ht
      apply Timeline.le_last hlast hx
  | duplicate hsome hresolve =>
    obtain rfl := (DuplicatePolicy.resolve?_eq_none_iff _ _ _).mp hresolve
    apply Contents.Answers.blocked hsome
  | @notFound t _ hnone =>
    apply Contents.Answers.notFound
    rw [Contents.times, Set.mem_ofPred_eq, hnone]
    decide
  | declined h => apply Contents.Answers.declined h

/-! ### Runs -/

namespace Chunk

variable {c : Chunk}

/-- If `c` holds `l`, then a forward scan of `c` lists the map of `l`. -/
theorem Holds.lists
    (h : c.Holds l) :
  (c.scan .forward).Lists l.valueAt?
  := by
  use l.samples, h.take_scan, l.increasing
  intro t v
  rw [l.valueAt?_eq_some_iff]

/-- If `c` holds `l`, then `c` answers `change` as the map of `l` does, and the chunk left holds a
timeline whose map is the next one. -/
theorem Holds.answers
    (h : c.Holds l) (memory : Memory) (change : Change) :
  ∃ l' : Timeline, (c.change memory change).after.Holds l'
    ∧ Contents.Answers (c.Declines memory) l.valueAt? change
        (c.change memory change).outcome l'.valueAt?
  := by
  have hends := h.change_ends memory change
  cases houtcome : (c.change memory change).outcome with
  | ok n =>
    obtain ⟨l', hacts, hl'⟩ := hends.of_ok houtcome
    use l', hl', hacts.answers _
  | error e =>
    obtain ⟨hafter, hfails⟩ := hends.of_error houtcome
    use l
    rw [hafter]
    use h, hfails.answers

theorem Holds.follows
    (h : c.Holds l) (memory : Memory) (changes : List Change) :
  c.Follows memory l.valueAt? changes
  := by
  induction changes generalizing c l with
  | nil => apply Follows.stop h.lists
  | cons change changes ih =>
    obtain ⟨l', hl', hanswers⟩ := h.answers memory change
    apply Follows.next h.lists hanswers (ih hl')

/-- For any reachable chunk `c` there is a map `m` that `c` follows through all `changes`, whatever
they are. -/
theorem follows_of_reachable
    (h : c.Reachable) (memory : Memory) (changes : List Change) :
  ∃ m, c.Follows memory m changes
  := by
  obtain ⟨l, hl⟩ := h.holds
  use l.valueAt?
  apply hl.follows

/-- A case of `follows_of_reachable`: a packed chunk without any bytes, to which a sample was added,
follows a map through an insertion before this sample, a refused insertion and the removal of an
inverted range. -/
theorem follows_of_reachable_without_bytes :
  let c := ((new .packed 0).change .ample (.add ⟨7, ⟨1⟩⟩)).after
  c.Reachable ∧ ∃ m, c.Follows .ample m [.upsert ⟨5, ⟨2⟩⟩ .last .latest,
    .upsert ⟨7, ⟨3⟩⟩ .block .sealed, .deleteRange ⟨8, 4⟩ .sealed]
  := by
  intro c
  have hreachable : c.Reachable := (Reachable.new .packed 0).change .ample _
  use hreachable
  apply follows_of_reachable hreachable

end Chunk

end TimeSeries
