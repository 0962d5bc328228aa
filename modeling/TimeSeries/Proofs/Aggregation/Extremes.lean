import TimeSeries.Proofs.Aggregation.History
import TimeSeries.Proofs.Binary64

/-!
# Least and greatest values

Of values of which none is NaN, the aggregation finds one of them that is at most, or at
least, as great as each.  The finite value that it starts from is not one of them and has no
influence, also where all values are infinite.  Which of two zeros is found depends on the
order of the values, while the number does not, nor does it matter where the aggregator was
saved and loaded in between.
-/

namespace TimeSeries

open Binary64

namespace Extreme

/-- The aggregation that looks for the extreme. -/
def aggregation : Extreme → AggregationKind
  | .min => .min
  | .max => .max

/-- The number of `m` is at least as extreme as that of `v`. -/
def Reaches (kind : Extreme) (m v : Binary64) : Prop :=
  match kind with
  | .min => m.number ≤ v.number
  | .max => v.number ≤ m.number

/-- One of `values`, `m`, is at least as extreme as each of them. -/
structure Tops (kind : Extreme) (values : List Binary64) (m : Binary64) : Prop where
  mem : m ∈ values
  reaches : ∀ v ∈ values, kind.Reaches m v

variable {kind : Extreme} {values permuted : List Binary64} {m m' v w : Binary64}

theorem Reaches.trans
    (hm : kind.Reaches m v) (hv : kind.Reaches v w) :
  kind.Reaches m w
  := by
  cases kind with
  | min => apply le_trans (α := EReal) hm hv
  | max => apply le_trans (α := EReal) hv hm

theorem Reaches.number_eq
    (hm : kind.Reaches m v) (hv : kind.Reaches v m) :
  m.number = v.number
  := by
  cases kind with
  | min => apply le_antisymm hm hv
  | max => apply le_antisymm hv hm

/-- If `v` and `m` are numbers, `v` is not more extreme than `m` just when `m` reaches it. -/
theorem better_eq_false_iff
    (hv : v.isNaN = false) (hm : m.isNaN = false) :
  kind.better v m = false ↔ kind.Reaches m v
  := by
  cases kind with
  | min => apply less_eq_false_iff hv hm
  | max => apply less_eq_false_iff hm hv

theorem reaches_of_better
    (h : kind.better v m = true) :
  kind.Reaches v m
  := by
  cases kind with
  | min => apply le_of_lt ((less_iff v m).mp h).2.2
  | max => apply le_of_lt ((less_iff m v).mp h).2.2

theorem reaches_refl
    (kind : Extreme) (v : Binary64) :
  kind.Reaches v v
  := by
  cases kind <;> apply le_refl

/-! ### Runs -/

/-- One step: if `m` tops `values`, then of `v` and `m` the more extreme one tops `values` and
`v`. -/
theorem Tops.concat
    (h : kind.Tops values m) (hm : m.isNaN = false) (hv : v.isNaN = false) :
  kind.Tops (values ++ [v]) (if kind.better v m then v else m)
  := by
  cases hbetter : kind.better v m with
  | true =>
    constructor
    · simp
    · intro w hw
      rcases List.mem_append.mp hw with hw | hw
      · apply (reaches_of_better hbetter).trans (h.reaches w hw)
      · rw [List.mem_singleton.mp hw]
        apply kind.reaches_refl
  | false =>
    constructor
    · apply List.mem_append_left _ h.mem
    · intro w hw
      rcases List.mem_append.mp hw with hw | hw
      · apply h.reaches w hw
      · rw [List.mem_singleton.mp hw]
        apply (better_eq_false_iff hv hm).mp hbetter

/-- Run: if `values` are all numbers and there are any, the one that remains tops them. -/
theorem tops_among
    (kind : Extreme) (hne : values ≠ []) (hnumbers : ∀ v ∈ values, v.isNaN = false) :
  kind.Tops values (kind.among values)
  := by
  induction values using List.reverseRecOn with
  | nil => contradiction
  | append_singleton values v ih =>
    obtain ⟨hvalues, hv⟩ := List.forall_mem_append.mp hnumbers
    rw [among_concat]
    cases hempty : values.isEmpty with
    | true =>
      rw [List.isEmpty_iff.mp hempty, Bool.or_true]
      constructor
      · apply List.mem_singleton_self
      · intro w hw
        rw [List.mem_singleton.mp hw]
        apply kind.reaches_refl
    | false =>
      have htops := ih (by simpa using hempty) hvalues
      rw [Bool.or_false]
      apply htops.concat (hvalues _ htops.mem) (hv v (List.mem_singleton_self v))

/-- If `m` tops `values` and `m'` tops a permutation of them, both stand for one number. -/
theorem Tops.number_eq
    (h : kind.Tops values m) (h' : kind.Tops permuted m') (hperm : permuted.Perm values) :
  m'.number = m.number
  := (h'.reaches m (hperm.mem_iff.mpr h.mem)).number_eq (h.reaches m' (hperm.mem_iff.mp h'.mem))

/-! ### Aggregation -/

/-- The aggregation of `values` ends in `m`, which tops them, and in the same number however they
are ordered, saved or reset before. -/
structure Finds (kind : Extreme) (values : List Binary64) (m : Binary64) : Prop where
  tops : kind.Tops values m
  aggregate_eq : aggregate kind.aggregation values = .ok m
  /-- In another order the same number is found. -/
  aggregate_perm : ∀ permuted : List Binary64, permuted.Perm values →
    ∃ m', aggregate kind.aggregation permuted = .ok m' ∧ m'.number = m.number
  /-- After some of the values the aggregator may be saved, and loaded for the others. -/
  split : ∀ before after, before ++ after = values → ∃ cursor a,
    Cursor.ofSealed (sealFrames (before.foldl Aggregator.append (.new kind.aggregation)).frames)
        = .ok cursor
      ∧ Aggregator.load cursor = .ok a ⟨[]⟩
      ∧ (after.foldl Aggregator.append a).result = .ok m
  result_eq : ∀ a : Aggregator, a.Comes kind.aggregation values → a.result = .ok m

theorem result_of_comes
    (hne : values ≠ []) {a : Aggregator} (h : a.Comes kind.aggregation values) :
  a.result = .ok (kind.among values)
  := by
  have hsome : values.isEmpty = false := by simpa using hne
  rw [h.eq_memory]
  cases kind <;> rw [aggregation, Aggregator.memory, hsome] <;> rfl

/-- If `values` are all numbers and there are any, they have a least and a greatest one, which are
found. -/
theorem exists_finds
    (kind : Extreme) (hne : values ≠ []) (hnumbers : ∀ v ∈ values, v.isNaN = false) :
  ∃ m, kind.Finds values m
  := by
  have htops := kind.tops_among hne hnumbers
  have haggregate {values : List Binary64} (hne : values ≠ []) :
      aggregate kind.aggregation values = .ok (kind.among values) :=
    result_of_comes hne (Aggregator.comes_foldl _ _)
  use kind.among values
  constructor
  · apply htops
  · apply haggregate hne
  · intro permuted hperm
    have hsome : permuted ≠ [] := by
      rintro rfl
      apply hne hperm.nil_eq.symm
    have hpermuted := kind.tops_among hsome fun v hv => hnumbers v (hperm.mem_iff.mp hv)
    use kind.among permuted, haggregate hsome
    apply htops.number_eq hpermuted hperm
  · rintro before after rfl
    obtain ⟨cursor, hopen, hload⟩ :=
      (before.foldl Aggregator.append (.new kind.aggregation)).loads.of_seal
    use cursor, before.foldl Aggregator.append (.new kind.aggregation), hopen, hload
    rw [← List.foldl_append]
    apply haggregate hne
  · intro a ha
    apply result_of_comes hne ha

/-- A case of `exists_finds`: both infinities, the greatest finite value and both zeros. -/
theorem exists_finds_infinite :
  let values : List Binary64 := [⟨0x7ff0000000000000⟩, .greatest, .zero, ⟨0x8000000000000000⟩,
    ⟨0xfff0000000000000⟩]
  values ≠ [] ∧ (∀ v ∈ values, v.isNaN = false) ∧ ∃ m, Extreme.max.Finds values m
  := by
  intro values
  have hnumbers : ∀ v ∈ values, v.isNaN = false := by decide
  use List.cons_ne_nil _ _, hnumbers
  apply exists_finds .max (List.cons_ne_nil _ _) hnumbers

end Extreme

end TimeSeries
