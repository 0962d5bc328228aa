import Mathlib.Data.List.Basic
import TimeSeries.Proofs.Chunk.Loaded

/-!
# Scans in both directions

Every call to a scan gives the next sample; behind the last one it gives nothing, however
often it is called.  Its hint of the most that is to come is exact all along, for walks along
slots in either direction and for replays alike.  Going backwards through a packed chunk
rests on unpacking it, and since every reachable chunk can be unpacked, the copy without
samples that would stand in for it is never scanned.
-/

namespace TimeSeries

theorem Decoder.Ahead.remaining_eq
    {d : Decoder} {samples : List Sample} (h : d.Ahead samples) :
  d.remaining = samples.length
  := by
  cases h with
  | nothing hremaining => apply hremaining
  | base _ hremaining => apply hremaining
  | stream _ hremaining => apply hremaining

namespace Scan

/-- What is left of `scan` after a number of calls. -/
def after (scan : Scan) : (calls : Nat) → Scan
  | 0 => scan
  | calls + 1 => scan.next?.2.after calls

/-- Called until it has nothing to give, the scan yields the samples. -/
inductive Yields : Scan → List Sample → Prop where
  | nothing {scan : Scan} (hnext : scan.next?.1 = none) : Yields scan []
  | sample {scan next : Scan} {s : Sample} {samples : List Sample}
      (hnext : scan.next? = (some s, next)) (hlater : next.Yields samples) :
      Yields scan (s :: samples)

/-- The `scan` gives `samples` one by one and knows how many are to come. -/
structure Delivers (scan : Scan) (samples : List Sample) : Prop where
  /-- Each call gives the sample at its place, and nothing from the end of the samples on. -/
  next?_eq : ∀ calls, (scan.after calls).next?.1 = samples[calls]?
  /-- What is to come after some calls are the samples that they did not give. -/
  yields_iff : ∀ calls rest, (scan.after calls).Yields rest ↔ rest = samples.drop calls
  most_eq : ∀ calls, (scan.after calls).sizeHint.2 = samples.length - min calls samples.length
  /-- The hint of the most that is to come is the number of those that are. -/
  most_eq_length : ∀ calls rest, (scan.after calls).Yields rest →
    (scan.after calls).sizeHint.2 = rest.length
  least_le : ∀ calls, (scan.after calls).sizeHint.1 ≤ (scan.after calls).sizeHint.2

variable {scan : Scan} {samples : List Sample}

/-! ### Calls -/

/-- If `scan` has `samples` ahead, after `calls` it has those ahead that were not given. -/
theorem Ahead.after
    (h : scan.Ahead samples) (calls : Nat) :
  (scan.after calls).Ahead (samples.drop calls)
  := by
  induction calls generalizing scan samples with
  | zero => apply h
  | succ calls ih =>
    obtain ⟨next, hnext, hahead⟩ := h.next?_eq
    rw [Scan.after, hnext, ← List.drop_tail]
    apply ih hahead

theorem Ahead.yields
    (h : scan.Ahead samples) :
  scan.Yields samples
  := by
  induction samples generalizing scan with
  | nil =>
    obtain ⟨next, hnext, _⟩ := h.next?_eq
    apply Yields.nothing
    rw [hnext]
    rfl
  | cons s samples ih =>
    obtain ⟨next, hnext, hahead⟩ := h.next?_eq
    apply Yields.sample hnext (ih hahead)

/-- If `scan` has `samples` ahead and yields `rest`, these are the same. -/
theorem Ahead.eq_of_yields
    (h : scan.Ahead samples) {rest : List Sample} (hyields : scan.Yields rest) :
  rest = samples
  := by
  induction hyields generalizing samples with
  | nothing hnone =>
    obtain ⟨next, hnext, _⟩ := h.next?_eq
    rw [hnext] at hnone
    apply (List.head?_eq_none_iff.mp hnone).symm
  | sample hsome _ ih =>
    obtain ⟨next, hnext, hahead⟩ := h.next?_eq
    rw [hnext, Prod.mk.injEq] at hsome
    obtain ⟨hhead, rfl⟩ := hsome
    rw [ih hahead]
    apply List.cons_head?_tail hhead

theorem Ahead.sizeHint_eq
    (h : scan.Ahead samples) :
  scan.sizeHint.2 = samples.length ∧ scan.sizeHint.1 ≤ samples.length
  := by
  cases h with
  | walked hle =>
    rw [Walk.length_ahead hle]
    exact ⟨rfl, Nat.le_refl _⟩
  | replayed hd => exact ⟨hd.remaining_eq, Nat.zero_le _⟩

/-- If `scan` has `samples` ahead at the start, it delivers them. -/
theorem Ahead.delivers
    (h : scan.Ahead samples) :
  scan.Delivers samples
  := by
  have hmost (calls : Nat) : (scan.after calls).sizeHint.2 = samples.length - calls := by
    rw [(h.after calls).sizeHint_eq.1, List.length_drop]
  constructor
  · intro calls
    obtain ⟨next, hnext, _⟩ := (h.after calls).next?_eq
    rw [hnext, List.head?_drop]
  · intro calls rest
    constructor
    · apply (h.after calls).eq_of_yields
    · rintro rfl
      apply (h.after calls).yields
  · intro calls
    rw [hmost]
    omega
  · intro calls rest hyields
    rw [(h.after calls).eq_of_yields hyields, (h.after calls).sizeHint_eq.1]
  · intro calls
    obtain ⟨hmost, hleast⟩ := (h.after calls).sizeHint_eq
    rwa [hmost]

theorem ownsCopy_next?
    (scan : Scan) :
  scan.next?.2.ownsCopy = scan.ownsCopy
  := by
  cases scan with
  | walked => rfl
  | replayed d =>
    rw [next?]
    split <;> rfl

/-- No call takes the copy from `scan` or gives it one. -/
theorem ownsCopy_after
    (scan : Scan) (calls : Nat) :
  (scan.after calls).ownsCopy = scan.ownsCopy
  := by
  induction calls generalizing scan with
  | zero => rfl
  | succ calls ih => rw [after, ih, ownsCopy_next?]

end Scan

namespace Chunk

variable {c : Chunk} {l : Timeline}

/-- The samples of `c` can be gone through in both directions, one the reverse of the other. -/
structure ScansBothWays (c : Chunk) : Prop where
  length_eq : c.samples.length = c.length
  forward : (c.scan .forward).Delivers c.samples
  reverse : (c.scan .reverse).Delivers c.samples.reverse
  ownsCopy_iff : ∀ direction calls,
    ((c.scan direction).after calls).ownsCopy = true ↔ direction = .reverse ∧ c.encoding = .packed
  unpacks : ∀ p, c = packed p →
    ∃ unpacked, p.unpack = .ok unpacked ∧ unpacked.slots = c.length ∧ unpacked.samples = c.samples

/-- A scan of `c` owns a copy just when it goes backwards and `c` is packed. -/
theorem ownsCopy_scan_iff
    (c : Chunk) (direction : Direction) :
  (c.scan direction).ownsCopy = true ↔ direction = .reverse ∧ c.encoding = .packed
  := by
  cases c with
  | plain p => simp [scan, Scan.along, Scan.ownsCopy, encoding]
  | packed p =>
    cases direction with
    | forward => simp [scan, Scan.ownsCopy]
    | reverse =>
      rw [scan]
      split <;> simp [Scan.along, Scan.ownsCopy, encoding]

theorem Holds.scansBothWays
    (h : c.Holds l) :
  c.ScansBothWays
  := by
  constructor
  · rw [h.samples_eq, h.length_eq]
    rfl
  · rw [h.samples_eq]
    apply h.ahead.delivers
  · rw [h.samples_eq]
    apply h.ahead_reverse.delivers
  · intro direction calls
    rw [Scan.ownsCopy_after, ownsCopy_scan_iff]
  · rintro p rfl
    obtain ⟨unpacked, hunpack, hsamples, hslots⟩ := PackedChunk.Sound.unpack_eq_ok h
    use unpacked, hunpack, hslots
    rw [hsamples, h.samples_eq]

/-- If `c` is reachable, it can be scanned both ways. -/
theorem scansBothWays_of_reachable
    (h : c.Reachable) :
  c.ScansBothWays
  := by
  obtain ⟨l, hl⟩ := h.holds
  apply hl.scansBothWays

/-- A case of `scansBothWays_of_reachable`: a packed chunk that had no bytes, grew for a value that
is not a number, and was written anew and sealed. -/
theorem scansBothWays_of_reachable_sealed :
  let c := ((((new .packed 0).change .ample (.add ⟨7, ⟨1⟩⟩)).after.change .ample
    (.upsert ⟨9, ⟨0x7ff8000000000001⟩⟩ .last .latest)).after.change .ample
    (.upsert ⟨5, ⟨2⟩⟩ .block .sealed)).after
  c.Reachable ∧ c.ScansBothWays
  := by
  intro c
  have hreachable : c.Reachable :=
    (((Reachable.new .packed 0).change _ _).change _ _).change _ _
  use hreachable
  apply scansBothWays_of_reachable hreachable

end Chunk

end TimeSeries
