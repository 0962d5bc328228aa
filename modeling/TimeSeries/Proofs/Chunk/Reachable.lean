import TimeSeries.Chunk.Scan
import TimeSeries.Proofs.Chunk.Holding

/-!
# Reachable chunks

A chunk is reachable if it was made without samples or loaded from a snapshot, and then
changed, split and converted any number of times.  Every reachable chunk holds a timeline,
which is what a scan of it goes through.
-/

namespace TimeSeries

/-! ### Loaded chunks -/

theorem PackedChunk.gives_loadWindowSide
    (side : WindowSide) :
  Gives (loadWindowSide side) fun value => value.toNat ≤ 64
  := by
  rw [loadWindowSide]
  refine (Gives.any _).bind fun value _ => Gives.unless fun hle => Gives.pure ?_
  have hle : value.toNat ≤ 64 := by simpa [UInt64.lt_iff_toNat_lt] using hle
  rw [UInt64.toNat_toUInt8]
  omega

/-- A chunk that `PackedChunk.load` gives has passed its check, and so represents a timeline. -/
theorem PackedChunk.gives_load :
  Gives load fun c => ∃ l, c.Sound l
  := by
  rw [load]
  refine (Gives.any _).bind fun baseTime _ => ?_
  refine (Gives.any _).bind fun count _ => ?_
  refine (Gives.any _).bind fun capacity _ => ?_
  refine (Gives.any _).bind fun bytes _ => ?_
  refine (Gives.any _).bind fun length _ => ?_
  refine (Gives.any _).bind fun baseValue _ => ?_
  refine (Gives.any _).bind fun timestamp _ => ?_
  refine (Gives.any _).bind fun delta _ => ?_
  refine (Gives.any _).bind fun value _ => ?_
  refine (gives_loadWindowSide .leading).bind fun leading hleading => ?_
  refine (gives_loadWindowSide .trailing).bind fun trailing htrailing => ?_
  refine Gives.unless fun _ => ?_
  split
  · apply Gives.throw
  · rename_i buffer _
    dsimp only
    split
    · rename_i hcheck
      obtain ⟨l, hholds⟩ := (check_eq_ok_iff _).mp hcheck
      apply Gives.pure
      use l
      apply Sound.mk hholds hleading htrailing
    · apply Gives.throw

/-- A chunk that `Chunk.load` gives holds a timeline. -/
theorem Chunk.gives_load :
  Gives load fun c => ∃ l, c.Holds l
  := by
  rw [load]
  refine (Gives.any _).bind fun tag _ => ?_
  split
  · refine (Gives.any _).map plain fun p _ => ?_
    use p.timeline
    rfl
  · refine PackedChunk.gives_load.map packed fun p hp => ?_
    apply hp
  · apply Gives.throw

/-! ### Histories -/

/-- Chunks that come from `Chunk.new` or `Chunk.load` by changes, splits and conversions. -/
inductive Chunk.Reachable : Chunk → Prop where
  | new (encoding : Encoding) (bytes : Nat) : Reachable (.new encoding bytes)
  | load {c : Chunk} {cursor rest : Cursor} (hload : Chunk.load cursor = .ok c rest) :
      Reachable c
  | change {c : Chunk} (h : c.Reachable) (memory : Memory) (change : Change) :
      Reachable (c.change memory change).after
  | older {c : Chunk} {memory : Memory} {step : Step Chunk Chunk} (h : c.Reachable)
      (hsplit : c.split memory = .ok step) : Reachable step.after
  | newer {c newer : Chunk} {memory : Memory} {step : Step Chunk Chunk} (h : c.Reachable)
      (hsplit : c.split memory = .ok step) (houtcome : step.outcome = .ok newer) :
      Reachable newer
  | convert {c converted : Chunk} {memory : Memory} {target : Encoding} (h : c.Reachable)
      (houtcome : (c.convert memory target).outcome = .ok converted) : Reachable converted

namespace Chunk

variable {c : Chunk} {l : Timeline}

theorem holds_new
    (encoding : Encoding) (bytes : Nat) :
  (new encoding bytes).Holds .empty
  := by
  cases encoding with
  | plain => rfl
  | packed => apply (PackedChunk.packs_new bytes).sound

/-- If `c` holds `l`, then the chunk that `change` leaves of it holds a timeline. -/
theorem Holds.change
    (h : c.Holds l) (memory : Memory) (change : Change) :
  ∃ l', (c.change memory change).after.Holds l'
  := by
  have hends := h.change_ends memory change
  cases houtcome : (c.change memory change).outcome with
  | ok n =>
    obtain ⟨l', _, hl'⟩ := hends.of_ok houtcome
    use l'
  | error e =>
    obtain ⟨hafter, _⟩ := hends.of_error houtcome
    rw [hafter]
    use l

/-- If `c` holds `l`, then the chunk that a split of it leaves holds a timeline, and so does the
`newer` one that it gives if it succeeds. -/
theorem Holds.split
    (h : c.Holds l) {memory : Memory} {step : Step Chunk Chunk}
    (hsplit : c.split memory = .ok step) :
  (∃ l', step.after.Holds l') ∧ ∀ newer, step.outcome = .ok newer → ∃ l', newer.Holds l'
  := by
  by_cases hne : l.samples = []
  · rw [h.split_eq_error hne memory] at hsplit
    cases hsplit
  · obtain ⟨step', hsplit', hends⟩ := h.split_ends hne memory
    rw [hsplit] at hsplit'
    cases hsplit'
    constructor
    · cases houtcome : step.outcome with
      | ok newer => use l.take (l.length - l.length / 2), (hends.of_ok houtcome).1
      | error e =>
        rw [(hends.of_error houtcome).1]
        use l
    · intro newer houtcome
      use l.drop (l.length - l.length / 2), (hends.of_ok houtcome).2

/-- If `c` is reachable, it holds a timeline. -/
theorem Reachable.holds
    (h : c.Reachable) :
  ∃ l, c.Holds l
  := by
  induction h with
  | new encoding bytes =>
    use .empty
    apply holds_new
  | load hload => apply gives_load _ _ _ hload
  | change _ memory change ih =>
    obtain ⟨l, hl⟩ := ih
    apply hl.change
  | older _ hsplit ih =>
    obtain ⟨l, hl⟩ := ih
    apply (hl.split hsplit).1
  | newer _ hsplit houtcome ih =>
    obtain ⟨l, hl⟩ := ih
    apply (hl.split hsplit).2 _ houtcome
  | @convert _ _ memory target _ houtcome ih =>
    obtain ⟨l, hl⟩ := ih
    rcases hl.convert_cases memory target with ⟨d, hok, hd, _⟩ | ⟨e, herror, _⟩
    · rw [houtcome] at hok
      cases hok
      use l
    · rw [houtcome] at herror
      cases herror

/-- If `c` holds `l`, then a forward scan of `c` is about to give the samples of `l`. -/
theorem Holds.ahead
    (h : c.Holds l) :
  (c.scan .forward).Ahead l.samples
  := by
  cases c with
  | plain p =>
    subst h
    apply Scan.ahead_along
  | packed p => apply Scan.Ahead.replayed (PackedChunk.Holds.ahead (PackedChunk.Sound.holds h))

/-- If `c` holds `l`, then the first `n` samples of a forward scan of `c` are the first `n` of
`l`. -/
theorem Holds.take_scan
    (h : c.Holds l) (n : Nat) :
  ((c.scan .forward).take n).1 = l.samples.take n
  := h.ahead.take_eq n

end Chunk

end TimeSeries
