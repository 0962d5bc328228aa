import TimeSeries.Chunk.Scan
import TimeSeries.Proofs.Chunk.Columns
import TimeSeries.Proofs.Packing.Buffer
import TimeSeries.Proofs.Packing.Stream

/-!
# What a packed chunk holds

A packed chunk holds samples when its stream replays as the later ones and ends in its
state.  Its decoder then gives these samples and no fault, and the check that a loaded
chunk has to pass succeeds for the chunks that hold a timeline and for no others.
-/

namespace TimeSeries

/-! ### Decoders -/

/-- The decoder `d` is about to give samples, and then to end without a fault. -/
inductive Decoder.Ahead (d : Decoder) : List Sample → Prop where
  /-- Nothing is to come. -/
  | nothing (remaining : d.remaining = 0) : d.Ahead []
  /-- The first sample is to come, which is not in the stream. -/
  | base {bits tail : List Bool} {samples : List Sample} {last : Replay} (index : d.index = 0)
      (remaining : d.remaining = samples.length + 1) (rest : d.reader.rest = bits ++ tail)
      (replays : Replays d.state 1 bits samples last) : d.Ahead (d.base :: samples)
  /-- The stream is gone through. -/
  | stream {bits tail : List Bool} {x : Sample} {samples : List Sample} {last : Replay}
      (index : d.index ≠ 0) (remaining : d.remaining = samples.length + 1)
      (rest : d.reader.rest = bits ++ tail)
      (replays : Replays d.state d.index bits (x :: samples) last) : d.Ahead (x :: samples)

namespace Decoder

variable {d : Decoder} {x : Sample} {samples : List Sample}

theorem Ahead.next?_eq_none
    (h : d.Ahead []) :
  d.next? = none
  := by
  cases h with
  | nothing hremaining => rw [next?, if_pos hremaining]

/-- Behind the first sample `d` goes through a stream that replays as `samples`, until nothing is to
come. -/
theorem ahead_of_stream
    (d : Decoder) {bits tail : List Bool} {last : Replay} (hindex : d.index ≠ 0)
    (hremaining : d.remaining = samples.length) (hrest : d.reader.rest = bits ++ tail)
    (hreplays : Replays d.state d.index bits samples last) :
  d.Ahead samples
  := by
  cases samples with
  | nil => apply Ahead.nothing hremaining
  | cons x samples => apply Ahead.stream hindex hremaining hrest hreplays

/-- The first call of `d` gives the first sample, which is not in the stream. -/
theorem next?_eq_base
    (hindex : d.index = 0) (hremaining : d.remaining ≠ 0) :
  d.next? = some (.ok d.base, { d with index := 1, remaining := d.remaining - 1 })
  := by
  rw [next?, if_neg hremaining, if_pos hindex]

/-- If the stream of `d` goes on with the bits of `x`, a call gives `x` and leaves the state behind
it. -/
theorem next?_eq_of_reads
    {bits tail : List Bool} {state : Replay} (hindex : d.index ≠ 0) (hremaining : d.remaining ≠ 0)
    (hrest : d.reader.rest = bits ++ tail)
    (hread : Reads (decode d.state d.index) bits (x, state)) :
  d.next? = some (.ok x,
    ⟨d.reader.advance bits.length, state, d.base, d.index + 1, d.remaining - 1⟩)
  := by
  rw [next?, if_neg hremaining, if_neg hindex, hread d.reader tail hrest]

/-- If `x` and then `samples` are ahead of `d`, a call gives `x` and leaves `samples` ahead. -/
theorem Ahead.next?_eq_some
    (h : d.Ahead (x :: samples)) :
  ∃ next, d.next? = some (.ok x, next) ∧ next.Ahead samples
  := by
  cases h with
  | @base bits tail _ last hindex hremaining hrest hreplays =>
    let next : Decoder := { d with index := 1, remaining := d.remaining - 1 }
    use next, next?_eq_base hindex (by omega)
    apply ahead_of_stream next Nat.one_ne_zero _ hrest hreplays
    show d.remaining - 1 = samples.length
    omega
  | @stream bits tail _ _ last hindex hremaining hrest hreplays =>
    cases hreplays with
    | @cons _ state _ _ first later _ _ hread hlater =>
      rw [List.append_assoc] at hrest
      have hrest' := BitReader.rest_advance_of_rest hrest
      let next : Decoder :=
        ⟨d.reader.advance first.length, state, d.base, d.index + 1, d.remaining - 1⟩
      use next, next?_eq_of_reads hindex (by omega) hrest hread
      apply ahead_of_stream next (Nat.succ_ne_zero _) _ hrest' hlater
      show d.remaining - 1 = samples.length
      omega

/-- If `samples` are ahead of `d`, it gives them all and ends without a fault. -/
theorem Ahead.drain_eq
    (h : d.Ahead samples) :
  d.drain = (samples, none)
  := by
  induction samples generalizing d with
  | nil =>
    rw [drain]
    split
    · rfl
    · rename_i heq
      rw [h.next?_eq_none] at heq
      cases heq
    · rename_i heq
      rw [h.next?_eq_none] at heq
      cases heq
  | cons x samples ih =>
    obtain ⟨next, hnext, hahead⟩ := h.next?_eq_some
    rw [drain]
    split
    · rename_i heq
      rw [hnext] at heq
      cases heq
    · rename_i heq
      rw [hnext] at heq
      cases heq
    · rename_i heq
      rw [hnext] at heq
      cases heq
      rw [ih hahead]

end Decoder

/-! ### Scans -/

/-- The `samples` in the order of a scan in a direction. -/
def Direction.order (samples : List Sample) : Direction → List Sample
  | .forward => samples
  | .reverse => samples.reverse

theorem Direction.length_order
    (samples : List Sample) (direction : Direction) :
  (direction.order samples).length = samples.length
  := by
  cases direction with
  | forward => rfl
  | reverse => apply List.length_reverse

/-- The samples of `c` that the walk `w` still has to pass, in its order. -/
def Walk.ahead (w : Walk) (c : PlainChunk) : List Sample :=
  (w.direction.order c.samples).drop (c.length - w.remaining)

namespace Walk

variable {w : Walk} {c : PlainChunk}

theorem length_ahead
    (h : w.remaining ≤ c.length) :
  (w.ahead c).length = w.remaining
  := by
  rw [ahead, List.length_drop, Direction.length_order, c.length_samples]
  apply Nat.sub_sub_self h

/-- A step of `w` gives the first of the samples ahead, whichever way it goes. -/
theorem step_eq
    (h : w.remaining ≤ c.length) :
  w.step c = ((w.ahead c).head?, { w with remaining := w.remaining - 1 })
  := by
  obtain ⟨direction, remaining⟩ := w
  have hlength : c.samples.length = c.length := c.length_samples
  cases remaining with
  | zero =>
    have hnil : ahead ⟨direction, 0⟩ c = [] := List.length_eq_zero_iff.mp (length_ahead h)
    rw [hnil]
    rfl
  | succ remaining =>
    have h : remaining + 1 ≤ c.length := h
    rw [ahead, List.head?_drop, step, if_neg (Nat.succ_ne_zero _)]
    cases direction with
    | forward =>
      show (c.sampleAt? (c.length - remaining - 1), _)
        = (c.samples[c.length - (remaining + 1)]?, _)
      rw [c.sampleAt?_eq, Nat.sub_sub]
    | reverse =>
      show (c.sampleAt? remaining, _) = (c.samples.reverse[c.length - (remaining + 1)]?, _)
      rw [c.sampleAt?_eq, List.getElem?_reverse (by omega)]
      congr 2
      omega

/-- A step of `w` leaves the other samples ahead. -/
theorem ahead_step
    (h : w.remaining ≤ c.length) :
  (w.step c).2.ahead c = (w.ahead c).tail
  := by
  obtain ⟨direction, remaining⟩ := w
  rw [step_eq h]
  cases remaining with
  | zero =>
    have hnil : ahead ⟨direction, 0⟩ c = [] := List.length_eq_zero_iff.mp (length_ahead h)
    rw [hnil]
    apply hnil
  | succ remaining =>
    have h : remaining + 1 ≤ c.length := h
    have hnext : c.length - remaining = c.length - (remaining + 1) + 1 := by omega
    rw [ahead, ahead, List.tail_drop, ← hnext]
    rfl

end Walk

namespace Scan

/-- A scan is about to give samples: those that its walk has ahead, or those that its decoder
has. -/
inductive Ahead : Scan → List Sample → Prop where
  | walked {c : PlainChunk} {w : Walk} {owned : Bool} (h : w.remaining ≤ c.length) :
      Ahead (walked c w owned) (w.ahead c)
  | replayed {d : Decoder} {samples : List Sample} (h : d.Ahead samples) :
      Ahead (replayed d) samples

variable {scan : Scan} {samples : List Sample}

/-- A scan of `c` at its start has all samples of `c` ahead, in the order of `direction`. -/
theorem ahead_along
    (c : PlainChunk) (direction : Direction) (owned : Bool) :
  (along c direction owned).Ahead (direction.order c.samples)
  := by
  have hwalked : (along c direction owned).Ahead ((Walk.along c direction).ahead c) :=
    Ahead.walked (Nat.le_refl _)
  have hall : (Walk.along c direction).ahead c = direction.order c.samples := by
    rw [Walk.ahead, Walk.along, Nat.sub_self, List.drop_zero]
  rwa [hall] at hwalked

/-- If `samples` are ahead of `scan`, a call gives the first of them, if there is one, and leaves
the others. -/
theorem Ahead.next?_eq
    (h : scan.Ahead samples) :
  ∃ next, scan.next? = (samples.head?, next) ∧ next.Ahead samples.tail
  := by
  cases h with
  | @walked c w owned hle =>
    have hnext : (w.step c).2.remaining ≤ c.length := by
      rw [Walk.step_eq hle]
      apply Nat.le_trans (Nat.sub_le _ _) hle
    use Scan.walked c (w.step c).2 owned
    rw [← Walk.ahead_step hle]
    constructor
    · rw [next?, Walk.step_eq hle]
    · apply Ahead.walked hnext
  | @replayed d _ hd =>
    cases samples with
    | nil =>
      use Scan.replayed d
      rw [next?, hd.next?_eq_none]
      use rfl, .replayed hd
    | cons x samples =>
      obtain ⟨next, hnext, hahead⟩ := hd.next?_eq_some
      use Scan.replayed next
      rw [next?, hnext]
      use rfl, .replayed hahead

/-- If `samples` are ahead of `scan`, it takes the first `n` of them. -/
theorem Ahead.take_eq
    (h : scan.Ahead samples) (n : Nat) :
  (scan.take n).1 = samples.take n
  := by
  induction n generalizing scan samples with
  | zero => rfl
  | succ n ih =>
    obtain ⟨next, hnext, hahead⟩ := h.next?_eq
    rw [take, hnext]
    cases samples with
    | nil => rfl
    | cons x samples =>
      have hlater : (next.take n).1 = samples.take n := ih hahead
      rw [List.take_succ_cons, ← hlater]
      rfl

end Scan

/-! ### Chunks -/

/-- The samples that a packed chunk `c` holds.  If there are none, `c` may have any base and state,
but has no bits. -/
inductive PackedChunk.Holds (c : PackedChunk) : List Sample → Prop where
  | nothing (count : c.count = 0) (bits : c.buffer.toList = []) : c.Holds []
  | stream {later : List Sample} (count : c.count = later.length + 1)
      (replays : Replays (.start c.base) 1 c.buffer.toList later c.state) :
      c.Holds (c.base :: later)

namespace PackedChunk

variable {c : PackedChunk} {samples : List Sample}

theorem Holds.count_eq
    (h : c.Holds samples) :
  c.count = samples.length
  := by
  cases h with
  | nothing hcount => apply hcount
  | stream hcount => apply hcount

/-- If `c` holds `samples`, its decoder is about to give them. -/
theorem Holds.ahead
    (h : c.Holds samples) :
  c.decoder.Ahead samples
  := by
  cases h with
  | nothing hcount => apply Decoder.Ahead.nothing hcount
  | stream hcount hreplays =>
    apply Decoder.Ahead.base rfl hcount _ hreplays
    · apply []
    · rw [List.append_nil]
      apply BitBuffer.rest_reader

/-- If `c` holds `samples`, they are the ones that replaying it gives. -/
theorem Holds.samples_eq
    (h : c.Holds samples) :
  c.samples = samples
  := by
  rw [PackedChunk.samples, h.ahead.drain_eq]

theorem Holds.fault?_eq
    (h : c.Holds samples) :
  c.fault? = none
  := by
  rw [fault?, h.ahead.drain_eq]

theorem Holds.first?_eq
    (h : c.Holds samples) :
  c.first? = samples.head?.map Sample.timestamp
  := by
  rw [first?]
  cases h with
  | nothing hcount => rw [if_pos hcount]; rfl
  | stream hcount => rw [if_neg (by omega)]; rfl

/-- If `c` holds `samples`, its state remembers the time of the last of them. -/
theorem Holds.last?_eq
    (h : c.Holds samples) :
  c.last? = samples.getLast?.map Sample.timestamp
  := by
  rw [last?]
  cases h with
  | nothing hcount => rw [if_pos hcount]; rfl
  | @stream later hcount hreplays =>
    rw [if_neg (by omega), hreplays.last_timestamp, List.getLast?_cons]
    cases later.getLast? with
    | none => rfl
    | some x => rfl

/-! ### Checks -/

/-- If `bits` replay as `samples` whose times increase, following them goes through all of them. -/
theorem follow_eq_ok
    {s last : Replay} {index : Nat} {bits tail : List Bool} {r : BitReader}
    (h : Replays s index bits samples last) (hfirst : ∀ x ∈ samples, s.timestamp < x.timestamp)
    (hincreasing : samples.Pairwise fun a b => a.timestamp < b.timestamp)
    (hrest : r.rest = bits ++ tail) :
  follow s index samples.length r = .ok (last, r.advance bits.length)
  := by
  induction h generalizing r with
  | nil => rfl
  | @cons s next last index bits rest x samples hread hlater ih =>
    obtain ⟨hnext, hincreasing⟩ := List.pairwise_cons.mp hincreasing
    have htime := (hread.gives (gives_decode s index)).timestamp
    rw [List.append_assoc] at hrest
    rw [List.length_cons, follow, hread r _ hrest]
    dsimp only
    rw [if_neg (Int64.not_le.mpr (hfirst x List.mem_cons_self)), List.length_append,
      ← BitReader.advance_advance]
    apply ih _ hincreasing (BitReader.rest_advance_of_rest hrest)
    intro y hy
    rw [htime]
    apply hnext y hy

/-- If following a reader `r` succeeds, the bits that it has passed replay as samples whose times
increase. -/
theorem replays_of_follow
    {s last : Replay} {index remaining : Nat} {r r' : BitReader}
    (h : follow s index remaining r = .ok (last, r')) :
  ∃ (bits tail : List Bool) (samples : List Sample), r.rest = bits ++ tail
    ∧ r' = r.advance bits.length
    ∧ samples.length = remaining ∧ Replays s index bits samples last
    ∧ (∀ x ∈ samples, s.timestamp < x.timestamp)
    ∧ samples.Pairwise fun a b => a.timestamp < b.timestamp
  := by
  induction remaining generalizing s index r with
  | zero =>
    cases h
    use [], r'.rest, [], rfl, rfl, rfl, .nil _ _
    simp
  | succ remaining ih =>
    rw [follow] at h
    cases hdecode : decode s index r with
    | error e reader =>
      rw [hdecode] at h
      cases h
    | ok p reader =>
      obtain ⟨x, next⟩ := p
      rw [hdecode] at h
      dsimp only at h
      split at h
      · cases h
      · rename_i hlt
        obtain ⟨bits, tail, hrest, rfl, hread⟩ := streams_decode s index r reader _ hdecode
        obtain ⟨bits', tail', samples, hrest', rfl, hlength, hreplays, hfirst, hincreasing⟩ := ih h
        have htime := (hread.gives (gives_decode s index)).timestamp
        rw [BitReader.rest_advance_of_rest hrest] at hrest'
        rw [Int64.not_le] at hlt
        use bits ++ bits', tail', x :: samples
        constructor
        · rw [hrest, hrest', List.append_assoc]
        · constructor
          · rw [BitReader.advance_advance, List.length_append]
          · use by rw [List.length_cons, hlength], .cons hread hreplays
            constructor
            · intro y hy
              rcases List.mem_cons.mp hy with rfl | hy
              · apply hlt
              · apply Int64.lt_trans hlt
                rw [← htime]
                apply hfirst y hy
            · apply List.pairwise_cons.mpr ⟨_, hincreasing⟩
              intro y hy
              rw [← htime]
              apply hfirst y hy

/-- If `c` has samples, it passes the check when following it ends in its state, at the end of its
bits. -/
theorem check_eq_ok_iff_follow
    (hcount : c.count ≠ 0) :
  c.check = .ok () ↔ ∃ reader,
    follow (.start c.base) 1 (c.count - 1) c.buffer.reader = .ok (c.state, reader)
      ∧ reader.atEnd = true
  := by
  rw [check, if_neg hcount]
  cases follow (.start c.base) 1 (c.count - 1) c.buffer.reader with
  | error e =>
    constructor
    · intro h
      cases h
    · rintro ⟨_, h, _⟩
      cases h
  | ok p =>
    obtain ⟨state, reader⟩ := p
    cases hend : reader.atEnd with
    | false =>
      constructor
      · intro h
        simp [Bind.bind, Except.bind, hend] at h
      · rintro ⟨_, h, hend'⟩
        cases h
        rw [hend] at hend'
        cases hend'
    | true =>
      by_cases hstate : state = c.state
      · subst hstate
        simp [Bind.bind, Except.bind, hend, Pure.pure, Except.pure]
      · constructor
        · intro h
          simp [Bind.bind, Except.bind, hend, hstate] at h
        · rintro ⟨_, h, _⟩
          cases h
          contradiction

/-- A chunk `c` passes the check exactly when it holds the samples of a timeline. -/
theorem check_eq_ok_iff
    (c : PackedChunk) :
  c.check = .ok () ↔ ∃ l : Timeline, c.Holds l.samples
  := by
  by_cases hcount : c.count = 0
  · have hnothing : c.buffer.length = 0 ↔ c.buffer.toList = [] := by
      rw [← List.length_eq_zero_iff, BitBuffer.length_toList]
    rw [check, if_pos hcount]
    constructor
    · intro h
      split at h
      · cases h
      · rename_i hlength
        use .empty
        apply Holds.nothing hcount (hnothing.mp (by omega))
    · rintro ⟨⟨samples, _⟩, h⟩
      cases h with
      | nothing _ hbits =>
        rw [if_neg (by rw [hnothing.mpr hbits]; decide)]
        rfl
      | stream hlength => omega
  · rw [check_eq_ok_iff_follow hcount]
    constructor
    · rintro ⟨reader, hfollow, hend⟩
      obtain ⟨bits, tail, later, hrest, rfl, hlength, hreplays, hfirst, hincreasing⟩ :=
        replays_of_follow hfollow
      rw [BitReader.atEnd_iff, BitReader.rest_advance_of_rest hrest] at hend
      rw [hend, List.append_nil, BitBuffer.rest_reader] at hrest
      use ⟨c.base :: later, List.pairwise_cons.mpr ⟨hfirst, hincreasing⟩⟩
      apply Holds.stream (by omega)
      rwa [hrest]
    · rintro ⟨⟨samples, hincreasing⟩, h⟩
      cases h with
      | nothing hzero => contradiction
      | @stream later hlength hreplays =>
        obtain ⟨hfirst, hincreasing⟩ := List.pairwise_cons.mp hincreasing
        have hrest : c.buffer.reader.rest = c.buffer.toList ++ [] := by
          rw [List.append_nil, BitBuffer.rest_reader]
        use c.buffer.reader.advance c.buffer.toList.length
        constructor
        · rw [hlength]
          apply follow_eq_ok hreplays hfirst hincreasing hrest
        · rw [BitReader.atEnd_iff, BitReader.rest_advance_of_rest hrest]

end PackedChunk

end TimeSeries
