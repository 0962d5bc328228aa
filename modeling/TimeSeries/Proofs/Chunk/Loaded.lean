import TimeSeries.Proofs.Chunk.Atomicity
import TimeSeries.Proofs.Snapshot.Guarded

/-!
# Loaded chunks

A snapshot may come from anywhere; all that is known of one that opens is that its seal fits.
Loading a chunk from it ends without an abort, and a chunk that was loaded is valid: its bits
decode as the number of samples that it claims, in the order of their times, and nothing is
left over.  These need not be the bits that an encoder writes.  What is done to the chunk from
then on never meets a corruption and never loses a sample: `Sustains` says so of one more
request, for every chunk that the loaded one leads to.
-/

namespace TimeSeries

/-! ### Valid chunks -/

/-- Asked until it has nothing to give, the decoder yields the samples and no fault, and is
`last` in the end. -/
inductive Decoder.Yields : Decoder → List Sample → Decoder → Prop where
  | nothing {d : Decoder} (hnext : d.next? = none) : Yields d [] d
  | sample {d next last : Decoder} {x : Sample} {samples : List Sample}
      (hnext : d.next? = some (.ok x, next)) (hlater : Yields next samples last) :
      Yields d (x :: samples) last

/-- The bits of `c` decode as its samples, from its base to its state. -/
structure PackedChunk.Valid (c : PackedChunk) : Prop where
  length_le : c.buffer.length ≤ 8 * c.capacity
  length_eq_zero : c.count = 0 → c.buffer.length = 0
  decodes : ∃ samples last, c.decoder.Yields samples last
    ∧ samples.length = c.count
    ∧ samples.Pairwise (fun a b => a.timestamp < b.timestamp)
    ∧ (∀ first ∈ samples.head?, first = c.base)
    ∧ last.reader.position = c.buffer.length
    ∧ (c.count ≠ 0 → last.state = c.state)

/-- The samples of `c` are in order and have slots, and the first one is at its base. -/
structure PlainChunk.Valid (c : PlainChunk) : Prop where
  length_le : c.length ≤ c.slots
  increasing : c.samples.Pairwise fun a b => a.timestamp < b.timestamp
  base_eq : ∀ first ∈ c.samples.head?, c.base = first.timestamp

/-- The chunk is valid as one of its encoding. -/
def Chunk.Valid : Chunk → Prop
  | .plain p => p.Valid
  | .packed p => p.Valid

/-- If `bits` replay as `samples` from the state `s` to `last`, a decoder that has these bits ahead
yields `samples` and ends in `last`. -/
theorem Replays.yields
    {s last : Replay} {index : Nat} {bits tail : List Bool} {samples : List Sample}
    (h : Replays s index bits samples last) (hindex : index ≠ 0) {r : BitReader}
    (hrest : r.rest = bits ++ tail) (base : Sample) :
  Decoder.Yields ⟨r, s, base, index, samples.length⟩ samples
    ⟨r.advance bits.length, last, base, index + samples.length, 0⟩
  := by
  induction h generalizing r with
  | nil =>
    apply Decoder.Yields.nothing
    rfl
  | @cons s next last index bits rest x samples hread hlater ih =>
    rw [List.append_assoc] at hrest
    have hnext := @Decoder.next?_eq_of_reads ⟨r, s, base, index, samples.length + 1⟩ _ _ _ _ hindex
      (Nat.succ_ne_zero _) hrest hread
    have hyields := ih (Nat.succ_ne_zero _) (BitReader.rest_advance_of_rest hrest)
    rw [BitReader.advance_advance, ← List.length_append, Nat.add_assoc, Nat.add_comm 1] at hyields
    apply Decoder.Yields.sample hnext hyields

namespace PackedChunk

variable {c : PackedChunk} {l : Timeline}

theorem Holds.length_eq_zero
    {samples : List Sample} (h : c.Holds samples) (hcount : c.count = 0) :
  c.buffer.length = 0
  := by
  cases h with
  | nothing _ hbits => rw [← BitBuffer.length_toList, hbits, List.length_nil]
  | stream hlater => omega

/-- If `c` holds `samples`, the decoder of `c` yields them, and ends at the length of the stream and
in the state of `c`. -/
theorem Holds.yields
    {samples : List Sample} (h : c.Holds samples) :
  ∃ last, c.decoder.Yields samples last ∧ last.reader.position = c.buffer.length
    ∧ (c.count ≠ 0 → last.state = c.state)
  := by
  have hzero := h.length_eq_zero
  cases h with
  | nothing hcount _ =>
    use c.decoder
    constructor
    · apply Decoder.Yields.nothing
      apply if_pos hcount
    · constructor
      · apply (hzero hcount).symm
      · intro hne
        contradiction
  | @stream later hcount hreplays =>
    have hrest : c.buffer.reader.rest = c.buffer.toList ++ [] := by
      rw [List.append_nil, BitBuffer.rest_reader]
    have hremaining : c.decoder.remaining = later.length + 1 := hcount
    have hbase := @Decoder.next?_eq_base c.decoder rfl (by omega)
    rw [hremaining] at hbase
    apply Exists.intro
    constructor
    · apply Decoder.Yields.sample hbase (hreplays.yields Nat.one_ne_zero hrest c.base)
    · constructor
      · show 0 + c.buffer.toList.length = c.buffer.length
        rw [BitBuffer.length_toList, Nat.zero_add]
      · intro _
        rfl

theorem Holds.base_eq
    {samples : List Sample} (h : c.Holds samples) {first : Sample}
    (hfirst : first ∈ samples.head?) :
  first = c.base
  := by
  cases h with
  | nothing => cases hfirst
  | stream =>
    cases hfirst
    rfl

theorem Sound.valid
    (h : c.Sound l) :
  c.Valid
  := by
  obtain ⟨last, hyields, hposition, hstate⟩ := h.holds.yields
  constructor
  · apply c.buffer.length_le
  · apply h.holds.length_eq_zero
  · use l.samples, last, hyields, h.holds.count_eq.symm, l.increasing, fun _ => h.holds.base_eq

/-- If `c` represents `l`, it can be unpacked, into a slot for each sample of `l`. -/
theorem Sound.unpack_eq_ok
    (h : c.Sound l) :
  ∃ p, c.unpack = .ok p ∧ p.samples = l.samples ∧ p.slots = c.length
  := by
  have hroom : (PlainChunk.withSlots c.length).length + l.samples.length
      ≤ (PlainChunk.withSlots c.length).slots := by
    have hcount := h.holds.count_eq
    show 0 + l.samples.length ≤ c.count
    omega
  obtain ⟨p, happend, hsamples, hslots⟩ := PlainChunk.appendAll_eq_ok hroom l.increasing
  use p
  constructor
  · rw [unpack, h.holds.samples_eq, happend]
    dsimp only
    rw [h.holds.fault?_eq]
  · use hsamples, hslots

end PackedChunk

theorem PlainChunk.valid
    (c : PlainChunk) :
  c.Valid
  := by
  constructor
  · apply c.length_le
  · apply c.timeline.increasing
  · intro first hfirst
    apply c.base_eq
    rw [Columns.first?_eq]
    apply Option.mem_map_of_mem _ hfirst

/-! ### What chunks show -/

/-- The fault of the stream, which is `none` for a chunk that is not packed. -/
def Chunk.fault? : Chunk → Option PackingError
  | .plain _ => none
  | .packed p => p.fault?

/-- However it is looked at, `c` shows the samples of `l`, all of them and no fault. -/
structure Chunk.Shows (c : Chunk) (l : Timeline) : Prop where
  samples_eq : c.samples = l.samples
  length_eq : c.length = l.length
  fault?_eq : c.fault? = none
  take_scan : ∀ direction n,
    ((c.scan direction).take n).1 = (Direction.order l.samples direction).take n
  aggregate_eq : ∀ kind range, c.aggregate kind range
    = TimeSeries.aggregate kind ((l.samples.filter (range.contains ·.timestamp)).map Sample.value)

/-- Leaving out the samples of `l` before `range` and stopping after it leaves those in it. -/
theorem Timeline.takeWhile_dropWhile
    (l : Timeline) (range : TimeRange) :
  (l.samples.dropWhile (·.timestamp < range.start)).takeWhile (·.timestamp ≤ range.stop)
    = l.samples.filter (range.contains ·.timestamp)
  := by
  have hbefore := l.pairwise_bound (Columns.lt_bound range.start)
  have hstop := l.pairwise_bound (Columns.le_bound range.stop)
  rw [(takeWhile_eq_filter hbefore).2, (takeWhile_eq_filter (hstop.sublist List.filter_sublist)).1,
    List.filter_filter]
  congr 1
  funext x
  rw [TimeRange.contains, Bool.and_comm, ← decide_not]
  simp only [Int64.not_lt]

namespace Chunk

variable {c d : Chunk} {l : Timeline}

theorem Holds.valid
    (h : c.Holds l) :
  c.Valid
  := by
  cases c with
  | plain p => apply p.valid
  | packed p => apply PackedChunk.Sound.valid h

theorem Holds.fault?_eq
    (h : c.Holds l) :
  c.fault? = none
  := by
  cases c with
  | plain p => rfl
  | packed p => apply PackedChunk.Holds.fault?_eq (PackedChunk.Sound.holds h)

/-- If `c` holds `l`, a reverse scan of `c` is about to give the samples of `l`, last one first.  A
packed chunk is unpacked for it, which does not fail. -/
theorem Holds.ahead_reverse
    (h : c.Holds l) :
  (c.scan .reverse).Ahead l.samples.reverse
  := by
  cases c with
  | plain p =>
    subst h
    apply Scan.ahead_along
  | packed p =>
    obtain ⟨unpacked, hunpack, hsamples, _⟩ := PackedChunk.Sound.unpack_eq_ok h
    rw [scan, hunpack, ← hsamples]
    apply Scan.ahead_along

theorem Holds.take_scan_reverse
    (h : c.Holds l) (n : Nat) :
  ((c.scan .reverse).take n).1 = l.samples.reverse.take n
  := h.ahead_reverse.take_eq n

/-- If `c` holds `l`, it shows `l`. -/
theorem Holds.shows
    (h : c.Holds l) :
  c.Shows l
  := by
  constructor
  · apply h.samples_eq
  · apply h.length_eq
  · apply h.fault?_eq
  · intro direction n
    cases direction with
    | forward => apply h.take_scan
    | reverse => apply h.take_scan_reverse
  · intro kind range
    rw [aggregate, h.samples_eq, l.takeWhile_dropWhile]

/-! ### Requests -/

end Chunk

/-- The error `e` says that packed data could not be read. -/
def ChunkError.Corrupted (e : ChunkError) : Prop := ∃ cause, e = .packing (.corrupted cause)

theorem Request.MayFail.not_corrupted
    {request : Request} {e : ChunkError} (h : request.MayFail e) :
  ¬e.Corrupted
  := by
  cases h <;> rintro ⟨_, ⟨⟩⟩

/-- The chunk `c` shows `l`, and goes on to show what becomes of it: a change acts on `l`, a split
gives its two parts, and a conversion leaves it.  Where one fails the chunk is as it was, and not
for a corruption. -/
structure Chunk.Sustains (c : Chunk) (l : Timeline) : Prop where
  shows : c.Shows l
  changes : ∀ memory change, (c.change memory change).Ends
    (fun n d => ∃ l', change.Acts l n l' ∧ d.Shows l')
    fun e d => d = c ∧ change.Fails (c.Declines memory) l e ∧ ¬e.Corrupted
  splits : ∀ memory, l.samples ≠ [] → ∃ step, c.split memory = .ok step ∧ step.Ends
    (fun newer d => d.Shows (l.take (l.length - l.length / 2))
      ∧ newer.Shows (l.drop (l.length - l.length / 2)))
    fun e d => d = c ∧ e.OutOfMemory
  converts : ∀ memory target,
    (∃ d, (c.convert memory target).outcome = .ok d ∧ d.Shows l ∧ d.encoding = target)
      ∨ ∃ e, (c.convert memory target).outcome = .error e ∧ e.OutOfMemory

/-- Chunks that come from `c` by changes, splits and conversions. -/
inductive Chunk.Leads (c : Chunk) : Chunk → Prop where
  | start : c.Leads c
  | change {d : Chunk} (h : c.Leads d) (memory : Memory) (change : Change) :
      c.Leads (d.change memory change).after
  | older {d : Chunk} {memory : Memory} {step : Step Chunk Chunk} (h : c.Leads d)
      (hsplit : d.split memory = .ok step) : c.Leads step.after
  | newer {d newer : Chunk} {memory : Memory} {step : Step Chunk Chunk} (h : c.Leads d)
      (hsplit : d.split memory = .ok step) (houtcome : step.outcome = .ok newer) : c.Leads newer
  | convert {d converted : Chunk} {memory : Memory} {target : Encoding} (h : c.Leads d)
      (houtcome : (d.convert memory target).outcome = .ok converted) : c.Leads converted

namespace Chunk

variable {c d : Chunk} {l : Timeline}

theorem Holds.sustains
    (h : c.Holds l) :
  c.Sustains l
  := by
  constructor
  · apply h.shows
  · intro memory change
    apply (h.change_ends memory change).mono
    · rintro n d ⟨l', hacts, hd⟩
      exact ⟨l', hacts, hd.shows⟩
    · rintro e d ⟨rfl, hfails⟩
      use rfl, hfails
      apply (mayFail_of_fails hfails).not_corrupted
  · intro memory hne
    obtain ⟨step, hsplit, hends⟩ := h.split_ends hne memory
    use step, hsplit
    apply hends.mono
    · rintro newer d ⟨hd, hnewer⟩
      exact ⟨hd.shows, hnewer.shows⟩
    · rintro e d ⟨rfl, hrefuses⟩
      exact ⟨rfl, hrefuses.outOfMemory⟩
  · intro memory target
    rcases h.convert_cases memory target with ⟨d, hok, hd, hencoding⟩ | ⟨e, herror, hrefuses⟩
    · left
      exact ⟨d, hok, hd.shows, hencoding⟩
    · right
      exact ⟨e, herror, hrefuses.outOfMemory⟩

theorem Leads.reachable
    (h : c.Leads d) (hc : c.Reachable) :
  d.Reachable
  := by
  induction h with
  | start => apply hc
  | change _ memory change ih => apply ih.change
  | older _ hsplit ih => apply ih.older hsplit
  | newer _ hsplit houtcome ih => apply ih.newer hsplit houtcome
  | convert _ houtcome ih => apply ih.convert houtcome

/-- If `c` is reachable and leads to `d`, then `d` shows a timeline and goes on to do so. -/
theorem Reachable.sustains
    (h : c.Reachable) (hd : c.Leads d) :
  ∃ l, d.Sustains l
  := by
  obtain ⟨l, hl⟩ := (hd.reachable h).holds
  exact ⟨l, hl.sustains⟩

/-- If `data` opens as a snapshot, loading a chunk from it does not abort, as long as a word counts
the bits of `data`; and a chunk `c` that was loaded is valid, and whatever is done to it sustains a
timeline. -/
theorem sustains_of_load
    {data : List UInt8} {cursor : Cursor} (hopen : Cursor.ofSealed data = .ok cursor) :
  (8 * data.length < wordLimit → Guarded.loadChunk cursor = unguarded load cursor)
    ∧ ∀ c rest, load cursor = .ok c rest →
      c.Valid ∧ ∀ d, c.Leads d → ∃ l, d.Sustains l
  := by
  constructor
  · intro hbits
    apply Guarded.agrees_loadChunk.eq_unguarded
    rw [(ofSealed_eq_ok_iff _ _).mp hopen, sealBytes, List.length_append, length_wordBytes] at hbits
    apply hbits
  · intro c rest hload
    have hreachable := Reachable.load hload
    obtain ⟨l, hl⟩ := hreachable.holds
    use hl.valid
    intro d hd
    obtain ⟨l', hl'⟩ := (hd.reachable hreachable).holds
    exact ⟨l', hl'.sustains⟩

/-- A case of `sustains_of_load` with bits that no encoder writes: the third sample has a change of
zero in nine bits, where one would do. -/
theorem sustains_of_load_loose :
  let cursor : Cursor := ⟨encodeFrames [.unsigned 1, .signed 7, .count 3, .count 10,
    .bytes [0, 0, 0, 0, 0, 0, 0, 5, 64, 0], .count 75, .double ⟨4⟩, .signed 17, .signed 5,
    .double ⟨4⟩, .count 32, .count 32]⟩
  Cursor.ofSealed (sealBytes cursor.unread) = .ok cursor
    ∧ Guarded.loadChunk cursor = unguarded load cursor
    ∧ ∃ c, load cursor = .ok c ⟨[]⟩ ∧ c.samples = [⟨7, ⟨4⟩⟩, ⟨12, ⟨4⟩⟩, ⟨17, ⟨4⟩⟩]
      ∧ c.Valid ∧ ∀ d, c.Leads d → ∃ l, d.Sustains l
  := by
  intro cursor
  have hopen := ofSealed_sealBytes cursor.unread
  obtain ⟨hguarded, hvalid⟩ := sustains_of_load hopen
  use hopen, hguarded (by decide +kernel)
  have hloaded : (match load cursor with
      | .ok c rest => decide (c.samples = [⟨7, ⟨4⟩⟩, ⟨12, ⟨4⟩⟩, ⟨17, ⟨4⟩⟩] ∧ rest = ⟨[]⟩)
      | .error _ _ => false) = true := by decide +kernel
  split at hloaded
  · rename_i c rest hload
    obtain ⟨hsamples, rfl⟩ := of_decide_eq_true hloaded
    exact ⟨c, hload, hsamples, hvalid c _ hload⟩
  · cases hloaded

end Chunk

end TimeSeries
