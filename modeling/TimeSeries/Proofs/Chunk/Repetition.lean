import TimeSeries.Proofs.Chunk.Positions

/-!
# Insertions that are repeated

Most policies settle two values at the same time by selecting one of them, and select it again
when it is settled once more with the one that came in.  So after an insertion under such a policy
the same insertion finds its time taken by a value that stays.  It adds no sample and leaves the
chunk as it is, with all its bits and bytes, whichever way the first insertion went.  A packed
chunk asks for memory again, although nothing is written anew, and fails where it is refused;
this leaves the chunk as well.
-/

namespace TimeSeries

/-! ### Policies -/

namespace DuplicatePolicy

/-- The policies that select one of two values. -/
def selecting : List DuplicatePolicy := [first, last, min, max]

variable {policy : DuplicatePolicy} {existing incoming value : Binary64}

/-- If `policy` selects, then of `value` and itself it selects `value`. -/
theorem resolve?_self
    (h : policy ∈ selecting) (value : Binary64) :
  policy.resolve? value value = some value
  := by
  cases policy with
  | first | last => rfl
  | min | max => rw [resolve?, ite_self]
  | block | sum => simp [selecting] at h

/-- If `policy` selects `value` from `existing` and `incoming`, it selects `value` again from
`value` and `incoming`. -/
theorem resolve?_of_resolve?
    (h : policy ∈ selecting) (hvalue : policy.resolve? existing incoming = some value) :
  policy.resolve? value incoming = some value
  := by
  cases policy with
  | first => rfl
  | last => exact hvalue
  | min | max =>
    rw [resolve?, Option.some_inj] at *
    split at hvalue
    · rw [hvalue, ite_self]
    · rename_i hless
      rw [← hvalue, if_neg hless]
  | block | sum => simp [selecting] at h

end DuplicatePolicy

/-! ### Timelines -/

variable {l l' : Timeline} {s : Sample} {policy : DuplicatePolicy} {position : ChunkPosition}

/-- There is a value of `l` at the time of `s`, and it stays when `policy` settles it with `s`. -/
def Timeline.Keeps (l : Timeline) (policy : DuplicatePolicy) (s : Sample) : Prop :=
  ∃ value, l.valueAt? s.timestamp = some value ∧ policy.resolve? value s.value = some value

/-- If an upsert of `s` acts on `l` and gives `l'`, the value that `l'` has at the time of `s`
stays. -/
theorem Change.Acts.keeps
    {n : Nat} (h : (upsert s policy position).Acts l n l')
    (hselects : policy ∈ DuplicatePolicy.selecting) :
  l'.Keeps policy s
  := by
  cases h with
  | insert =>
    use s.value
    rw [Timeline.valueAt?_put, if_pos rfl]
    use rfl, DuplicatePolicy.resolve?_self hselects s.value
  | @resolve _ _ _ existing value _ hresolve =>
    use value
    rw [Timeline.valueAt?_put, if_pos rfl]
    use rfl, DuplicatePolicy.resolve?_of_resolve? hselects hresolve

/-! ### Plain chunks -/

namespace PlainChunk

variable {p : PlainChunk}

/-- If `p` has the sample `⟨t, value⟩`, putting it into `p` changes nothing. -/
theorem put_eq_self
    {t : Timestamp} {value : Binary64} (h : p.timeline.valueAt? t = some value) :
  p.put ⟨t, value⟩ = p
  := by
  symm
  apply eq_put
  · rw [p.timeline.put_eq_self h]
  · apply (Nat.max_eq_left p.length_le).symm

theorem releaseSlack_eq_self
    (h : p.slots = p.length) :
  p.releaseSlack = p
  := by
  apply eq_of_timeline_eq
  · rfl
  · exact h.symm
  · intro
    rfl

/-- If the value of `p` at the time of `s` stays, an upsert of `s` adds nothing and leaves `p`. -/
theorem upsert_of_keeps
    (h : p.timeline.Keeps policy s) :
  p.upsert s policy = (Step.done p 0).preceded [.once (.resolution policy true)]
  := by
  obtain ⟨value, hsome, hresolve⟩ := h
  rw [upsert_eq, hsome]
  dsimp only
  rw [hresolve]
  dsimp only
  rw [put_eq_self hsome]

/-- If the value of `p` at the time of `s` stays and `p` has no slots to give up, an upsert of `s`
leaves `p`, also at a sealed position. -/
theorem settle_of_keeps
    (h : p.timeline.Keeps policy s) (hslots : p.slots = p.slotsAt position p.length) :
  settle position (p.upsert s policy)
    = (Step.done p 0).preceded [.once (.resolution policy true)]
  := by
  rw [upsert_of_keeps h]
  cases position with
  | latest => rfl
  | sealed =>
    have hafter : p.releaseSlack = p := releaseSlack_eq_self hslots
    show { (Step.done p 0).preceded [.once (.resolution policy true)] with
      after := p.releaseSlack } = _
    rw [hafter]
    rfl

end PlainChunk

/-! ### Packed chunks -/

/-- If an upsert of `s` leaves `d`, and the value of `l` at the time of `s` stays, then nothing is
added and `d` is `c`: the replacement is dropped. -/
theorem PackedChunk.Upserted.eq_self
    {c d : PackedChunk} {n : Nat} (h : c.Upserted l s policy position n d)
    (hkeeps : l.Keeps policy s) :
  n = 0 ∧ d = c
  := by
  obtain ⟨value, hvalue, hresolve⟩ := hkeeps
  cases h with
  | appended hlast =>
    rw [Timeline.valueAt?_eq_none_of_last_lt hlast] at hvalue
    cases hvalue
  | inserted hnone =>
    rw [hnone] at hvalue
    cases hvalue
  | kept => use rfl
  | @resolved existing _ hsome hresolve' hne =>
    rw [hsome] at hvalue
    cases hvalue
    rw [hresolve'] at hresolve
    cases hne (Option.some.inj hresolve)

/-! ### Chunks of either encoding -/

namespace Chunk

variable {c : Chunk} {memory later : Memory}

/-- The chunk `c` holds `l`, the value at the time of `s` stays when `s` is put in, and there is no
slack to give up. -/
structure Steady (c : Chunk) (l : Timeline) (s : Sample) (policy : DuplicatePolicy)
    (position : ChunkPosition) : Prop where
  holds : c.Holds l
  keeps : l.Keeps policy s
  slots : ∀ p, c = plain p → p.slots = p.slotsAt position p.length

/-- If `c` holds `l` and `policy` selects, an upsert of `s` fails only where `c` is packed and
`memory` is refused, and then leaves `c`. -/
theorem Holds.upsert_ends
    (h : c.Holds l) (hselects : policy ∈ DuplicatePolicy.selecting) (memory : Memory) (s : Sample)
    (position : ChunkPosition) :
  (c.upsert memory s policy position).Ends (fun _ _ => True)
    fun e d => d = c ∧ c.encoding = .packed ∧ memory.Refuses c.reach e
  := by
  have hends : (c.upsert memory s policy position).Ends _ _ :=
    h.change_ends memory (.upsert s policy position)
  apply hends.mono
  · intros
    trivial
  · rintro e d ⟨hafter, hfails⟩
    use hafter
    rcases upsert_fails_cases hfails with ⟨_, rfl, _⟩ | hrefused
    · simp [DuplicatePolicy.selecting] at hselects
    · exact hrefused

/-- One step: if the value of `c` at the time of `s` stays, an upsert of `s` that succeeds adds
nothing and leaves `c`. -/
theorem Steady.upsert_ends
    (h : c.Steady l s policy position) (memory : Memory) :
  (c.upsert memory s policy position).Ends (fun n d => n = 0 ∧ d = c) fun _ _ => True
  := by
  cases c with
  | plain p =>
    have htimeline : p.timeline = l := h.holds
    have hkeeps := h.keeps
    rw [← htimeline] at hkeeps
    rw [upsert, PlainChunk.settle_of_keeps hkeeps (h.slots p rfl)]
    apply Step.Ends.map
    apply Step.Ends.counted
    apply Step.Ends.preceded
    apply Step.ends_done
    use rfl
  | packed p =>
    have hholds : p.Holds l.samples := PackedChunk.Sound.holds h.holds
    apply Step.Ends.map
    apply Step.Ends.counted
    apply (PackedChunk.upsert_ends memory hholds s policy position).mono
    · intro n d hupserted
      obtain ⟨rfl, rfl⟩ := hupserted.eq_self h.keeps
      use rfl
    · intros
      trivial

end Chunk

end TimeSeries
