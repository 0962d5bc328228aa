import TimeSeries.Packing.Decode

/-!
# Decoders

A decoder goes through the samples of a packed stream.  The first sample is not in
the stream and is given beside it.  After a fault the decoder gives nothing more.
-/

namespace TimeSeries

/-- A place in a packed stream: `index` samples were given, and `remaining` are to
come. -/
structure Decoder where
  reader : BitReader
  state : Replay
  base : Sample
  index : Nat
  remaining : Nat

namespace Decoder

/-- The next sample of `d` or the fault in its place, and the decoder behind it; nothing is left
behind a fault. -/
def next? (d : Decoder) : Option (Except PackingError Sample × Decoder) :=
  if d.remaining = 0 then none
  else if d.index = 0 then
    some (.ok d.base, { d with index := 1, remaining := d.remaining - 1 })
  else
    match decode d.state d.index d.reader with
    | .ok (sample, state) reader =>
      some (.ok sample,
        { d with reader, state, index := d.index + 1, remaining := d.remaining - 1 })
    | .error e reader => some (.error e, { d with reader, remaining := 0 })

/-- If `d` gives something and leaves `next`, there is less to come from `next` than from `d`. -/
theorem remaining_lt_of_next?
    {d next : Decoder} {r : Except PackingError Sample} (h : d.next? = some (r, next)) :
  next.remaining < d.remaining
  := by
  unfold next? at h
  split at h
  · simp at h
  · split at h
    · simp only [Option.some.injEq, Prod.mk.injEq] at h
      rw [← h.2]
      dsimp only
      omega
    · split at h <;>
      · simp only [Option.some.injEq, Prod.mk.injEq] at h
        rw [← h.2]
        dsimp only
        omega

/-- All samples that are to come from `d`, and the fault that ends them if there is one. -/
def drain (d : Decoder) : List Sample × Option PackingError :=
  match _h : d.next? with
  | none => ([], none)
  | some (.error e, _) => ([], some e)
  | some (.ok sample, next) =>
    let (samples, fault) := next.drain
    (sample :: samples, fault)
termination_by d.remaining
decreasing_by exact remaining_lt_of_next? _h

end Decoder

end TimeSeries
