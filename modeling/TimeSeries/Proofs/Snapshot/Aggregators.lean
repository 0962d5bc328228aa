import TimeSeries.Downsampling
import TimeSeries.Proofs.Snapshot.Loads

/-!
# Saved aggregators and rules

Every aggregator is what its frames load to, whatever it has taken in: the frames carry the
bits of the values, so that also those that are not numbers come back as they were.  Every
rule is what its frames load to as well, with its bucket open or closed.
-/

namespace TimeSeries

namespace Aggregator

theorem loads_loadFlag
    (flag : Bool) :
  Loads loadFlag [flagFrame flag] flag
  := by
  have hlength : [if flag then (1 : UInt8) else 0].length < wordLimit := by
    rw [List.length_singleton]
    decide
  refine (loads_readBytes hlength).next ?_
  cases flag with
  | false => apply Loads.pure
  | true => apply Loads.pure

/-- The aggregator `a` is what its frames load to. -/
theorem loads
    (a : Aggregator) :
  Loads load a.frames a
  := by
  refine (loads_readUnsigned _).next ?_
  rw [AggregationKind.ofId?_id]
  dsimp only
  cases a with
  | single kind value fresh =>
    cases kind <;>
      exact (loads_readDouble _).next ((loads_loadFlag _).next (Loads.pure _))
  | extreme kind value fresh =>
    cases kind <;>
      exact (loads_readDouble _).next ((loads_loadFlag _).next (Loads.pure _))
  | average sum count =>
    exact (loads_readDouble _).next ((loads_readUnsigned _).next (Loads.pure _))
  | moments kind sum squares count =>
    obtain ⟨ofSample, root⟩ := kind
    cases ofSample <;> cases root <;>
      exact (loads_readDouble _).next
        ((loads_readDouble _).next ((loads_readUnsigned _).next (Loads.pure _)))
  | range least greatest fresh =>
    exact (loads_readDouble _).next
      ((loads_readDouble _).next ((loads_loadFlag _).next (Loads.pure _)))

end Aggregator

namespace Rule

/-- The frames of a bucket, if there is one. -/
def bucketFrames (bucket? : Option Timestamp) : List Frame :=
  match bucket? with
  | none => [.unsigned 0]
  | some start => [.unsigned 1, .signed start]

theorem loads_loadBucket
    (bucket? : Option Timestamp) :
  Loads loadBucket (bucketFrames bucket?) bucket?
  := by
  cases bucket? with
  | none => exact (loads_readUnsigned _).next (Loads.pure _)
  | some start =>
    exact (loads_readUnsigned _).next ((loads_readSigned _).next (Loads.pure _))

/-- If a word measures the name of its destination, the rule `r` is what its frames load to. -/
theorem loads
    (r : Rule) (hname : (Text.toUtf8 r.destination).length < wordLimit) :
  Loads load r.frames r
  := by
  have hdestination := (Text.ofUtf8_eq_ok_iff _ r.destination).mpr rfl
  have hnew : new r.destination r.width r.aggregator.kind
      = .ok ⟨r.destination, r.width, .new r.aggregator.kind, none, r.width_pos, r.width_lt⟩ := by
    rw [new]
    apply dif_pos ⟨r.width_pos, r.width_lt⟩
  have hframes : r.frames = .bytes (Text.toUtf8 r.destination) :: .unsigned r.width ::
      (r.aggregator.frames ++ bucketFrames r.bucket?) := rfl
  rw [hframes]
  refine (loads_readBytes hname).next ?_
  rw [hdestination]
  refine (loads_readUnsigned _).next ?_
  refine r.aggregator.loads.bind ?_
  refine (loads_loadBucket r.bucket?).last ?_
  rw [hnew]
  apply Loads.pure

end Rule

end TimeSeries
