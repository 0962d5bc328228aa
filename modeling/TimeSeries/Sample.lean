import TimeSeries.Binary64
import TimeSeries.TimeRange

/-!
# Samples

A sample is a value at a time.  Equality of samples is equality of all bits;
`agrees` compares the values as numbers instead.
-/

namespace TimeSeries

/-- A sample: the `value` that was measured at the time `timestamp`. -/
structure Sample where
  timestamp : Timestamp
  value : Binary64
deriving DecidableEq, Inhabited

namespace Sample

/-- The bytes that an unpacked sample takes. -/
def byteSize : Nat := 16

/-- Do `a` and `b` have the same time, and values that are equal as numbers? -/
def agrees (a b : Sample) : Bool :=
  a.timestamp == b.timestamp && a.value.agrees b.value

end Sample

end TimeSeries
