/-!
# Time

Timestamps, and the ranges of them that statistics and deletions are taken over.
A range includes both ends.  `TimeRange.new` refuses a start after the end; an
inverted range read from elsewhere is a range that contains nothing.
-/

namespace TimeSeries

/-- A timestamp: a signed count of milliseconds. -/
abbrev Timestamp := Int64

/-- The timestamps from `start` to `stop`, both included. -/
structure TimeRange where
  start : Timestamp
  stop : Timestamp
deriving DecidableEq

namespace TimeRange

/-- The range of every timestamp, from the least to the greatest one. -/
def all : TimeRange := ⟨Int64.minValue, Int64.maxValue⟩

/-- Does `t` lie between the ends of `r`, or at one of them? -/
def contains (r : TimeRange) (t : Timestamp) : Bool :=
  r.start ≤ t && t ≤ r.stop

instance : Membership Timestamp TimeRange := ⟨fun r t => r.contains t = true⟩

/-- A timestamp `t` is in `r` when it is neither before `r.start` nor after `r.stop`. -/
theorem contains_iff
    (r : TimeRange) (t : Timestamp) :
  r.contains t = true ↔ r.start ≤ t ∧ t ≤ r.stop
  := by
  simp [contains]

end TimeRange

end TimeSeries
