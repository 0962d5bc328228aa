import TimeSeries.Sample

/-!
# Replay states

Each packed sample depends on the one before it.  A replay state holds what is
needed of the past: the last timestamp and the difference that led to it, the last
value, and the window of bits that a changed value is written in.

A difference of values is taken by exclusive or.  The window leaves out leading and
trailing bits that are zero in that difference.
-/

namespace TimeSeries

/-- A window: the number of `leading` and of `trailing` bits of a difference that are left out. -/
structure Window where
  leading : UInt8
  trailing : UInt8
deriving DecidableEq

/-- The number of bits of a difference that are written in the window `w`. -/
def Window.width (w : Window) : Nat :=
  64 - (w.leading.toNat + w.trailing.toNat)

/-- The window before any value has changed; no difference fits in it. -/
def Window.initial : Window := ⟨32, 32⟩

/-- The state of a replay, which is all that the form of the next sample of a stream depends on. -/
structure Replay where
  timestamp : Timestamp
  delta : Int64
  value : Binary64
  window : Window
deriving DecidableEq

/-- The state after the sample `first` of a stream, which is not packed. -/
def Replay.start (first : Sample) : Replay where
  timestamp := first.timestamp
  delta := 0
  value := first.value
  window := Window.initial

end TimeSeries
