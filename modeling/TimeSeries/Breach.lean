/-!
# Broken promises

A few operations ask something of their caller: that a chunk to be split is not
empty, that a buffer is not cut below what was written.  A `Breach` names the
promise that was broken.  Nothing has happened then, and nothing is counted.
-/

namespace TimeSeries

/-- The promises that a caller can fail to keep.  The program stops where this happens. -/
inductive Breach where
  /-- An empty chunk was to be split. -/
  | emptySplit
  /-- A buffer was to be cut to fewer bytes than its written bits take. -/
  | trimBelowUse (bytes bits : Nat)
deriving DecidableEq

/-- The wording of a broken promise. -/
def Breach.message : Breach → String
  | emptySplit => "cannot split an empty chunk"
  | trimBelowUse bytes bits =>
    s!"trim to {bytes} bytes would drop written bits ({bits} bits in use)"

end TimeSeries
