import TimeSeries.Chunk

/-!
# Scans

A scan goes through the samples of a chunk in one direction, and always knows how
many are still to come at least and at most.  The slots of a plain chunk are walked
along either way.  A packed chunk is replayed forwards; to go backwards it has to be
unpacked first, and the scan owns that copy.
-/

namespace TimeSeries

/-- The directions of a scan: `forward` is oldest first, and `reverse` newest first. -/
inductive Direction where
  /-- Oldest first. -/
  | forward
  /-- Newest first. -/
  | reverse
deriving DecidableEq

instance : Inhabited Direction := ⟨.forward⟩

/-- A walk along the slots of a plain chunk, of which `remaining` are still to come. -/
structure Walk where
  direction : Direction
  remaining : Nat

namespace Walk

/-- A walk in `direction` along all the slots of `c` that hold samples. -/
def along (c : PlainChunk) (direction : Direction) : Walk := ⟨direction, c.length⟩

/-- The sample of `c` in the next slot of the walk `w`, and the walk behind it. -/
def step (w : Walk) (c : PlainChunk) : Option Sample × Walk :=
  if w.remaining = 0 then (none, w)
  else
    let next : Walk := { w with remaining := w.remaining - 1 }
    let slot :=
      match next.direction with
      | .forward => c.length - next.remaining - 1
      | .reverse => next.remaining
    (c.sampleAt? slot, next)

end Walk

/-- The place of a scan, between the samples that it gave and those to come. -/
inductive Scan where
  /-- The slots of a plain chunk are walked along; `owned` tells that it was unpacked for
  the scan. -/
  | walked (chunk : PlainChunk) (walk : Walk) (owned : Bool)
  /-- The samples of a packed chunk are replayed. -/
  | replayed (decoder : Decoder)

namespace Scan

/-- A scan of all the samples of the plain chunk `c` in `direction`; `owned` tells that `c` was
unpacked for the scan. -/
def along (c : PlainChunk) (direction : Direction) (owned : Bool) : Scan :=
  walked c (.along c direction) owned

/-- The next sample of a scan, and the scan behind it.  A fault ends the scan as if there were no
more samples. -/
def next? : Scan → Option Sample × Scan
  | walked chunk walk owned =>
    let (s?, walk) := walk.step chunk
    (s?, walked chunk walk owned)
  | replayed decoder =>
    match decoder.next? with
    | none => (none, replayed decoder)
    | some (.ok s, decoder) => (some s, replayed decoder)
    | some (.error _, decoder) => (none, replayed decoder)

/-- How many samples are to come, at least and at most. -/
def sizeHint : Scan → Nat × Nat
  | walked _ walk _ => (walk.remaining, walk.remaining)
  | replayed decoder => (0, decoder.remaining)

/-- Were the samples unpacked for the scan? -/
def ownsCopy : Scan → Bool
  | walked _ _ owned => owned
  | replayed _ => false

/-- At most `n` samples, and the scan behind them. -/
def take (scan : Scan) : (n : Nat) → List Sample × Scan
  | 0 => ([], scan)
  | n + 1 =>
    match scan.next? with
    | (none, scan) => ([], scan)
    | (some s, scan) =>
      let (samples, scan) := scan.take n
      (s :: samples, scan)

end Scan

/-- A scan of `c` in `direction`, at its start.  A packed chunk that cannot be unpacked has nothing
to give in reverse. -/
def Chunk.scan (c : Chunk) (direction : Direction) : Scan :=
  match c, direction with
  | .plain p, direction => .along p direction false
  | .packed p, .forward => .replayed p.decoder
  | .packed p, .reverse =>
    match p.unpack with
    | .ok unpacked => .along unpacked .reverse true
    | .error _ => .along (.withSlots 0) .reverse true

end TimeSeries
