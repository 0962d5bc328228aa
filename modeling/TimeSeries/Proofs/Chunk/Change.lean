import TimeSeries.Chunk
import TimeSeries.Proofs.Packing.Buffer
import TimeSeries.Proofs.Timeline

/-!
# Changes of a timeline

A change of a chunk is asked for without regard to its encoding.  `change.Acts l n l'`
says that it makes the timeline `l` into `l'` and answers with the number `n` of samples
added or removed; `change.Fails declined l e` says that it may answer with the fault `e`
instead, where `declined` tells what a chunk answers for want of room or memory.
-/

namespace TimeSeries

/-- A change that a chunk can be asked for, with its arguments. -/
inductive Change where
  | add (s : Sample)
  | upsert (s : Sample) (policy : DuplicatePolicy) (position : ChunkPosition)
  | delete (t : Timestamp) (position : ChunkPosition)
  | deleteRange (range : TimeRange) (position : ChunkPosition)
deriving DecidableEq

/-- Asks the chunk `c` for a change, for which `memory` can be had.  The result is the number of
samples added or removed. -/
def Chunk.change (memory : Memory) (c : Chunk) : Change → Step Chunk Nat
  | .add s => (c.add s).map id fun _ => 1
  | .upsert s policy position => c.upsert memory s policy position
  | .delete t position => (c.delete memory t position).map id fun _ => 1
  | .deleteRange range position => c.deleteRange memory range position

/-- The fault `e` is that memory was refused. -/
def ChunkError.OutOfMemory (e : ChunkError) : Prop :=
  ∃ shortage, e = .packing (.outOfMemory shortage)

/-- The fault `e` is that memory was refused, and `memory` does not grant all sizes up to the given
number of `bytes`. -/
structure Memory.Refuses (memory : Memory) (bytes : Nat) (e : ChunkError) : Prop where
  outOfMemory : e.OutOfMemory
  not_reaches : ¬memory.Reaches bytes

theorem Memory.Refuses.mono
    {memory : Memory} {bytes bytes' : Nat} {e : ChunkError} (h : memory.Refuses bytes e)
    (hle : bytes ≤ bytes') :
  memory.Refuses bytes' e
  := by
  use h.outOfMemory
  intro hreaches
  apply h.not_reaches (hreaches.mono hle)

namespace Change

/-- What a change that succeeds does to a timeline `l`, and the number that it answers. -/
inductive Acts (l : Timeline) : Change → Nat → Timeline → Prop where
  /-- A sample is added after all others. -/
  | add {s : Sample} (hlast : ∀ last ∈ l.last?, last < s.timestamp) :
      Acts l (.add s) 1 (l.put s)
  /-- A sample is inserted where there was none. -/
  | insert {s : Sample} {policy : DuplicatePolicy} {position : ChunkPosition}
      (hnone : l.valueAt? s.timestamp = none) : Acts l (.upsert s policy position) 1 (l.put s)
  /-- A sample is settled with the one at the same time. -/
  | resolve {s : Sample} {policy : DuplicatePolicy} {position : ChunkPosition}
      {existing value : Binary64} (hsome : l.valueAt? s.timestamp = some existing)
      (hresolve : policy.resolve? existing s.value = some value) :
      Acts l (.upsert s policy position) 0 (l.put ⟨s.timestamp, value⟩)
  /-- The sample at a time is removed. -/
  | delete {t : Timestamp} {position : ChunkPosition} {value : Binary64}
      (hsome : l.valueAt? t = some value) : Acts l (.delete t position) 1 (l.filter (· != t))
  /-- The samples in a range are removed. -/
  | deleteRange {range : TimeRange} {position : ChunkPosition} :
      Acts l (.deleteRange range position) (l.samples.countP (range.contains ·.timestamp))
        (l.filter (!range.contains ·))

/-- How a change of a chunk with the timeline `l` may fail; `declined` tells what the encoding adds
to this. -/
inductive Fails (declined : Change → ChunkError → Prop) (l : Timeline) :
    Change → ChunkError → Prop where
  | outOfOrder {s : Sample} {last : Timestamp} (hlast : l.last? = some last)
      (h : s.timestamp ≤ last) : Fails declined l (.add s) (.outOfOrder s.timestamp last)
  | duplicate {s : Sample} {policy : DuplicatePolicy} {position : ChunkPosition}
      {existing : Binary64} (hsome : l.valueAt? s.timestamp = some existing)
      (hresolve : policy.resolve? existing s.value = none) :
      Fails declined l (.upsert s policy position) (.duplicate s.timestamp existing s.value)
  | notFound {t : Timestamp} {position : ChunkPosition} (hnone : l.valueAt? t = none) :
      Fails declined l (.delete t position) (.notFound t)
  | declined {change : Change} {e : ChunkError} (h : declined change e) :
      Fails declined l change e

end Change

end TimeSeries
