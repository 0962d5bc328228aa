import TimeSeries.Proofs.Snapshot.Aggregators
import TimeSeries.Proofs.Snapshot.Chunks

/-!
# Snapshots of many objects

Chunks, aggregators and rules are saved one after the other and sealed.  When the snapshot
is opened and objects of the same kinds are loaded in the same order, each is what it was
when it was saved, and the loading of each reads its own frames and no others.
-/

namespace TimeSeries

/-- An object of a snapshot. -/
inductive Saved where
  | chunk (c : Chunk)
  | aggregator (a : Aggregator)
  | rule (r : Rule)
deriving DecidableEq

/-- The kinds of objects. -/
inductive SavedKind where
  | chunk
  | aggregator
  | rule
deriving DecidableEq

/-- Loads an object of a kind. -/
def SavedKind.load : SavedKind → Loading Saved
  | chunk => Saved.chunk <$> Chunk.load
  | aggregator => Saved.aggregator <$> Aggregator.load
  | rule => Saved.rule <$> Rule.load

namespace Saved

def kind : Saved → SavedKind
  | chunk _ => .chunk
  | aggregator _ => .aggregator
  | rule _ => .rule

def frames : Saved → List Frame
  | chunk c => c.frames
  | aggregator a => a.frames
  | rule r => r.frames

/-- The object can be in the memory of a machine: a chunk is `Chunk.Reachable`, and a word counts
the bytes of a chunk and of the name in a rule. -/
def Exists : Saved → Prop
  | chunk c => c.Reachable ∧ c.Fits
  | aggregator _ => True
  | rule r => (Text.toUtf8 r.destination).length < wordLimit

/-- Loading objects of the same kinds from the cursor gives the objects themselves.  Each reads its
own frames, and there is nothing behind the last one. -/
inductive Restored : List Saved → Cursor → Prop where
  | exhausted {cursor : Cursor} (h : cursor.exhausted = true) : Restored [] cursor
  | next {s : Saved} {saved : List Saved} {rest : List UInt8}
      (hload : s.kind.load ⟨encodeFrames s.frames ++ rest⟩ = .ok s ⟨rest⟩)
      (hrest : Restored saved ⟨rest⟩) :
      Restored (s :: saved) ⟨encodeFrames s.frames ++ rest⟩

/-- If `s` exists, it is what its frames load to. -/
theorem loads
    {s : Saved} (h : s.Exists) :
  Loads s.kind.load s.frames s
  := by
  cases s with
  | chunk c =>
    obtain ⟨hreachable, hfits⟩ := h
    obtain ⟨l, hl⟩ := hreachable.holds
    apply (hl.loads hfits).map
  | aggregator a => apply a.loads.map
  | rule r => apply (r.loads h).map

theorem restored_of_frames
    {saved : List Saved} (h : ∀ s ∈ saved, s.Exists) :
  Restored saved ⟨encodeFrames (saved.flatMap frames)⟩
  := by
  induction saved with
  | nil => apply Restored.exhausted rfl
  | cons s saved ih =>
    obtain ⟨hs, hlater⟩ := List.forall_mem_cons.mp h
    rw [List.flatMap_cons, encodeFrames_append]
    apply Restored.next
    · apply loads hs
    · apply ih hlater

/-- If all objects of `saved` exist, they come back as they were from one snapshot of all of
them. -/
theorem restored_of_seal
    {saved : List Saved} (h : ∀ s ∈ saved, s.Exists) :
  ∃ cursor, Cursor.ofSealed (sealFrames (saved.flatMap frames)) = .ok cursor
    ∧ Restored saved cursor
  := by
  use ⟨encodeFrames (saved.flatMap frames)⟩
  use ofSealed_sealBytes _
  apply restored_of_frames h

/-- A case of `restored_of_seal`: a chunk, an aggregator whose sum is not a number, and a rule with
an open bucket. -/
theorem restored_of_seal_three :
  let saved := [chunk ((Chunk.new .packed 64).change .ample (.add ⟨7, ⟨1⟩⟩)).after,
    aggregator (.average ⟨0x7ff8000000000001⟩ 2),
    rule ⟨"hourly", 3600, .new .range, some 7200, by decide, by decide⟩]
  (∀ s ∈ saved, s.Exists)
    ∧ ∃ cursor, Cursor.ofSealed (sealFrames (saved.flatMap frames)) = .ok cursor
      ∧ Restored saved cursor
  := by
  intro saved
  have hexists : ∀ s ∈ saved, s.Exists := by
    intro s hs
    simp only [saved, List.mem_cons, List.not_mem_nil, or_false] at hs
    rcases hs with rfl | rfl | rfl
    · use (Chunk.Reachable.new .packed 64).change .ample (.add ⟨7, ⟨1⟩⟩)
      show 8 * 64 < wordLimit
      decide
    · trivial
    · show 6 < wordLimit
      decide
  use hexists
  apply restored_of_seal hexists

end Saved

end TimeSeries
