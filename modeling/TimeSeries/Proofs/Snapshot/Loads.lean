import Mathlib.Tactic.Common
import TimeSeries.Packing.Buffer
import TimeSeries.Snapshot.Cursor

/-!
# What frames load to

`Loads m frames a` says that the loading `m` gives `a` where the next frames are the given
ones, and reads these frames and no byte more, whatever follows them.  The rules are those
of sequencing: what loads from one list of frames and then from another loads from both.
-/

namespace TimeSeries

variable {α β : Type}

/-- The loading gives `a` and reads just the given frames. -/
def Loads (m : Loading α) (frames : List Frame) (a : α) : Prop :=
  ∀ rest, m ⟨encodeFrames frames ++ rest⟩ = .ok a ⟨rest⟩

theorem encodeFrames_append
    (frames later : List Frame) :
  encodeFrames (frames ++ later) = encodeFrames frames ++ encodeFrames later
  := List.flatMap_append

variable {m : Loading α} {f : α → Loading β} {frames later : List Frame} {frame : Frame}
  {a : α} {b : β}

theorem Loads.pure
    (a : α) :
  Loads (Pure.pure a) [] a
  := by
  intro rest
  rfl

theorem Loads.bind
    (hm : Loads m frames a) (hf : Loads (f a) later b) :
  Loads (m >>= f) (frames ++ later) b
  := by
  intro rest
  simp only [Bind.bind, EStateM.bind]
  rw [encodeFrames_append, List.append_assoc, hm]
  apply hf

/-- If `m` reads the first `frame` and `f a` the `later` ones, both together read all of them. -/
theorem Loads.next
    (hm : Loads m [frame] a) (hf : Loads (f a) later b) :
  Loads (m >>= f) (frame :: later) b
  := hm.bind hf

/-- If `m` reads all `frames`, then `f a` reads nothing behind them. -/
theorem Loads.last
    (hm : Loads m frames a) (hf : Loads (f a) [] b) :
  Loads (m >>= f) frames b
  := by
  have hbind := hm.bind hf
  rwa [List.append_nil] at hbind

theorem Loads.map
    (hm : Loads m frames a) (g : α → β) :
  Loads (g <$> m) frames (g a)
  := by
  intro rest
  simp only [Functor.map, EStateM.map]
  rw [hm]

/-- If the check `c` does not fail, it reads nothing, and `next` reads what it would read alone. -/
theorem Loads.unless
    {c : Prop} [Decidable c] {e : SnapshotError} {next : PUnit → Loading β} (hc : ¬c)
    (hnext : Loads (next ⟨⟩) frames b) :
  Loads (if c then throw e >>= next else next ⟨⟩) frames b
  := by
  rwa [if_neg hc]

/-- If `frames` load to `a`, they load to nothing else. -/
theorem Loads.eq_of_ok
    (h : Loads m frames a) {rest : List UInt8} {a' : α} {cursor : Cursor}
    (hok : m ⟨encodeFrames frames ++ rest⟩ = .ok a' cursor) :
  a' = a ∧ cursor = ⟨rest⟩
  := by
  rw [h rest] at hok
  cases hok
  use rfl

/-! ### Single frames -/

theorem take_append
    (bytes rest : List UInt8) :
  Cursor.take bytes.length ⟨bytes ++ rest⟩ = .ok bytes ⟨rest⟩
  := by
  rw [Cursor.take, if_neg]
  · rw [List.take_left, List.drop_left]
  · dsimp only
    rw [List.length_append]
    omega

theorem takeWord_append
    (value : UInt64) (rest : List UInt8) :
  Cursor.takeWord ⟨wordBytes value ++ rest⟩ = .ok value ⟨rest⟩
  := by
  have htake := take_append (wordBytes value) rest
  rw [length_wordBytes] at htake
  simp only [Cursor.takeWord, Functor.map, EStateM.map]
  rw [htake]
  dsimp only
  rw [ofWordBytes_wordBytes]

theorem loads_readUnsigned
    (value : UInt64) :
  Loads Cursor.readUnsigned [.unsigned value] value
  := by
  intro rest
  have hframes : encodeFrames [.unsigned value] ++ rest = 1 :: (wordBytes value ++ rest) := by
    simp [encodeFrames, Frame.encode]
  rw [hframes]
  apply takeWord_append

theorem loads_readSigned
    (value : Int64) :
  Loads Cursor.readSigned [.signed value] value
  := by
  have hread := (loads_readUnsigned value.toUInt64).map UInt64.toInt64
  rwa [Int64.toInt64_toUInt64] at hread

theorem loads_readDouble
    (value : Binary64) :
  Loads Cursor.readDouble [.double value] value
  := (loads_readUnsigned value.bits).map Binary64.mk

theorem toNat_ofNat
    {n : Nat} (h : n < wordLimit) :
  (UInt64.ofNat n).toNat = n
  := UInt64.toNat_ofNat_of_lt h

/-- If a word measures `content`, it is read back. -/
theorem loads_readBytes
    {content : List UInt8} (h : content.length < wordLimit) :
  Loads Cursor.readBytes [.bytes content] content
  := by
  intro rest
  have hframes : encodeFrames [.bytes content] ++ rest
      = 2 :: (wordBytes (UInt64.ofNat content.length) ++ (content ++ rest)) := by
    simp [encodeFrames, Frame.encode]
  have hword := takeWord_append (UInt64.ofNat content.length) (content ++ rest)
  have henter (unread : List UInt8) : Cursor.enter .bytes ⟨2 :: unread⟩ = .ok () ⟨unread⟩ := rfl
  simp only [Cursor.readBytes, Bind.bind, EStateM.bind]
  rw [hframes, henter]
  dsimp only
  rw [hword]
  dsimp only
  rw [toNat_ofNat h]
  apply take_append

/-! ### Seals -/

/-- The sealed `bytes` open at their first one. -/
theorem ofSealed_sealBytes
    (bytes : List UInt8) :
  Cursor.ofSealed (sealBytes bytes) = .ok ⟨bytes⟩
  := by
  have hlength : (sealBytes bytes).length = bytes.length + wordSize := by
    rw [sealBytes, List.length_append, length_wordBytes]
  have htake : (sealBytes bytes).take bytes.length = bytes := List.take_left
  have hdrop : (sealBytes bytes).drop bytes.length = wordBytes (Checksum.ofBytes bytes) :=
    List.drop_left
  have hroom : ¬(sealBytes bytes).length < wordSize := by omega
  rw [Cursor.ofSealed, if_neg hroom, hlength, Nat.add_sub_cancel, htake, hdrop]
  dsimp only
  rw [ofWordBytes_wordBytes, if_pos rfl]

/-- If `frames` load to `a`, then `a` is loaded from the snapshot of `frames` alone. -/
theorem Loads.of_seal
    (h : Loads m frames a) :
  ∃ cursor, Cursor.ofSealed (sealFrames frames) = .ok cursor ∧ m cursor = .ok a ⟨[]⟩
  := by
  have hload := h []
  rw [List.append_nil] at hload
  use ⟨encodeFrames frames⟩, ofSealed_sealBytes _

/-- What opens at `cursor` is what was sealed of its bytes. -/
theorem ofSealed_eq_ok_iff
    (data : List UInt8) (cursor : Cursor) :
  Cursor.ofSealed data = .ok cursor ↔ data = sealBytes cursor.unread
  := by
  constructor
  · intro h
    rw [Cursor.ofSealed] at h
    split at h
    · cases h
    · rename_i hroom
      dsimp only at h
      split at h
      · rename_i hchecksum
        cases h
        have hlength : (data.drop (data.length - wordSize)).length = wordSize := by
          rw [List.length_drop]
          omega
        rw [sealBytes, ← hchecksum, wordBytes_ofWordBytes hlength, List.take_append_drop]
      · cases h
  · rintro rfl
    apply ofSealed_sealBytes

end TimeSeries
