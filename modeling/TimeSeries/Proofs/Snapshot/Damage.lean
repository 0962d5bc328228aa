import Mathlib.Data.Finset.Sort
import TimeSeries.Proofs.Checksum
import TimeSeries.Proofs.Snapshot.Loads

/-!
# Damaged snapshots

A sealed snapshot in which bits were flipped does not open, provided that the bits are in its
payload and within 64 places of each other, or that they are all in its seal.  For if it did,
it would be sealed, and two sealed snapshots that differ by no more than that are the same.
-/

namespace TimeSeries

/-! ### Flipped bits -/

/-- The `bytes` with the bit at `place` flipped. -/
def flipBit (bytes : Array UInt8) (place : Nat) : Array UInt8 :=
  setBit bytes place (!bitAt bytes place)

/-- The `bytes` with the bits at `places` flipped. -/
def flipBits (bytes : List UInt8) (places : Finset Nat) : List UInt8 :=
  (places.sort.foldl flipBit bytes.toArray).toList

theorem size_foldl_flipBit
    (places : List Nat) (bytes : Array UInt8) :
  (places.foldl flipBit bytes).size = bytes.size
  := by
  induction places generalizing bytes with
  | nil => rfl
  | cons place places ih => rw [List.foldl_cons, ih, flipBit, size_setBit]

/-- If no place is listed twice, exactly the bits at `places` are flipped. -/
theorem bitAt_foldl_flipBit
    {places : List Nat} (hnodup : places.Nodup) {bytes : Array UInt8}
    (hplaces : ∀ place ∈ places, place < 8 * bytes.size) (i : Nat) :
  bitAt (places.foldl flipBit bytes) i = (bitAt bytes i ^^ decide (i ∈ places))
  := by
  induction places generalizing bytes with
  | nil => simp
  | cons place places ih =>
    obtain ⟨hplace, hlater⟩ := List.forall_mem_cons.mp hplaces
    obtain ⟨hmem, hnodup⟩ := List.nodup_cons.mp hnodup
    have hsize : (flipBit bytes place).size = bytes.size := size_setBit _ _ _
    rw [List.foldl_cons, ih hnodup (by rwa [hsize]), flipBit, bitAt_setBit hplace]
    by_cases hi : place = i
    · subst hi
      simp [hmem]
    · simp [hi, Ne.symm hi]

theorem length_flipBits
    (bytes : List UInt8) (places : Finset Nat) :
  (flipBits bytes places).length = bytes.length
  := by
  rw [flipBits, Array.length_toList, size_foldl_flipBit, List.size_toArray]

/-- The bits at `places` are not those of `bytes`, and all others are. -/
theorem bitAt_ne_flipBits_iff
    {bytes : List UInt8} {places : Finset Nat} (hplaces : ∀ i ∈ places, i < 8 * bytes.length)
    (i : Nat) :
  bitAt bytes.toArray i ≠ bitAt (flipBits bytes places).toArray i ↔ i ∈ places
  := by
  have hsort : ∀ i ∈ places.sort, i < 8 * bytes.toArray.size := by
    intro i hi
    apply hplaces i ((places.mem_sort _).mp hi)
  rw [flipBits, Array.toArray_toList, bitAt_foldl_flipBit (places.sort_nodup _) hsort]
  by_cases hi : i ∈ places <;> simp [hi]

/-! ### Damage -/

/-- The `places`, in a sealed snapshot with a payload of `size` bytes, are in the payload and within
64 of each other, or all in the seal. -/
inductive Confined (size : Nat) (places : Set Nat) : Prop where
  | payload (start : Nat) (h : ∀ i ∈ places, start ≤ i ∧ i < start + 64 ∧ i < 8 * size)
  | trailer (h : ∀ i ∈ places, 8 * size ≤ i ∧ i < 8 * (size + wordSize))

/-- The places at which `bytes` and `bytes'` do not have the same bit. -/
def differences (bytes bytes' : List UInt8) : Set Nat :=
  {i | bitAt bytes.toArray i ≠ bitAt bytes'.toArray i}

section Differences

variable {first second first' second' : List UInt8}

theorem bitAt_toArray_append
    (first second : List UInt8) (i : Nat) :
  bitAt (first ++ second).toArray i
    = if i < 8 * first.length then bitAt first.toArray i
      else bitAt second.toArray (i - 8 * first.length)
  := by
  rw [← List.append_toArray, bitAt_append, List.size_toArray]

/-- If `first` and `first'` differ at `i`, so do the whole byte strings. -/
theorem mem_differences_append_left
    (hlength : first.length = first'.length) {i : Nat} (h : i ∈ differences first first') :
  i < 8 * first.length ∧ i ∈ differences (first ++ second) (first' ++ second')
  := by
  have hi : i < 8 * first.length := by
    by_contra hbeyond
    apply h
    rw [bitAt_eq_false (Nat.le_of_not_lt hbeyond), bitAt_eq_false]
    rw [List.size_toArray, ← hlength]
    omega
  use hi
  rw [differences, Set.mem_ofPred_eq, bitAt_toArray_append, bitAt_toArray_append, ← hlength,
    if_pos hi, if_pos hi]
  apply h

/-- If `second` and `second'` differ at `i`, so do the whole byte strings, behind the first
parts. -/
theorem mem_differences_append_right
    (hlength : first.length = first'.length) {i : Nat} (h : i ∈ differences second second') :
  8 * first.length + i ∈ differences (first ++ second) (first' ++ second')
  := by
  have hplace : 8 * first.length + i - 8 * first.length = i := by omega
  have hbeyond : ¬8 * first.length + i < 8 * first.length := by omega
  rw [differences, Set.mem_ofPred_eq, bitAt_toArray_append, bitAt_toArray_append, ← hlength,
    if_neg hbeyond, if_neg hbeyond, hplace]
  apply h

/-- If `old` is replaced by `new`, which has its size, the differences are in that part. -/
theorem mem_of_mem_differences
    {before old new after : List UInt8} (hlength : new.length = old.length) {i : Nat}
    (h : i ∈ differences (before ++ (old ++ after)) (before ++ (new ++ after))) :
  8 * before.length ≤ i ∧ i < 8 * (before.length + old.length)
  := by
  by_contra hout
  apply h
  rw [bitAt_toArray_append, bitAt_toArray_append, bitAt_toArray_append, bitAt_toArray_append,
    hlength]
  split
  · rfl
  · rw [if_neg (by omega), if_neg (by omega)]

theorem eq_of_differences_eq_empty
    (hlength : first.length = first'.length) (h : ∀ i, i ∉ differences first first') :
  first = first'
  := by
  have hbytes : first.toArray = first'.toArray := by
    apply eq_of_bitAt_eq hlength
    intro i
    apply not_not.mp (h i)
  apply congrArg Array.toList hbytes

end Differences

theorem length_sealBytes
    (payload : List UInt8) :
  (sealBytes payload).length = payload.length + wordSize
  := by
  rw [sealBytes, List.length_append, length_wordBytes]

/-- If the differences of two sealed snapshots are confined, `payload` and `payload'` are the
same. -/
theorem eq_of_confined
    {payload payload' : List UInt8} (hlength : payload.length = payload'.length)
    (h : Confined payload.length (differences (sealBytes payload) (sealBytes payload'))) :
  payload = payload'
  := by
  cases h with
  | payload start h =>
    have htrailer : wordBytes (Checksum.ofBytes payload)
        = wordBytes (Checksum.ofBytes payload') := by
      apply eq_of_differences_eq_empty
      · rw [length_wordBytes, length_wordBytes]
      · intro i hi
        have := h _ (mem_differences_append_right hlength hi)
        omega
    have hchecksum := congrArg ofWordBytes htrailer
    rw [ofWordBytes_wordBytes, ofWordBytes_wordBytes] at hchecksum
    apply Checksum.eq_of_ofBytes_eq hlength start _ hchecksum
    intro i hi
    obtain ⟨hstart, hend, _⟩ := h i (mem_differences_append_left hlength hi).2
    use hstart
  | trailer h =>
    apply eq_of_differences_eq_empty hlength
    intro i hi
    obtain ⟨hlt, hmem⟩ := mem_differences_append_left hlength hi
    have := h i hmem
    omega

namespace Cursor

/-- Opening `data` fails because its checksum is not the right one. -/
def Refuses (data : List UInt8) : Prop :=
  ∃ expected actual, ofSealed data = .error (.checksumMismatch expected actual)

/-- If `data` is long enough for a seal but is not sealed, it is refused. -/
theorem refuses_of_ne
    {data : List UInt8} (hlength : wordSize ≤ data.length)
    (h : ∀ payload, data ≠ sealBytes payload) :
  Refuses data
  := by
  cases hopen : ofSealed data with
  | ok cursor =>
    exfalso
    apply h cursor.unread ((ofSealed_eq_ok_iff _ _).mp hopen)
  | error e =>
    have herror := hopen
    rw [ofSealed, if_neg (Nat.not_lt.mpr hlength)] at herror
    dsimp only at herror
    split at herror
    · cases herror
    · cases herror
      exact ⟨_, _, hopen⟩

/-- If `data` differs from a sealed snapshot and the damage is confined, it is refused. -/
theorem refuses_of_confined
    {payload data : List UInt8} (hlength : data.length = (sealBytes payload).length)
    (hne : data ≠ sealBytes payload)
    (hconfined : Confined payload.length (differences (sealBytes payload) data)) :
  Refuses data
  := by
  rw [length_sealBytes] at hlength
  apply refuses_of_ne
  · omega
  · rintro payload' rfl
    rw [length_sealBytes] at hlength
    apply hne
    rw [eq_of_confined (by omega) hconfined]

theorem refuses_flipBits
    {payload : List UInt8} {places : Finset Nat} (hplaces : places.Nonempty)
    (hconfined : Confined payload.length places) :
  Refuses (flipBits (sealBytes payload) places)
  := by
  have hlength : ∀ i ∈ places, i < 8 * (sealBytes payload).length := by
    intro i hi
    rw [length_sealBytes]
    cases hconfined with
    | payload start h =>
      have := h i hi
      omega
    | trailer h => apply (h i hi).2
  have hdifferences : differences (sealBytes payload) (flipBits (sealBytes payload) places)
      = places := by
    ext i
    apply bitAt_ne_flipBits_iff hlength
  apply refuses_of_confined (length_flipBits _ _)
  · intro heq
    obtain ⟨i, hi⟩ := hplaces
    apply (bitAt_ne_flipBits_iff hlength i).mpr hi
    rw [heq]
  · rwa [hdifferences]

/-- A single `place` is confined. -/
theorem confined_singleton
    {size place : Nat} (h : place < 8 * (size + wordSize)) :
  Confined size {place}
  := by
  by_cases hpayload : place < 8 * size
  · apply Confined.payload place
    rintro i rfl
    omega
  · apply Confined.trailer
    rintro i rfl
    omega

/-- If `old` is at most eight bytes long and is replaced by another `new` of its size, the snapshot
is refused. -/
theorem refuses_replaced
    {before old new after : List UInt8} (hlength : new.length = old.length)
    (hle : old.length ≤ 8) (hne : new ≠ old) :
  Refuses (before ++ (new ++ after) ++ wordBytes (Checksum.ofBytes (before ++ (old ++ after))))
  := by
  apply @refuses_of_confined (before ++ (old ++ after))
  · simp only [sealBytes, List.length_append, hlength]
  · intro heq
    apply hne
    apply List.append_cancel_right (List.append_cancel_left (List.append_cancel_right heq))
  · apply Confined.payload (8 * before.length)
    intro i hi
    rw [sealBytes, List.append_assoc, List.append_assoc, List.append_assoc, List.append_assoc] at hi
    obtain ⟨hstart, hend⟩ := mem_of_mem_differences hlength hi
    rw [List.length_append, List.length_append]
    omega

/-- If bits of the sealed `payload` are flipped, within 64 places of the payload or within the seal,
the snapshot is refused; so it is for a single bit, wherever that is, and for a change of up to
eight bytes of the payload in a row. -/
theorem refuses_damage
    (payload : List UInt8) :
  (∀ places : Finset Nat, places.Nonempty → Confined payload.length places →
      Refuses (flipBits (sealBytes payload) places))
    ∧ (∀ place < 8 * (sealBytes payload).length, Refuses (flipBits (sealBytes payload) {place}))
    ∧ ∀ before old new after : List UInt8, payload = before ++ (old ++ after) →
      new.length = old.length → old.length ≤ 8 → new ≠ old →
        Refuses (before ++ (new ++ after) ++ wordBytes (Checksum.ofBytes payload))
  := by
  constructor
  · intro places hplaces hconfined
    apply refuses_flipBits hplaces hconfined
  · constructor
    · intro place hplace
      rw [length_sealBytes] at hplace
      apply refuses_flipBits (Finset.singleton_nonempty place)
      rw [Finset.coe_singleton]
      apply confined_singleton hplace
    · rintro before old new after rfl hlength hle hne
      apply refuses_replaced hlength hle hne

/-- A case of `refuses_damage`: one number, with its first bit and its last one flipped, with the
last bit of the seal flipped, and with a byte of the number replaced. -/
theorem refuses_damage_of_number :
  let payload := encodeFrames [.unsigned 7]
  let places : Finset Nat := {8, 71}
  (places.Nonempty ∧ Confined payload.length places
      ∧ Refuses (flipBits (sealBytes payload) places))
    ∧ Refuses (flipBits (sealBytes payload) {135})
    ∧ Refuses ([1] ++ ([9] ++ [0, 0, 0, 0, 0, 0, 0]) ++ wordBytes (Checksum.ofBytes payload))
  := by
  intro payload places
  have hplaces : places.Nonempty := ⟨8, by decide⟩
  have hconfined : Confined payload.length places := by
    apply Confined.payload 8
    intro i hi
    rcases Finset.mem_insert.mp hi with rfl | hi
    · decide
    · obtain rfl := Finset.mem_singleton.mp hi
      decide
  obtain ⟨hflips, hsingle, hreplaced⟩ := refuses_damage payload
  use ⟨hplaces, hconfined, hflips places hplaces hconfined⟩, hsingle 135 (by decide)
  apply hreplaced [1] [7] [9] _ rfl rfl (by decide) (by decide)

end Cursor

end TimeSeries
