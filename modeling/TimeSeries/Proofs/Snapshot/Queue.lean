import TimeSeries.Proofs.Gives
import TimeSeries.Proofs.Snapshot.Loads

/-!
# Snapshots as queues

To its reader a sealed snapshot is a queue of the values that were saved.  A number is saved
as the word of its bits, so that there are two kinds of frames only, and a read asks for a
value of a type.  Where the kind of the type is that of the next frame, the value is given
and the frame is gone; where it is not, the read fails and the frame stays.  In the other
direction, what is read to the end and saved again is what was there before.
-/

namespace TimeSeries

/-- A value that is saved as one frame. -/
inductive Item where
  | unsigned (value : UInt64)
  | signed (value : Int64)
  | double (value : Binary64)
  | bytes (content : List UInt8)
deriving DecidableEq

/-- The types of values that can be saved and read. -/
inductive ItemType where
  | unsigned
  | signed
  | double
  | bytes
deriving DecidableEq

namespace ItemType

/-- The kind of the frames for a type. -/
def kind : ItemType → FrameKind
  | unsigned | signed | double => .unsigned
  | bytes => .bytes

/-- Reads a value of this type. -/
def read : ItemType → Loading Item
  | unsigned => Item.unsigned <$> Cursor.readUnsigned
  | signed => Item.signed <$> Cursor.readSigned
  | double => Item.double <$> Cursor.readDouble
  | bytes => Item.bytes <$> Cursor.readBytes

end ItemType

namespace Item

def type : Item → ItemType
  | unsigned _ => .unsigned
  | signed _ => .signed
  | double _ => .double
  | bytes _ => .bytes

/-- The frame that the value is saved as. -/
def frame : Item → Frame
  | unsigned value => .unsigned value
  | signed value => .signed value
  | double value => .double value
  | bytes content => .bytes content

/-- A word counts the bytes of the value. -/
def Fits : Item → Prop
  | unsigned _ | signed _ | double _ => True
  | bytes content => content.length < wordLimit

/-- What a queue of values answers when a value of a type is asked for, and what is left of it. -/
inductive Answers : List Item → ItemType → Except SnapshotError Item → List Item → Prop where
  /-- The bits of the next value are given, and it is gone.  They are the value itself where it
  is read as it was saved, and a number of another type where it is read as that. -/
  | taken {item value : Item} {later : List Item} (hframe : value.frame = item.frame)
      (hvalue : value.type = item.type → value = item) :
      Answers (item :: later) value.type (.ok value) later
  /-- The next value is of the other kind, and stays. -/
  | mismatched {item : Item} {type : ItemType} {later : List Item}
      (hkind : type.kind ≠ item.type.kind) :
      Answers (item :: later) type (.error (.typeMismatch type.kind item.type.kind))
        (item :: later)
  /-- No value is left. -/
  | ended {type : ItemType} : Answers [] type (.error .unexpectedEnd) []

end Item

namespace Cursor

/-- What a read of `type` answers, and the cursor behind it. -/
def ask (cursor : Cursor) (type : ItemType) : Except SnapshotError Item × Cursor :=
  match type.read cursor with
  | .ok item cursor => (.ok item, cursor)
  | .error e cursor => (.error e, cursor)

/-- Asked for values one after the other, the cursor gives the answers of the queue.  At every point
it is exhausted when no value is left, and not before. -/
inductive Serves : Cursor → List Item → List ItemType → Prop where
  | stop {cursor : Cursor} {items : List Item} (hend : cursor.exhausted = true ↔ items = []) :
      Serves cursor items []
  | next {cursor : Cursor} {items left : List Item} {type : ItemType} {types : List ItemType}
      (hend : cursor.exhausted = true ↔ items = [])
      (hanswers : Item.Answers items type (cursor.ask type).1 left)
      (hserves : Serves (cursor.ask type).2 left types) : Serves cursor items (type :: types)

/-- Reads one after the other give the values, and the cursor is exhausted then. -/
inductive ReadsOut : Cursor → List Item → Prop where
  | stop {cursor : Cursor} (hend : cursor.exhausted = true) : ReadsOut cursor []
  | next {cursor later : Cursor} {type : ItemType} {item : Item} {items : List Item}
      (hread : type.read cursor = .ok item later) (hreads : ReadsOut later items) :
      ReadsOut cursor (item :: items)

end Cursor

/-! ### Reading what was saved -/

namespace Item

variable {item : Item} {type : ItemType}

/-- If a word counts its bytes, `item` is what its frame is read as. -/
theorem loads
    (h : item.Fits) :
  Loads item.type.read [item.frame] item
  := by
  cases item with
  | unsigned value => apply (loads_readUnsigned value).map
  | signed value => apply (loads_readSigned value).map
  | double value => apply (loads_readDouble value).map
  | bytes content => apply (loads_readBytes h).map

/-- If `value` and `item` have the same frame and the same type, they are equal. -/
theorem eq_of_frame_eq
    {value : Item} (hframe : value.frame = item.frame) (htype : value.type = item.type) :
  value = item
  := by
  cases value with
  | unsigned value =>
    cases item <;> cases htype
    cases hframe
    rfl
  | signed value =>
    cases item <;> cases htype
    rw [← Int64.toInt64_toUInt64 value, Frame.unsigned.inj hframe, Int64.toInt64_toUInt64]
  | double value =>
    cases item <;> cases htype
    cases value
    cases hframe
    rfl
  | bytes content =>
    cases item <;> cases htype
    cases hframe
    rfl

/-- If the frames of `type` hold words, any `word` is the frame of a value of `type`. -/
theorem exists_frame_eq_unsigned
    (hkind : type.kind = .unsigned) (word : UInt64) :
  ∃ value : Item, value.type = type ∧ value.frame = .unsigned word ∧ value.Fits
  := by
  cases type with
  | unsigned => exact ⟨.unsigned word, rfl, rfl, trivial⟩
  | signed =>
    use .signed word.toInt64, rfl
    constructor
    · rw [frame, Frame.signed, UInt64.toUInt64_toInt64]
    · trivial
  | double => exact ⟨.double ⟨word⟩, rfl, rfl, trivial⟩
  | bytes => cases hkind

/-- If `type` has the frames of the type of `item`, a value of `type` has the frame of `item`. -/
theorem exists_frame_eq
    (h : item.Fits) (hkind : type.kind = item.type.kind) :
  ∃ value : Item, value.type = type ∧ value.frame = item.frame ∧ value.Fits
  := by
  cases item with
  | bytes content =>
    cases type with
    | bytes => use .bytes content, rfl, rfl, h
    | unsigned | signed | double => cases hkind
  | unsigned value => apply exists_frame_eq_unsigned hkind
  | signed value => apply exists_frame_eq_unsigned hkind
  | double value => apply exists_frame_eq_unsigned hkind

/-- The frame of `item` begins with a tag of its kind. -/
theorem exists_encode_eq
    (item : Item) :
  ∃ tag bytes, FrameKind.ofTag tag = item.type.kind ∧ item.frame.encode = tag :: bytes
  := by
  cases item with
  | bytes content => exact ⟨2, wordBytes (UInt64.ofNat content.length) ++ content, rfl, rfl⟩
  | unsigned value => exact ⟨1, wordBytes value, rfl, rfl⟩
  | signed value => exact ⟨1, wordBytes value.toUInt64, rfl, rfl⟩
  | double value => exact ⟨1, wordBytes value.bits, rfl, rfl⟩

/-- If a frame for `type` is not entered, no value of `type` is read. -/
theorem read_eq_error
    {cursor : Cursor} {e : SnapshotError}
    (h : Cursor.enter type.kind cursor = .error e cursor) :
  type.read cursor = .error e cursor
  := by
  cases type with
  | bytes =>
    have h : Cursor.enter .bytes cursor = .error e cursor := h
    simp only [ItemType.read, Cursor.readBytes, Functor.map, EStateM.map, Bind.bind,
      EStateM.bind, h]
  | unsigned | signed | double =>
    have h : Cursor.enter .unsigned cursor = .error e cursor := h
    simp only [ItemType.read, Cursor.readUnsigned, Cursor.readSigned, Cursor.readDouble,
      Functor.map, EStateM.map, Bind.bind, EStateM.bind, h]

/-- If `type` has another kind of frames than `item`, a read names both kinds and leaves the cursor
where it was. -/
theorem read_eq_typeMismatch
    (hkind : type.kind ≠ item.type.kind) (rest : List UInt8) :
  type.read ⟨item.frame.encode ++ rest⟩
    = .error (.typeMismatch type.kind item.type.kind) ⟨item.frame.encode ++ rest⟩
  := by
  obtain ⟨tag, bytes, htag, hencode⟩ := item.exists_encode_eq
  apply read_eq_error
  rw [hencode, List.cons_append, Cursor.enter]
  dsimp only
  rw [htag, if_neg hkind.symm]

/-- Behind the last frame a read of any `type` fails. -/
theorem read_eq_unexpectedEnd
    (type : ItemType) :
  type.read ⟨[]⟩ = .error .unexpectedEnd ⟨[]⟩
  := read_eq_error rfl

end Item

/-! ### Runs of reads -/

namespace Cursor

/-- The cursor before the frames of `items`. -/
def before (items : List Item) : Cursor := ⟨encodeFrames (items.map Item.frame)⟩

variable {items : List Item}

theorem exhausted_before_iff
    (items : List Item) :
  (before items).exhausted = true ↔ items = []
  := by
  cases items with
  | nil => apply iff_of_true rfl rfl
  | cons item items =>
    obtain ⟨tag, bytes, _, hencode⟩ := item.exists_encode_eq
    simp [before, exhausted, encodeFrames, hencode]

/-- One read: the cursor before `items` answers as the queue, and stands before what is left. -/
theorem exists_answers
    (h : ∀ item ∈ items, item.Fits) (type : ItemType) :
  ∃ left, Item.Answers items type ((before items).ask type).1 left
    ∧ ((before items).ask type).2 = before left ∧ ∀ item ∈ left, item.Fits
  := by
  cases items with
  | nil =>
    have hread : type.read (before []) = .error .unexpectedEnd (before []) :=
      Item.read_eq_unexpectedEnd type
    use []
    rw [ask, hread]
    use .ended, rfl, h
  | cons item later =>
    obtain ⟨hitem, hlater⟩ := List.forall_mem_cons.mp h
    have hbefore : before (item :: later)
        = ⟨item.frame.encode ++ encodeFrames (later.map Item.frame)⟩ := rfl
    by_cases hkind : type.kind = item.type.kind
    · obtain ⟨value, rfl, hframe, hvalue⟩ := Item.exists_frame_eq hitem hkind
      have hread := Item.loads hvalue (encodeFrames (later.map Item.frame))
      have hencode : encodeFrames [item.frame] = item.frame.encode := List.append_nil _
      rw [hframe, hencode, ← hbefore] at hread
      use later
      rw [ask, hread]
      use .taken hframe (Item.eq_of_frame_eq hframe), rfl, hlater
    · have hread := Item.read_eq_typeMismatch hkind (encodeFrames (later.map Item.frame))
      rw [← hbefore] at hread
      use item :: later
      rw [ask, hread]
      use .mismatched hkind, rfl, h

theorem serves_before
    (h : ∀ item ∈ items, item.Fits) (types : List ItemType) :
  (before items).Serves items types
  := by
  induction types generalizing items with
  | nil => apply Serves.stop (exhausted_before_iff items)
  | cons type types ih =>
    obtain ⟨left, hanswers, hcursor, hleft⟩ := exists_answers h type
    apply Serves.next (exhausted_before_iff items) hanswers
    rw [hcursor]
    apply ih hleft

end Cursor

/-! ### Saving what was read -/

/-- Whatever `m` gives, the frame it went past is that of what it gave. -/
def Restores {α : Type} (m : Loading α) (frame : α → Frame) : Prop :=
  ∀ (cursor later : Cursor) (a : α), m cursor = .ok a later →
    cursor.unread = (frame a).encode ++ later.unread

theorem Restores.map
    {α β : Type} {m : Loading α} {frame : α → Frame} {frame' : β → Frame} (hm : Restores m frame)
    (f : α → β) (hf : ∀ a, frame' (f a) = frame a) :
  Restores (f <$> m) frame'
  := by
  intro cursor later b h
  obtain ⟨a, hread, rfl⟩ := exists_of_map_eq_ok h
  rw [hf]
  apply hm cursor later a hread

theorem enter_eq_ok
    {kind : FrameKind} {cursor later : Cursor} (h : Cursor.enter kind cursor = .ok () later) :
  ∃ tag, FrameKind.ofTag tag = kind ∧ cursor.unread = tag :: later.unread
  := by
  rw [Cursor.enter] at h
  split at h
  · cases h
  · rename_i tag unread hunread
    dsimp only at h
    split at h
    · rename_i htag
      cases h
      use tag
    · cases h

/-- Each kind that can be asked for has one `tag`. -/
theorem eq_of_ofTag_eq
    {tag : UInt8} :
  (FrameKind.ofTag tag = .unsigned → tag = 1) ∧ (FrameKind.ofTag tag = .bytes → tag = 2)
  := by
  rw [FrameKind.ofTag]
  split
  · simp_all
  · split <;> simp_all

theorem take_eq_ok
    {count : Nat} {cursor later : Cursor} {bytes : List UInt8}
    (h : Cursor.take count cursor = .ok bytes later) :
  cursor.unread = bytes ++ later.unread ∧ bytes.length = count
  := by
  rw [Cursor.take] at h
  split at h
  · cases h
  · rename_i hroom
    cases h
    constructor
    · rw [List.take_append_drop]
    · rw [List.length_take]
      omega

theorem takeWord_eq_ok
    {cursor later : Cursor} {word : UInt64} (h : Cursor.takeWord cursor = .ok word later) :
  cursor.unread = wordBytes word ++ later.unread
  := by
  obtain ⟨bytes, htake, rfl⟩ := exists_of_map_eq_ok h
  obtain ⟨hunread, hlength⟩ := take_eq_ok htake
  rw [wordBytes_ofWordBytes hlength, hunread]

theorem restores_readUnsigned :
  Restores Cursor.readUnsigned Frame.unsigned
  := by
  intro cursor later word h
  obtain ⟨_, entered, henter, hword⟩ := exists_of_bind_eq_ok h
  obtain ⟨tag, htag, hunread⟩ := enter_eq_ok henter
  rw [hunread, takeWord_eq_ok hword, eq_of_ofTag_eq.1 htag]
  rfl

theorem restores_readBytes :
  Restores Cursor.readBytes Frame.bytes
  := by
  intro cursor later content h
  obtain ⟨_, entered, henter, h⟩ := exists_of_bind_eq_ok h
  obtain ⟨length, measured, hlength, htake⟩ := exists_of_bind_eq_ok h
  obtain ⟨tag, htag, hunread⟩ := enter_eq_ok henter
  obtain ⟨hcontent, hcount⟩ := take_eq_ok htake
  have hword : UInt64.ofNat content.length = length := by
    rw [hcount, UInt64.ofNat_toNat]
  rw [hunread, takeWord_eq_ok hlength, hcontent, eq_of_ofTag_eq.2 htag, Frame.encode, hword,
    List.cons_append, List.append_assoc]

/-- The frame of a value that was read as `type` is the one it was read from. -/
theorem Item.restores_read
    (type : ItemType) :
  Restores type.read Item.frame
  := by
  cases type with
  | unsigned => apply restores_readUnsigned.map Item.unsigned fun _ => rfl
  | signed =>
    have hsigned : Restores Cursor.readSigned Frame.signed := by
      apply restores_readUnsigned.map
      intro word
      rw [Frame.signed, UInt64.toUInt64_toInt64]
    apply hsigned.map Item.signed fun _ => rfl
  | double =>
    have hdouble : Restores Cursor.readDouble Frame.double :=
      restores_readUnsigned.map _ fun _ => rfl
    apply hdouble.map Item.double fun _ => rfl
  | bytes => apply restores_readBytes.map Item.bytes fun _ => rfl

theorem Cursor.ReadsOut.unread_eq
    {cursor : Cursor} {items : List Item} (h : cursor.ReadsOut items) :
  cursor.unread = encodeFrames (items.map Item.frame)
  := by
  induction h with
  | stop hend => apply List.isEmpty_iff.mp hend
  | next hread _ ih =>
    rw [Item.restores_read _ _ _ _ hread, ih]
    rfl

/-! ### Queues -/

/-- Any snapshot of `items` serves them in the order in which they were saved, whatever `types` are
asked for; and what was read out of a snapshot seals to that snapshot again. -/
theorem Item.serves_of_seal_and_seal_of_readsOut :
  (∀ items : List Item, (∀ item ∈ items, item.Fits) →
    ∃ cursor, Cursor.ofSealed (sealFrames (items.map frame)) = .ok cursor
      ∧ ∀ types, cursor.Serves items types)
    ∧ ∀ (data : List UInt8) (cursor : Cursor) (items : List Item),
      Cursor.ofSealed data = .ok cursor → cursor.ReadsOut items →
        sealFrames (items.map frame) = data
  := by
  constructor
  · intro items hfits
    use Cursor.before items
    use ofSealed_sealBytes _
    apply Cursor.serves_before hfits
  · intro data cursor items hopen hreads
    rw [(ofSealed_eq_ok_iff data cursor).mp hopen, hreads.unread_eq]
    rfl

/-- A case of the theorem above, `serves_of_seal_and_seal_of_readsOut`: four values, asked for out
of turn twice and once too often; and two bytes read out of their frame. -/
theorem Item.serves_of_seal_four :
  let items := [signed (-5), bytes [1, 2], double ⟨0x7ff8000000000001⟩, bytes []]
  let data := sealBytes [2, 2, 0, 0, 0, 0, 0, 0, 0, 1, 2]
  (∃ cursor, Cursor.ofSealed (sealFrames (items.map frame)) = .ok cursor
    ∧ cursor.Serves items [.bytes, .signed, .double, .bytes, .unsigned, .bytes, .bytes])
    ∧ sealFrames ([bytes [1, 2]].map frame) = data
  := by
  intro items data
  have hfits : ∀ item ∈ items, item.Fits := by
    intro item hitem
    simp only [items, List.mem_cons, List.not_mem_nil, or_false] at hitem
    rcases hitem with rfl | rfl | rfl | rfl
    · trivial
    · show 2 < wordLimit
      decide
    · trivial
    · show 0 < wordLimit
      decide
  have hreads : Cursor.ReadsOut ⟨[2, 2, 0, 0, 0, 0, 0, 0, 0, 1, 2]⟩ [bytes [1, 2]] := by
    have hread : ItemType.bytes.read ⟨[2, 2, 0, 0, 0, 0, 0, 0, 0, 1, 2]⟩
        = .ok (bytes [1, 2]) ⟨[]⟩ := rfl
    apply Cursor.ReadsOut.next hread
    apply Cursor.ReadsOut.stop rfl
  constructor
  · obtain ⟨cursor, hopen, hserves⟩ := serves_of_seal_and_seal_of_readsOut.1 items hfits
    use cursor, hopen, hserves _
  · apply serves_of_seal_and_seal_of_readsOut.2 data _ _ (ofSealed_sealBytes _) hreads

end TimeSeries
