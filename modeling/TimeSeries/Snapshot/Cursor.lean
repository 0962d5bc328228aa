import TimeSeries.Snapshot.Error
import TimeSeries.Snapshot.Frame

/-!
# Reading snapshots

A cursor goes through the frames of a snapshot whose checksum was found right.  A
`Loading` is a computation that moves a cursor.  It ends in a result or a fault,
and in both cases the cursor stays where it got to: asking for a frame of the wrong
kind leaves it where it was, while a frame that is cut short has been entered.
-/

namespace TimeSeries

/-- A place in a snapshot: the bytes `unread` behind it. -/
structure Cursor where
  unread : List UInt8
deriving DecidableEq

/-- A computation that moves a cursor.  It keeps the place that it reached, also when it fails. -/
abbrev Loading := EStateM SnapshotError Cursor

/-- The kind of frame that the byte `tag` marks. -/
def FrameKind.ofTag (tag : UInt8) : FrameKind :=
  if tag = 1 then .unsigned else if tag = 2 then .bytes else .unknown

namespace Cursor

/-- A cursor at the start of the sealed snapshot `data`, unless its checksum is not that of the
bytes before it. -/
def ofSealed (data : List UInt8) : Except SnapshotError Cursor :=
  if data.length < wordSize then .error .unexpectedEnd
  else
    let payload := data.take (data.length - wordSize)
    let expected := ofWordBytes (data.drop (data.length - wordSize))
    let actual := Checksum.ofBytes payload
    if expected = actual then .ok ⟨payload⟩ else .error (.checksumMismatch expected actual)

/-- Is every frame behind `c` read? -/
def exhausted (c : Cursor) : Bool := c.unread.isEmpty

/-- Enters a frame, which has to be of the given `kind`.  A frame of another kind is not entered. -/
def enter (kind : FrameKind) : Loading Unit := fun c =>
  match c.unread with
  | [] => .error .unexpectedEnd c
  | tag :: unread =>
    let found := FrameKind.ofTag tag
    if found = kind then .ok () ⟨unread⟩ else .error (.typeMismatch kind found) c

/-- Takes the next `count` bytes, or fails and takes none if there are fewer. -/
def take (count : Nat) : Loading (List UInt8) := fun c =>
  if c.unread.length < count then .error .unexpectedEnd c
  else .ok (c.unread.take count) ⟨c.unread.drop count⟩

/-- Takes the eight bytes of a word. -/
def takeWord : Loading UInt64 := ofWordBytes <$> take wordSize

/-- Reads a frame that `Frame.unsigned` writes. -/
def readUnsigned : Loading UInt64 := do
  enter .unsigned
  takeWord

/-- Reads a frame that `Frame.bytes` writes. -/
def readBytes : Loading (List UInt8) := do
  enter .bytes
  let length ← takeWord
  take length.toNat

/-- Reads a frame that `Frame.signed` writes. -/
def readSigned : Loading Int64 := UInt64.toInt64 <$> readUnsigned

/-- Reads a frame that `Frame.double` writes. -/
def readDouble : Loading Binary64 := Binary64.mk <$> readUnsigned

end Cursor

end TimeSeries
