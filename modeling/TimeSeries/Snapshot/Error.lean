import TimeSeries.Aggregation.Error
import TimeSeries.Packing.Error
import TimeSeries.Text.Utf8

/-!
# Faults of snapshots

A snapshot can be cut short, damaged, or hold something else than what is asked
for.  A `Flaw` is what is wrong with an object whose frames were read without fault.
-/

namespace TimeSeries

/-- The kinds of frames; a byte that marks none of them is of an unknown kind. -/
inductive FrameKind where
  | unsigned
  | bytes
  | unknown
deriving DecidableEq

/-- The name of a kind. -/
def FrameKind.name : FrameKind → String
  | unsigned => "unsigned"
  | bytes => "bytes"
  | unknown => "unknown"

/-- The sides of a window, each of which has a frame of its own. -/
inductive WindowSide where
  | leading
  | trailing
deriving DecidableEq

/-- The name under which a side of the window is reported. -/
def WindowSide.name : WindowSide → String
  | leading => "prev_leading"
  | trailing => "prev_trailing"

/-- The ways in which frames of the right kinds can fail to be those of an object. -/
inductive Flaw where
  /-- No encoding has this tag. -/
  | unknownEncoding (tag : UInt64)
  /-- More samples are announced than there are slots. -/
  | tooManySamples (count slots : Nat)
  /-- The samples do not take as many bytes as there are. -/
  | payloadSize (bytes count : Nat)
  /-- An unpacked sample does not follow the one before it. -/
  | misplacedSample (timestamp last : Timestamp)
  /-- The base is not the first timestamp. -/
  | baseMismatch (base first : Timestamp)
  /-- A window cannot leave out this many bits. -/
  | notABitCount (side : WindowSide) (value : UInt64)
  /-- The buffer does not have the size announced. -/
  | bufferSize (bytes announced : Nat)
  /-- There are bits but no samples. -/
  | bitsWithoutSamples
  /-- A packed sample does not follow the one before it. -/
  | unorderedSample (index : Nat) (timestamp last : Timestamp)
  /-- The samples end before the bits do. -/
  | bitsLeftOver (position length : Nat)
  /-- Replaying the samples ends in another state than the stored one. -/
  | stateMismatch
  /-- The packed data cannot be read. -/
  | packing (cause : PackingError)
  /-- No aggregation has this number. -/
  | unknownAggregation (id : UInt64)
  /-- A flag is one byte, zero or one. -/
  | invalidFlag (bytes : List UInt8)
  /-- The destination is no text. -/
  | destination (fault : Text.Utf8Fault)
  /-- The marker before an open bucket is zero or one. -/
  | bucketMarker (marker : UInt64)
  /-- The rule is not one that can be made. -/
  | rule (cause : AggregationError)
  /-- A fault known by its description. -/
  | described (text : String)
deriving DecidableEq

/-- The faults of a snapshot: of its bytes, of its frames, or of the object that they are to be. -/
inductive SnapshotError where
  | unexpectedEnd
  | typeMismatch (expected found : FrameKind)
  | checksumMismatch (expected actual : UInt64)
  | corrupted (flaw : Flaw)
deriving DecidableEq

/-- The wording of `bytes` as a list of numbers. -/
def bytesMessage (bytes : List UInt8) : String :=
  "[" ++ ", ".intercalate (bytes.map fun byte => s!"{byte.toNat}") ++ "]"

/-- The wording of a flaw. -/
def Flaw.message : Flaw → String
  | unknownEncoding tag => s!"unknown chunk tag {tag.toNat}"
  | tooManySamples count slots => s!"{count} samples exceed capacity of {slots}"
  | payloadSize bytes count => s!"payload of {bytes} bytes does not hold {count} samples"
  | misplacedSample timestamp last => unorderedMessage timestamp last
  | baseMismatch base first =>
    s!"base timestamp {base.toInt} does not match first sample {first.toInt}"
  | notABitCount side value => s!"{side.name} of {value.toNat} is not a bit count"
  | bufferSize bytes announced => s!"buffer of {bytes} bytes, header says {announced}"
  | bitsWithoutSamples => "empty chunk with written bits"
  | unorderedSample index timestamp last =>
    s!"sample {index} at {timestamp.toInt} does not follow {last.toInt}"
  | bitsLeftOver position length => s!"replay stopped at bit {position} of {length}"
  | stateMismatch => "replay state differs from stored state"
  | packing cause => cause.message
  | unknownAggregation id => s!"unknown aggregation id {id.toNat}"
  | invalidFlag bytes => "invalid context flag " ++ bytesMessage bytes
  | destination fault => "destination key: " ++ fault.message
  | bucketMarker marker => s!"invalid bucket marker {marker.toNat}"
  | rule cause => cause.message
  | described text => text

/-- The wording of `n` in hexadecimal notation. -/
def hexMessage (n : UInt64) : String :=
  "0x" ++ String.ofList (Nat.toDigits 16 n.toNat)

/-- The wording of a fault. -/
def SnapshotError.message : SnapshotError → String
  | unexpectedEnd => "Unexpected end of snapshot"
  | typeMismatch expected found =>
    s!"Type mismatch: expected {expected.name}, found {found.name}"
  | checksumMismatch expected actual =>
    "Checksum mismatch: expected " ++ hexMessage expected ++ ", got " ++ hexMessage actual
  | corrupted flaw => "Corrupted snapshot: " ++ flaw.message

end TimeSeries
