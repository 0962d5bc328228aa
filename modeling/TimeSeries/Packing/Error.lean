import TimeSeries.TimeRange

/-!
# Faults of packed data

What can go wrong when bits are written, read, encoded or decoded.  Each fault
carries its cause; `message` gives the wording.
-/

namespace TimeSeries

/-- The ways in which packed data can be wrong, with what is reported of them. -/
inductive Corruption where
  /-- One more bit was asked for at the end. -/
  | noBitLeft
  /-- More bits were asked for than are left. -/
  | tooFewBits (requested left : Nat)
  /-- The number of bits of the buffer does not fit in a machine word. -/
  | bitCountOverflow
  /-- The cursor lies behind the end of the buffer. -/
  | cursorBeyondEnd (cursor capacity : Nat)
  /-- A sample reuses a window that has no bits. -/
  | emptyWindow (index : Nat)
  /-- A sample opens a window of more than 64 bits. -/
  | wideWindow (index leading meaningful : Nat)
  /-- A decoded sample does not follow the one before it. -/
  | unorderedSample (timestamp last : Timestamp)
  /-- Not every sample was carried over by a conversion. -/
  | lostSamples (converted total : Nat)
  /-- A fault known by its description. -/
  | described (text : String)
deriving DecidableEq

/-- The ways in which a request can make no sense, with what is reported of them. -/
inductive BadRequest where
  /-- A write of more than 64 bits. -/
  | wideWrite (width : Nat)
  /-- A read of more than 64 bits. -/
  | wideRead (width : Nat)
  /-- The first sample of a stream has no packed form. -/
  | firstSample
  /-- A fault known by its description. -/
  | described (text : String)
deriving DecidableEq

/-- The reasons for which a buffer cannot be made larger, with what is reported of them. -/
inductive Shortage where
  /-- The number of bytes does not fit in a machine word. -/
  | byteCountOverflow (size additional : Nat)
  /-- The number of bits does not fit in a machine word. -/
  | bitCountOverflow (size : Nat)
  /-- The memory was refused. -/
  | refused (additional : Nat)
  /-- A fault known by its description. -/
  | described (text : String)
deriving DecidableEq

/-- The faults of packed data and of the buffers that it is written to. -/
inductive PackingError where
  /-- The bits do not fit in what is free. -/
  | bufferFull (needed available : Nat)
  | corrupted (cause : Corruption)
  | invalid (cause : BadRequest)
  | outOfMemory (cause : Shortage)
deriving DecidableEq

/-- The wording of a sample at `timestamp` that stands behind one at `last` and does not follow
it. -/
def unorderedMessage (timestamp last : Timestamp) : String :=
  s!"Out of order sample: timestamp {timestamp.toInt} is not after last timestamp {last.toInt}"

/-- The wording of a corruption. -/
def Corruption.message : Corruption → String
  | noBitLeft => "Unexpected end of buffer"
  | tooFewBits requested left =>
    s!"Unexpected end of buffer: {requested} bits requested, {left} left"
  | bitCountOverflow => "buffer length overflows bit count"
  | cursorBeyondEnd cursor capacity =>
    s!"bit cursor {cursor} exceeds buffer of {capacity} bits"
  | emptyWindow index => s!"sample {index} reuses an empty XOR window"
  | wideWindow index leading meaningful =>
    s!"sample {index} has window of {leading} leading + {meaningful} meaningful bits"
  | unorderedSample timestamp last =>
    "decoded stream out of order: " ++ unorderedMessage timestamp last
  | lostSamples converted total => s!"converted {converted} of {total} samples"
  | described text => text

/-- The wording of a request that makes no sense. -/
def BadRequest.message : BadRequest → String
  | wideWrite width => s!"Cannot write more than 64 bits (requested: {width})"
  | wideRead width => s!"Cannot read more than 64 bits (requested: {width})"
  | firstSample => "first sample belongs to the header"
  | described text => text

/-- The wording of a shortage. -/
def Shortage.message : Shortage → String
  | byteCountOverflow size additional => s!"growing {size} bytes by {additional} overflows"
  | bitCountOverflow size => s!"{size} bytes overflow bit count"
  | refused additional =>
    s!"cannot reserve {additional} more bytes: memory allocation failed because the " ++
      "memory allocator returned an error"
  | described text => text

/-- The wording of a fault. -/
def PackingError.message : PackingError → String
  | bufferFull needed available =>
    s!"Buffer full: needed {needed} bits, {available} available"
  | corrupted cause => "Corrupted data: " ++ cause.message
  | invalid cause => "Invalid data: " ++ cause.message
  | outOfMemory cause => "Allocation failed: " ++ cause.message

end TimeSeries
