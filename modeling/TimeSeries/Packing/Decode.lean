import TimeSeries.Packing.Reader
import TimeSeries.Packing.Replay

/-!
# Decoding

Decoding reads the fields of one sample and gives the sample together with the
state after it.  When it fails there is no such state, and the old one remains.
-/

namespace TimeSeries

/-- The number with a sign that `width` bits stand for. -/
def signed (width : Nat) (raw : UInt64) : Int64 :=
  Int64.ofInt ((raw.toNat : Int).bmod (2 ^ width))

/-- Reads a number of `width` bits with a sign. -/
def readSigned (width : Nat) : Reading Int64 :=
  signed width <$> BitReader.readBits width

/-- Reads a change of the difference of timestamps, in the shortest of the forms that `deltaFields`
writes. -/
def readDelta : Reading Int64 := do
  if !(← BitReader.readBit) then return 0
  if !(← BitReader.readBit) then return ← readSigned 7
  if !(← BitReader.readBit) then return ← readSigned 9
  if !(← BitReader.readBit) then return ← readSigned 12
  if !(← BitReader.readBit) then return ← readSigned 32
  readSigned 64

/-- Reads a difference of values in the window `w` of the last one.  The sample at `index` is
corrupted if `w` has no bits. -/
def Window.readSame (w : Window) (index : Nat) : Reading UInt64 := do
  if w.width = 0 then throw (.corrupted (.emptyWindow index))
  let raw ← BitReader.readBits w.width
  return raw <<< w.trailing.toUInt64

/-- Reads a new window and a difference of values in it.  The sample at `index` is corrupted if the
window has more than 64 bits. -/
def Window.readNew (index : Nat) : Reading (UInt64 × Window) := do
  let leading := (← BitReader.readBits 5).toNat
  let width := (← BitReader.readBits 6).toNat + 1
  if 64 < leading + width then throw (.corrupted (.wideWindow index leading width))
  let next : Window := ⟨UInt8.ofNat leading, UInt8.ofNat (64 - leading - width)⟩
  let raw ← BitReader.readBits width
  return (raw <<< next.trailing.toUInt64, next)

/-- Reads the difference of values of the sample at `index`, and gives the window afterwards, which
is `w` if no new one is opened. -/
def Window.readDifference (w : Window) (index : Nat) : Reading (UInt64 × Window) := do
  if !(← BitReader.readBit) then return (0, w)
  if !(← BitReader.readBit) then return (← w.readSame index, w)
  Window.readNew index

/-- Reads the sample at place `index` of a stream, and gives the state after it. -/
def decode (s : Replay) (index : Nat) : Reading (Sample × Replay) := do
  if index = 0 then throw (.invalid .firstSample)
  let delta ← if index = 1 then readSigned 64 else (s.delta + ·) <$> readDelta
  let (difference, window) ← s.window.readDifference index
  let sample : Sample := ⟨s.timestamp + delta, ⟨s.value.bits ^^^ difference⟩⟩
  return (sample, ⟨sample.timestamp, delta, sample.value, window⟩)

end TimeSeries
