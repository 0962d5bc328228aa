/-!
# UTF-8

Texts as bytes, and the first fault of bytes that are no text.

The lead byte of a character says which ranges the bytes after it lie in.  A fault
is found at the first byte outside its range; the bytes of the character up to it
are the invalid sequence, which is one byte long when the lead byte itself is at
fault.  When the bytes end within a character the sequence is incomplete.
-/

namespace TimeSeries.Text

/-- The first fault of a byte string: where the faulty sequence starts, and how long
it is unless it is cut off by the end. -/
structure Utf8Fault where
  start : Nat
  length : Option Nat
deriving DecidableEq

/-- The wording of the fault `f`. -/
def Utf8Fault.message (f : Utf8Fault) : String :=
  match f.length with
  | some length => s!"invalid utf-8 sequence of {length} bytes from index {f.start}"
  | none => s!"incomplete utf-8 byte sequence from index {f.start}"

/-- The bytes from `low` to `high`. -/
structure ByteRange where
  low : UInt8
  high : UInt8

/-- The bytes that may stand anywhere but first in a character. -/
def ByteRange.tail : ByteRange := ⟨0x80, 0xbf⟩

/-- The ranges of the bytes that follow `lead`, if it is the first byte of a character. -/
def followers (lead : UInt8) : Option (List ByteRange) :=
  if lead ≤ 0x7f then some []
  else if lead < 0xc2 then none
  else if lead ≤ 0xdf then some [.tail]
  else if lead = 0xe0 then some [⟨0xa0, 0xbf⟩, .tail]
  else if lead = 0xed then some [⟨0x80, 0x9f⟩, .tail]
  else if lead ≤ 0xef then some [.tail, .tail]
  else if lead = 0xf0 then some [⟨0x90, 0xbf⟩, .tail, .tail]
  else if lead ≤ 0xf3 then some [.tail, .tail, .tail]
  else if lead = 0xf4 then some [⟨0x80, 0x8f⟩, .tail, .tail]
  else none

/-- The first fault in the rest of a byte string, where a character that began at
`start` has `read` bytes so far and needs the ranges `expected` yet. -/
def faultFrom (start read : Nat) : (expected : List ByteRange) → List UInt8 → Option Utf8Fault
  | [], [] => none
  | _ :: _, [] => some ⟨start, none⟩
  | [], lead :: bytes =>
    match followers lead with
    | none => some ⟨start + read, some 1⟩
    | some expected => faultFrom (start + read) 1 expected bytes
  | range :: expected, byte :: bytes =>
    if range.low ≤ byte ∧ byte ≤ range.high then faultFrom start (read + 1) expected bytes
    else some ⟨start, some read⟩

/-- The first fault of `bytes`. -/
def fault? (bytes : List UInt8) : Option Utf8Fault := faultFrom 0 0 [] bytes

/-- The text that `bytes` stand for, or their first fault. -/
def ofUtf8 (bytes : List UInt8) : Except Utf8Fault String :=
  match String.fromUTF8? ⟨bytes.toArray⟩ with
  | some text => .ok text
  | none => .error ((fault? bytes).getD ⟨0, none⟩)

/-- The bytes of `text`. -/
def toUtf8 (text : String) : List UInt8 := text.toUTF8.data.toList

/-- The bytes that read as `text` are the bytes of `text`. -/
theorem ofUtf8_eq_ok_iff
    (bytes : List UInt8) (text : String) :
  ofUtf8 bytes = .ok text ↔ toUtf8 text = bytes
  := by
  unfold ofUtf8 toUtf8 String.fromUTF8? String.toUTF8
  constructor
  · intro h
    split at h
    · rename_i read hread
      simp only [Except.ok.injEq] at h
      subst h
      split at hread
      · simp only [Option.some.injEq] at hread
        rw [← hread]
        simp [String.fromUTF8]
      · simp at hread
    · simp at h
  · intro h
    have hbytes : (⟨bytes.toArray⟩ : ByteArray) = text.toByteArray := by
      rw [← h]
    simp only [hbytes]
    rw [dif_pos text.isValidUTF8]
    rfl

end TimeSeries.Text
