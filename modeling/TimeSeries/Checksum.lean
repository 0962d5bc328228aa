/-!
# Checksums

The 64-bit cyclic redundancy check that seals snapshots.  The bytes are the
coefficients of a polynomial over the field of two elements, most significant bit
first; the checksum is the remainder of that polynomial, times `x ^ 64`, modulo
`x ^ 64 + generator`.
-/

namespace TimeSeries.Checksum

/-- The generator polynomial without its leading term. -/
def generator : UInt64 := 0x42f0e1eba9ea3693

/-- The remainder times `x`: the bit that leaves at the top brings the generator in. -/
def shift (remainder : UInt64) : UInt64 :=
  if remainder &&& 0x8000000000000000 = 0 then remainder <<< 1
  else remainder <<< 1 ^^^ generator

/-- The remainder times `x ^ 8`. -/
def shiftByte (remainder : UInt64) : UInt64 :=
  shift (shift (shift (shift (shift (shift (shift (shift remainder)))))))

/-- The remainder of a byte string, after `byte` is put behind one whose remainder is
`remainder`. -/
def step (remainder : UInt64) (byte : UInt8) : UInt64 :=
  shiftByte (remainder ^^^ byte.toUInt64 <<< 56)

/-- The checksum of `bytes`: the remainder that is left by the last of them. -/
def ofBytes (bytes : List UInt8) : UInt64 := bytes.foldl step 0

end TimeSeries.Checksum
