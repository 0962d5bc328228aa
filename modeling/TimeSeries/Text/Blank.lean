/-!
# Blank characters

The characters with the property White_Space of the Unicode character database.
-/

namespace TimeSeries.Text

/-- The code points of blank characters, as ranges with both ends included. -/
def blankRanges : List (Nat × Nat) :=
  [(0x09, 0x0d), (0x20, 0x20), (0x85, 0x85), (0xa0, 0xa0), (0x1680, 0x1680), (0x2000, 0x200a),
    (0x2028, 0x2029), (0x202f, 0x202f), (0x205f, 0x205f), (0x3000, 0x3000)]

/-- Is `c` blank? -/
def isBlank (c : Char) : Bool :=
  blankRanges.any fun (low, high) => low ≤ c.toNat && c.toNat ≤ high

/-- The characters `cs` without the blanks before and after them. -/
def trim (cs : List Char) : List Char :=
  ((cs.dropWhile isBlank).reverse.dropWhile isBlank).reverse

/-- Does `text` have nothing but blank characters? -/
def allBlank (text : String) : Bool := text.toList.all isBlank

end TimeSeries.Text
