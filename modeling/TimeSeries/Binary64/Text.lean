import TimeSeries.Binary64
import TimeSeries.Decimal.Shortest

/-!
# The text of a value

A number is written with the fewest decimal digits that read back as the same
double, in positional notation.
-/

namespace TimeSeries.Binary64

/-- The fraction bits of `x`. -/
def fraction (x : Binary64) : Nat := x.magnitude % 2 ^ 52

/-- The exponent bits of `x`. -/
def exponent (x : Binary64) : Nat := x.magnitude / 2 ^ 52

/-- The whole number that `x` multiplies by a power of two. -/
def significand (x : Binary64) : Nat :=
  if x.exponent = 0 then x.fraction else 2 ^ 52 + x.fraction

/-- The numbers nearer to `x` than to its neighbours, in quarters of the unit in its last place.
Below a power of two the neighbour is only half as far away. -/
def interval (x : Binary64) : Decimal.Interval where
  low := 4 * x.significand - if x.fraction = 0 && 1 < x.exponent then 1 else 2
  centre := 4 * x.significand
  high := 4 * x.significand + 2
  closed := x.significand % 2 = 0
  scale := (max x.exponent 1 : Nat) - 1077

/-- The decimal place at which the search for the shortest text starts: no double
reaches ten to this power. -/
def topPlace : Int := 309

/-- The number of decimal places searched; the smallest double is told apart well
before the last of them. -/
def placeCount : Nat := 660

/-- The text of `x` without its sign. -/
def magnitudeText (x : Binary64) : String :=
  if x.magnitude = 0 then "0"
  else if x.isInfinite then "inf"
  else ((x.interval.search topPlace placeCount).map Decimal.Shortest.text).getD "0"

/-- The text of `x`. -/
def text (x : Binary64) : String :=
  if x.isNaN then "NaN"
  else if x.isNegative then "-" ++ x.magnitudeText
  else x.magnitudeText

end TimeSeries.Binary64
