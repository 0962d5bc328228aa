import TimeSeries.Instances

/-!
# Shortest decimals

Among the decimals inside an interval around a number, `shortest` finds those
with the fewest digits and, of these, the one nearest to the number.

The decimals `d · 10 ^ place` with a fixed `place` form a grid.  If a grid has a
point in the interval, then one of the two neighbours of the number on the grid
lies there.  Going through the grids from coarse to fine, the first one with
such a neighbour has the fewest digits; between two neighbours the nearer is
taken, and the greater one when both are equally near.
-/

namespace TimeSeries.Decimal

/-- The interval of the numbers that read as the same `centre`, in units of
`2 ^ scale`; its ends belong to it when it is `closed`. -/
structure Interval where
  low : Nat
  centre : Nat
  high : Nat
  closed : Bool
  scale : Int

/-- A decimal `digits · 10 ^ place`. -/
structure Shortest where
  digits : Nat
  place : Int
deriving DecidableEq

namespace Interval

/-- What the units of the interval are multiplied by on the grid of `place`. -/
def factor (i : Interval) (place : Int) : Nat :=
  2 ^ i.scale.toNat * 10 ^ (-place).toNat

/-- What the points on the grid of `place` are multiplied by, in the same units. -/
def divisor (i : Interval) (place : Int) : Nat :=
  2 ^ (-i.scale).toNat * 10 ^ place.toNat

/-- Does the point `d · 10 ^ place` lie in the interval? -/
def admits (i : Interval) (place : Int) (d : Nat) : Bool :=
  let low := i.low * i.factor place
  let high := i.high * i.factor place
  let point := d * i.divisor place
  if i.closed then low ≤ point && point ≤ high else low < point && point < high

/-- The point of the grid of `place` that lies in the interval and is nearest to
the centre. -/
def nearest? (i : Interval) (place : Int) : Option Nat :=
  let centre := i.centre * i.factor place
  let divisor := i.divisor place
  let below := centre / divisor
  match i.admits place below, i.admits place (below + 1) with
  | true, true => if 2 * centre < (2 * below + 1) * divisor then some below else some (below + 1)
  | true, false => some below
  | false, true => some (below + 1)
  | false, false => none

/-- The decimal in the interval with the fewest digits, on one of the `count`
grids from `place` downwards. -/
def search (i : Interval) (place : Int) : (count : Nat) → Option Shortest
  | 0 => none
  | count + 1 =>
    match i.nearest? place with
    | some digits => some ⟨digits, place⟩
    | none => i.search (place - 1) count

end Interval

/-- The positional notation of a decimal: no exponent, and no point unless digits
follow it. -/
def Shortest.text (d : Shortest) : String :=
  let digits := Nat.toDigits 10 d.digits
  if 0 ≤ d.place then String.ofList (digits ++ List.replicate d.place.toNat '0')
  else
    let fraction := (-d.place).toNat
    let padded := List.replicate (fraction + 1 - digits.length) '0' ++ digits
    let whole := padded.length - fraction
    String.ofList (padded.take whole ++ '.' :: padded.drop whole)

end TimeSeries.Decimal
