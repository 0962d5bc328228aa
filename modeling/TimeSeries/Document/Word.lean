import TimeSeries.Binary64.Nearest
import TimeSeries.Datum
import TimeSeries.Text.Number

/-!
# Words

The values that are written without quotes: truth values, whole numbers, other
numbers, and points in time.  Digits may be set apart by single underscores; a
decimal number has no zeros before it.
-/

namespace TimeSeries.Document

/-- The digits without the underscores between them. -/
def ungrouped? : List Char → Option (List Char)
  | [] => none
  | [c] => if c = '_' then none else some [c]
  | c :: '_' :: rest => if c = '_' then none else (c :: ·) <$> ungrouped? rest
  | c :: rest => if c = '_' then none else (c :: ·) <$> ungrouped? rest

/-- The number in `base` that the digits `cs` stand for, which may be grouped. -/
def grouped? (base : Nat) (cs : List Char) : Option Nat := ungrouped? cs >>= Text.digits? base

/-- The decimal number that the digits `cs` stand for, which may be grouped and have no zeros before
them. -/
def decimal? (cs : List Char) : Option Nat :=
  match cs with
  | '0' :: _ :: _ => none
  | cs => grouped? 10 cs

/-- The whole number `cs`, which fits in a word with a sign. -/
def whole? (cs : List Char) : Option Int :=
  let n : Option Int :=
    match cs with
    | '0' :: 'x' :: digits => (grouped? 16 digits).map Int.ofNat
    | '0' :: 'o' :: digits => (grouped? 8 digits).map Int.ofNat
    | '0' :: 'b' :: digits => (grouped? 2 digits).map Int.ofNat
    | cs =>
      let (negative, digits) := Text.unsigned cs
      (decimal? digits).map fun n => if negative then -(n : Int) else n
  n.filter fun n => -2 ^ 63 ≤ n && n < 2 ^ 63

/-- Is `cs` a number with a fraction or an exponent? -/
def isScientific (cs : List Char) : Bool :=
  let digits := (Text.unsigned cs).2
  let exponent (cs : List Char) : Bool := (grouped? 10 (Text.unsigned cs).2).isSome
  let fraction (cs : List Char) : Bool := (grouped? 10 cs).isSome
  let mantissa (cs : List Char) : Bool :=
    match Text.splitAt? (· = '.') cs with
    | some (whole, rest) => (decimal? whole).isSome && fraction rest
    | none => (decimal? cs).isSome
  match Text.splitAt? (fun c => c = 'e' || c = 'E') digits with
  | some (front, rest) => mantissa front && exponent rest
  | none => digits.contains '.' && mantissa digits

/-- The double that `cs` stands for, a number with a fraction or an exponent. -/
def scientific? (cs : List Char) : Option Binary64 :=
  if isScientific cs then Binary64.ofDecimal? (cs.filter (· ≠ '_')) else none

/-- Is `cs` a number that is not whole?  An infinity and a NaN are written as names, and a number
beyond the doubles is none.  Below the doubles there is no such limit. -/
def isReal (cs : List Char) : Bool :=
  let name := (Text.unsigned cs).2
  name = "inf".toList || name = "nan".toList ||
    (scientific? cs).any (· ≠ Binary64.infinity)

/-- The number of exactly `count` digits, if it lies between two bounds. -/
def field? (count low high : Nat) (cs : List Char) : Option Nat :=
  if cs.length = count then (Text.digits? 10 cs).filter fun n => low ≤ n && n ≤ high else none

/-- The number of days in `month` of `year`. -/
def daysIn (year month : Nat) : Nat :=
  if month = 2 then
    if year % 4 = 0 && (year % 100 ≠ 0 || year % 400 = 0) then 29 else 28
  else if month = 4 || month = 6 || month = 9 || month = 11 then 30
  else 31

/-- Is this a day? -/
def isDay : List Char → Bool
  | [a, b, c, d, '-', e, f, '-', g, h] =>
    match field? 4 0 9999 [a, b, c, d], field? 2 1 12 [e, f] with
    | some year, some month => (field? 2 1 (daysIn year month) [g, h]).isSome
    | _, _ => false
  | _ => false

/-- Is this a time of a day? -/
def isClock : List Char → Bool
  | a :: b :: ':' :: c :: d :: ':' :: e :: f :: rest =>
    (field? 2 0 23 [a, b]).isSome && (field? 2 0 59 [c, d]).isSome &&
      (field? 2 0 60 [e, f]).isSome &&
      match rest with
      | [] => true
      | '.' :: digits => (Text.digits? 10 digits).isSome
      | _ => false
  | _ => false

/-- Is `cs` a time of a day, perhaps with its distance from universal time? -/
def isZonedClock (cs : List Char) : Bool :=
  match Text.splitAt? (fun c => c = 'Z' || c = 'z' || c = '+' || c = '-') cs with
  | none => isClock cs
  | some (clock, zone) =>
    isClock clock &&
      match zone with
      | [] => cs.getLast? = some 'Z' || cs.getLast? = some 'z'
      | [a, b, ':', c, d] => (field? 2 0 23 [a, b]).isSome && (field? 2 0 59 [c, d]).isSome
      | _ => false

/-- Is `cs` a point in time: a day, a time of a day, or both? -/
def isMoment (cs : List Char) : Bool :=
  isDay cs || isClock cs ||
    match Text.splitAt? (fun c => c = 'T' || c = 't' || c = ' ') cs with
    | some (day, clock) => isDay day && isZonedClock clock
    | none => false

/-- The value of the word `cs`. -/
def ofWord? (cs : List Char) : Option Datum :=
  if cs = "true".toList then some (.boolean true)
  else if cs = "false".toList then some (.boolean false)
  else
    match whole? cs with
    | some n => some (.integer n)
    | none =>
      if isReal cs then some (.real (String.ofList cs))
      else if isMoment cs then some (.moment (String.ofList cs))
      else none

/-- May `c` stand in a word? -/
def isWordChar (c : Char) : Bool :=
  c.isAlphanum || c = '_' || c = '+' || c = '-' || c = '.' || c = ':'

/-- Splits a word off `cs`.  A day and a time of a day with a space between them are one word. -/
def takeWord (cs : List Char) : List Char × List Char :=
  let word := cs.takeWhile isWordChar
  match cs.dropWhile isWordChar with
  | ' ' :: rest =>
    let clock := rest.takeWhile isWordChar
    if isDay word && isZonedClock clock then (word ++ ' ' :: clock, rest.dropWhile isWordChar)
    else (word, ' ' :: rest)
  | rest => (word, rest)

end TimeSeries.Document
