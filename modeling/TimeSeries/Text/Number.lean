import TimeSeries.Instances

/-!
# Numbers in texts

Reading digits and what is written with them.  Only the ten digits of ASCII count as decimal ones.
-/

namespace TimeSeries.Text

/-- The value of the digit `c` in a `base` up to sixteen. -/
def digit? (base : Nat) (c : Char) : Option Nat :=
  let value :=
    if '0' ≤ c ∧ c ≤ '9' then some (c.toNat - '0'.toNat)
    else if 'a' ≤ c ∧ c ≤ 'f' then some (c.toNat - 'a'.toNat + 10)
    else if 'A' ≤ c ∧ c ≤ 'F' then some (c.toNat - 'A'.toNat + 10)
    else none
  value.filter (· < base)

/-- The number in `base` that the digits `cs` stand for, none of which may be missing or wrong. -/
def digits? (base : Nat) (cs : List Char) : Option Nat :=
  if cs.isEmpty then none
  else (cs.mapM (digit? base)).map fun ds => ds.foldl (fun n d => base * n + d) 0

/-- Splits off a sign, and tells whether it is a minus sign. -/
def unsigned : List Char → Bool × List Char
  | '-' :: cs => (true, cs)
  | '+' :: cs => (false, cs)
  | cs => (false, cs)

/-- The number that the digits `cs` stand for, which may have a sign before them. -/
def signed? (cs : List Char) : Option Int :=
  let (negative, digits) := unsigned cs
  (digits? 10 digits).map fun n => if negative then -(n : Int) else n

/-- The character whose code in hexadecimal is `digits`. -/
def coded? (digits : List Char) : Option Char := do
  let n ← digits? 16 digits
  if h : n.isValidChar then some (Char.ofNatAux n h) else none

/-- The characters of `cs` before and after the first one with the property `p`, if there is one. -/
def splitAt? (p : Char → Bool) (cs : List Char) : Option (List Char × List Char) :=
  match cs.dropWhile (!p ·) with
  | [] => none
  | _ :: after => some (cs.takeWhile (!p ·), after)

/-- The number of the decimal digits `text`, which may have a plus sign before them and has to fit
in a word. -/
def word? (text : String) : Option UInt64 :=
  let digits :=
    match text.toList with
    | '+' :: digits => digits
    | digits => digits
  ((digits? 10 digits).filter (· < 2 ^ 64)).map UInt64.ofNat

end TimeSeries.Text
