import TimeSeries.Binary64.Nearest
import TimeSeries.Binary64.Text
import TimeSeries.Pattern

/-!
# Matches of fields

The events of a span can be picked by one of its fields, which has to be there, or has
to have a certain value: a truth value, a number, or a text that a pattern matches.  It
is written as `name` or `name=value`.
-/

namespace TimeSeries

/-- What the value of a field has to be. -/
inductive FieldValue where
  | boolean (value : Bool)
  | real (value : Binary64)
  | nan
  | natural (value : UInt64)
  | integer (value : Int64)
  | pattern (text : String)
deriving DecidableEq

namespace FieldValue

/-- Reads `text` as the first kind of value that fits. -/
def ofText? (text : String) : Option FieldValue :=
  if text = "true" then some (.boolean true)
  else if text = "false" then some (.boolean false)
  else if let some n := Text.word? text then some (.natural n)
  else if let some n := (Text.signed? text.toList).filter (fun n => -2 ^ 63 ≤ n && n < 2 ^ 63) then
    some (.integer (Int64.ofInt n))
  else if let some x := Binary64.ofText? text then some (if x.isNaN then .nan else .real x)
  else if Pattern.isPattern text then some (.pattern text)
  else none

/-- The text of a value. -/
def text : FieldValue → String
  | boolean value => if value then "true" else "false"
  | real value => value.text
  | nan => "NaN"
  | natural value => s!"{value.toNat}"
  | integer value => s!"{value.toInt}"
  | pattern text => text

/-- The place of the kind of a value among the kinds. -/
def rank : FieldValue → Nat
  | boolean _ => 0
  | real _ => 1
  | nan => 2
  | natural _ => 3
  | integer _ => 4
  | pattern _ => 5

/-- Values go by their kinds, and those of a kind by what they are.  Both zeros are the
same. -/
instance : Ord FieldValue where
  compare
    | boolean a, boolean b => compare a b
    | real a, real b => compare a.key b.key
    | natural a, natural b => compare a.toNat b.toNat
    | integer a, integer b => compare a.toInt b.toInt
    | pattern a, pattern b => compare a b
    | a, b => compare a.rank b.rank

end FieldValue

/-- A field that has to be there, perhaps with a value. -/
structure FieldMatch where
  name : String
  value? : Option FieldValue
deriving DecidableEq

namespace FieldMatch

/-- Reads a match.  What comes in `text` after a second equals sign is passed over. -/
def ofText? (text : String) : Option FieldMatch :=
  match text.splitOn "=" with
  | name :: value :: _ => (FieldValue.ofText? value).map fun value => ⟨name, some value⟩
  | _ => some ⟨text, none⟩

/-- The text of the match `m`. -/
def text (m : FieldMatch) : String :=
  match m.value? with
  | none => m.name
  | some value => m.name ++ "=" ++ value.text

/-- Matches with a value are the greater ones; otherwise they go by name, and then by
value. -/
instance : Ord FieldMatch where
  compare a b :=
    (compare a.value?.isSome b.value?.isSome).then
      ((compare a.name b.name).then (compare a.value? b.value?))

end FieldMatch

end TimeSeries
