import TimeSeries.Instances

/-!
# Data

Values that come from documents and messages: texts, numbers, truth values,
points in time, lists and tables.  A table keeps its entries in the order in which
they were written.

`wordOf?`, `nameOf?` and `recordOf?` read the shapes that the types of this library
are written in.
-/

namespace TimeSeries

/-- A value from outside. -/
inductive Datum where
  | null
  | boolean (value : Bool)
  | integer (value : Int)
  /-- A number that is not written as a whole one. -/
  | real (text : String)
  /-- A point in time. -/
  | moment (text : String)
  | text (value : String)
  | list (items : List Datum)
  | table (entries : List (String × Datum))
deriving Inhabited

namespace Datum

/-- The entry of the table `d` under `key`. -/
def get? (d : Datum) (key : String) : Option Datum :=
  match d with
  | table entries => entries.lookup key
  | _ => none

/-- A truth value. -/
def booleanOf? : Datum → Option Bool
  | boolean value => some value
  | _ => none

/-- A text. -/
def textOf? : Datum → Option String
  | text value => some value
  | _ => none

/-- A whole number with `low ≤ n < high`. -/
def integerOf? (low high : Int) : Datum → Option Int
  | integer value => if low ≤ value ∧ value < high then some value else none
  | _ => none

/-- A whole number that fits in a word, if `d` is one. -/
def wordOf? (d : Datum) : Option UInt64 :=
  (d.integerOf? 0 (2 ^ 64)).map fun n => UInt64.ofNat n.toNat

/-- A whole number that fits in a byte, if `d` is one. -/
def byteOf? (d : Datum) : Option UInt8 :=
  (d.integerOf? 0 (2 ^ 8)).map fun n => UInt8.ofNat n.toNat

/-- A whole number that fits in a word with a sign, if `d` is one. -/
def signedOf? (d : Datum) : Option Int64 :=
  (d.integerOf? (-2 ^ 63) (2 ^ 63)).map Int64.ofInt

/-- A name that stands for itself, as a text or as the only key of a table with nothing
under it. -/
def nameOf? : Datum → Option String
  | text name => some name
  | table [(name, null)] => some name
  | _ => none

/-- The parts of a record, in a table under `keys` or in a list in their order. -/
def recordOf? (keys : List String) : Datum → Option (List Datum)
  | table entries => keys.mapM fun key => entries.lookup key
  | list items => if items.length = keys.length then some items else none
  | _ => none

end Datum

end TimeSeries
