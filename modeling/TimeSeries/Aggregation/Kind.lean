import TimeSeries.Aggregation.Error

/-!
# Kinds of aggregation

Each kind has a name and a number, which is its place in `AggregationKind.all`.
-/

namespace TimeSeries

/-- The kinds of aggregation, each of which gives one value for the values of a stretch. -/
inductive AggregationKind where
  | min
  | max
  | sum
  /-- The arithmetic mean. -/
  | average
  | count
  | first
  | last
  /-- The distance from the least value to the greatest. -/
  | range
  /-- The standard deviation of a whole population. -/
  | populationDeviation
  /-- The standard deviation estimated from a sample of a population. -/
  | sampleDeviation
  /-- The variance of a whole population. -/
  | populationVariance
  /-- The variance estimated from a sample of a population. -/
  | sampleVariance
deriving DecidableEq

namespace AggregationKind

/-- Every kind, in the order of their numbers, which `id` gives. -/
def all : List AggregationKind :=
  [min, max, sum, average, count, first, last, range, populationDeviation, sampleDeviation,
    populationVariance, sampleVariance]

/-- The name of a kind. -/
def name : AggregationKind → String
  | min => "min"
  | max => "max"
  | sum => "sum"
  | average => "avg"
  | count => "count"
  | first => "first"
  | last => "last"
  | range => "range"
  | populationDeviation => "std.p"
  | sampleDeviation => "std.s"
  | populationVariance => "var.p"
  | sampleVariance => "var.s"

/-- The name of `kind` as a heading. -/
def title (kind : AggregationKind) : String := kind.name.toUpper

/-- The kind of `name`, which has to be in lower case. -/
def ofName? (name : String) : Option AggregationKind :=
  all.find? (·.name == name)

/-- The kind whose name is `text`, in upper or lower case. -/
def ofText (text : String) : Except AggregationError AggregationKind :=
  match ofName? text.toLower with
  | some kind => .ok kind
  | none => .error (.unknownName text)

/-- The number of `kind`, which is its place in `all`. -/
def id (kind : AggregationKind) : UInt64 := UInt64.ofNat (all.idxOf kind)

/-- The kind whose number is `id`, if there is one. -/
def ofId? (id : UInt64) : Option AggregationKind := all[id.toNat]?

/-- The kind whose number is `kind.id` is `kind`, so that no two kinds have the same number. -/
theorem ofId?_id
    (kind : AggregationKind) :
  ofId? kind.id = some kind
  := by
  cases kind <;> decide

end AggregationKind

end TimeSeries
