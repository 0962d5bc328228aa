/-!
# Faults of aggregation
-/

namespace TimeSeries

/-- A fault of aggregation. -/
inductive AggregationError where
  /-- Nothing was aggregated. -/
  | empty
  /-- No aggregation has this name. -/
  | unknownName (name : String)
  /-- A bucket cannot have this width. -/
  | invalidBucket (width : UInt64)
deriving DecidableEq

/-- The wording of a fault. -/
def AggregationError.message : AggregationError → String
  | empty => "Empty accumulator"
  | unknownName name => "Unknown aggregation type: " ++ name
  | invalidBucket width => s!"Invalid bucket duration: {width.toNat}"

end TimeSeries
