import TimeSeries.Aggregation.Kind
import TimeSeries.Aggregation.Variance
import TimeSeries.Snapshot.Cursor

/-!
# Aggregators

An aggregator takes in values one at a time and gives a single result for all of
them.  What it has to remember depends on the kind: one value, a sum with a count,
sums of values and squares with a count, or the least and the greatest value.  An
aggregator that has taken in nothing has no result.
-/

namespace TimeSeries

/-- The kinds of aggregation that remember one value, whichever came in before. -/
inductive Single where
  | sum
  | count
  | first
  | last
deriving DecidableEq

/-- The kinds of aggregation that look for an extreme value. -/
inductive Extreme where
  | min
  | max
deriving DecidableEq

/-- The kinds that measure how far values lie apart: a variance or its root, of a
population or estimated from a sample. -/
structure Spread where
  ofSample : Bool
  root : Bool
deriving DecidableEq

/-- The value that `kind` remembers after one more value `v`; `fresh` tells that there was none
before. -/
def Single.combine (kind : Single) (value : Binary64) (fresh : Bool) (v : Binary64) : Binary64 :=
  match kind with
  | .sum => value + v
  | .count => value + .one
  | .first => if fresh then v else value
  | .last => v

/-- Is `v` more extreme, as `kind` has it, than the `value` remembered? -/
def Extreme.better (kind : Extreme) (v value : Binary64) : Bool :=
  match kind with
  | .min => v.less value
  | .max => value.less v

/-- How far `count` values lie apart, as `kind` measures it, if they have the given `sum` and sum of
`squares`. -/
def Spread.measure (kind : Spread) (sum squares : Binary64) (count : UInt64) : Binary64 :=
  let n := Binary64.ofCount count
  let variance :=
    if kind.ofSample then if count = 1 then .zero else sampleVariance sum squares n
    else populationVariance sum squares n
  if kind.root then variance.sqrt else variance

/-- What is remembered of the values taken in; `fresh` tells that there were none. -/
inductive Aggregator where
  | single (kind : Single) (value : Binary64) (fresh : Bool)
  | extreme (kind : Extreme) (value : Binary64) (fresh : Bool)
  | average (sum : Binary64) (count : UInt64)
  | moments (kind : Spread) (sum squares : Binary64) (count : UInt64)
  | range (least greatest : Binary64) (fresh : Bool)
deriving DecidableEq

namespace Aggregator

/-- The aggregator of a kind that has taken in nothing. -/
def new : AggregationKind → Aggregator
  | .min => extreme .min .greatest true
  | .max => extreme .max .least true
  | .sum => single .sum .zero true
  | .average => average .zero 0
  | .count => single .count .zero true
  | .first => single .first .zero true
  | .last => single .last .zero true
  | .range => range .greatest .least true
  | .populationDeviation => moments ⟨false, true⟩ .zero .zero 0
  | .sampleDeviation => moments ⟨true, true⟩ .zero .zero 0
  | .populationVariance => moments ⟨false, false⟩ .zero .zero 0
  | .sampleVariance => moments ⟨true, false⟩ .zero .zero 0

/-- The kind of aggregation that an aggregator does. -/
def kind : Aggregator → AggregationKind
  | single .sum _ _ => .sum
  | single .count _ _ => .count
  | single .first _ _ => .first
  | single .last _ _ => .last
  | extreme .min _ _ => .min
  | extreme .max _ _ => .max
  | average _ _ => .average
  | moments ⟨false, true⟩ _ _ _ => .populationDeviation
  | moments ⟨true, true⟩ _ _ _ => .sampleDeviation
  | moments ⟨false, false⟩ _ _ _ => .populationVariance
  | moments ⟨true, false⟩ _ _ _ => .sampleVariance
  | range _ _ _ => .range

/-- Has an aggregator taken in nothing since it was new? -/
def isEmpty : Aggregator → Bool
  | single _ _ fresh | extreme _ _ fresh | range _ _ fresh => fresh
  | average _ count | moments _ _ _ count => count == 0

/-- Takes the value `v` into `a`. -/
def append (a : Aggregator) (v : Binary64) : Aggregator :=
  match a with
  | single kind value fresh => single kind (kind.combine value fresh v) false
  | extreme kind value fresh =>
    extreme kind (if kind.better v value || fresh then v else value) false
  | average sum count => average (sum + v) (count + 1)
  | moments kind sum squares count => moments kind (sum + v) (squares + v * v) (count + 1)
  | range least greatest _ =>
    range (if v.less least then v else least) (if greatest.less v then v else greatest) false

/-- Forgets all values that `a` has taken in. -/
def reset (a : Aggregator) : Aggregator := new a.kind

/-- The result of `a` for the values taken in.  There is none as long as nothing was taken in. -/
def result (a : Aggregator) : Except AggregationError Binary64 :=
  if a.isEmpty then .error .empty
  else .ok <|
    match a with
    | single _ value _ | extreme _ value _ => value
    | average sum count => sum / .ofCount count
    | moments kind sum squares count => kind.measure sum squares count
    | range least greatest _ => greatest - least

/-! ### Snapshots -/

/-- The frame of `flag`, which is one byte, zero or one. -/
def flagFrame (flag : Bool) : Frame := .bytes [if flag then 1 else 0]

/-- The frames of `a`: the number of its kind, then what it remembers. -/
def frames (a : Aggregator) : List Frame :=
  .unsigned a.kind.id ::
    match a with
    | single _ value fresh | extreme _ value fresh => [.double value, flagFrame fresh]
    | average sum count => [.double sum, .unsigned count]
    | moments _ sum squares count => [.double sum, .double squares, .unsigned count]
    | range least greatest fresh => [.double least, .double greatest, flagFrame fresh]

/-- Reads a flag as `flagFrame` writes it. -/
def loadFlag : Loading Bool := do
  match ← Cursor.readBytes with
  | [0] => return false
  | [1] => return true
  | bytes => throw (.corrupted (.invalidFlag bytes))

/-- Reads the frames that `frames` writes: the number of a kind, then what an aggregator of this
kind remembers. -/
def load : Loading Aggregator := do
  let id ← Cursor.readUnsigned
  let some kind := AggregationKind.ofId? id | throw (.corrupted (.unknownAggregation id))
  match new kind with
  | single kind _ _ => return single kind (← Cursor.readDouble) (← loadFlag)
  | extreme kind _ _ => return extreme kind (← Cursor.readDouble) (← loadFlag)
  | average _ _ => return average (← Cursor.readDouble) (← Cursor.readUnsigned)
  | moments kind _ _ _ =>
    return moments kind (← Cursor.readDouble) (← Cursor.readDouble) (← Cursor.readUnsigned)
  | range _ _ _ => return range (← Cursor.readDouble) (← Cursor.readDouble) (← loadFlag)

end Aggregator

/-- The result of an aggregator of `kind` that has taken in `values` one after the other. -/
def aggregate (kind : AggregationKind) (values : List Binary64) :
    Except AggregationError Binary64 :=
  (values.foldl Aggregator.append (.new kind)).result

end TimeSeries
