import TimeSeries.Binary64

/-!
# Duplicate policies

What happens when a sample arrives at a time that already has one.  Every policy
but `block` names the value that survives.
-/

namespace TimeSeries

/-- The ways to settle an incoming sample with one that is stored at the same time. -/
inductive DuplicatePolicy where
  /-- The incoming sample is refused. -/
  | block
  /-- The stored value stays. -/
  | first
  /-- The incoming value replaces the stored one. -/
  | last
  /-- The lesser of both stays. -/
  | min
  /-- The greater of both stays. -/
  | max
  /-- The sum of both is stored. -/
  | sum
deriving DecidableEq, Inhabited

namespace DuplicatePolicy

/-- Every policy. -/
def all : List DuplicatePolicy := [block, first, last, min, max, sum]

/-- The name of a policy. -/
def name : DuplicatePolicy → String
  | block => "block"
  | first => "first"
  | last => "last"
  | min => "min"
  | max => "max"
  | sum => "sum"

/-- The policy of `name`, which has to be in lower case. -/
def ofName? (name : String) : Option DuplicatePolicy :=
  all.find? (·.name == name)

/-- The policy whose name is `text`, in upper or lower case. -/
def ofText (text : String) : Except String DuplicatePolicy :=
  match ofName? text.toLower with
  | some policy => .ok policy
  | none => .error ("unknown duplicate policy '" ++ text.toLower ++ "'")

/-- The value that survives of `existing` and `incoming`, unless `policy` refuses the incoming one.
A value that does not compare leaves the stored one in place. -/
def resolve? (policy : DuplicatePolicy) (existing incoming : Binary64) : Option Binary64 :=
  match policy with
  | block => none
  | first => some existing
  | last => some incoming
  | min => some (if incoming.less existing then incoming else existing)
  | max => some (if existing.less incoming then incoming else existing)
  | sum => some (existing + incoming)

/-- A value is refused by `block` alone. -/
theorem resolve?_eq_none_iff
    (policy : DuplicatePolicy) (existing incoming : Binary64) :
  policy.resolve? existing incoming = none ↔ policy = block
  := by
  cases policy <;> simp [resolve?]

end DuplicatePolicy

end TimeSeries
