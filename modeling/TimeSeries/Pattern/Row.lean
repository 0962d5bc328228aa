/-!
# Rows

Parts of a pattern that stand side by side, of which only the number and the depth
count.  The depth of a part is the number of levels in it: of groups, brackets,
repetitions, and of rows and choices of more than one part.
-/

namespace TimeSeries.Pattern

/-- The number of parts in a row, and the depth of the deepest. -/
structure Row where
  count : Nat
  deepest : Nat
deriving DecidableEq

namespace Row

/-- No parts. -/
def empty : Row := ⟨0, 0⟩

/-- Adds a part. -/
def push (r : Row) (depth : Nat) : Row := ⟨r.count + 1, max r.deepest depth⟩

/-- The depth of a row.  A single part is no level of its own. -/
def depth (r : Row) : Nat := if r.count < 2 then r.deepest else r.deepest + 1

end Row

end TimeSeries.Pattern
