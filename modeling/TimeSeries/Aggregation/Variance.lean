/-!
# Variance

The variance of a list of numbers from their count, their sum and the sum of their
squares.  The formulas are stated for any numbers that can be added, subtracted,
multiplied and divided, and are evaluated in the order in which they are written:
with doubles, another order gives other last bits.
-/

namespace TimeSeries

variable {α : Type} [Add α] [Sub α] [Mul α] [Div α]

/-- The variance of a population of `n` numbers. -/
def populationVariance [OfNat α 2] (sum squares n : α) : α :=
  let mean := sum / n
  (squares - 2 * sum * sum / n + mean * mean * n) / n

/-- The variance of a population estimated from a sample of `n` numbers, at least
two. -/
def sampleVariance [OfNat α 1] [OfNat α 2] (sum squares n : α) : α :=
  populationVariance sum squares n * n / (n - 1)

end TimeSeries
