import TimeSeries.Instances

/-!
# Double precision values

A value is the bit pattern of an IEEE 754 double, so that two values are equal
exactly when all their bits are: the zeros differ, and every NaN keeps its
payload.  Numeric comparison is a separate matter.  It goes through `key`, an
integer that orders the patterns as the numbers they stand for, with both zeros
at `0`, and a NaN compares with nothing.

Arithmetic rounds to nearest.  An operand that is NaN is passed on, made quiet,
the left one first; an operation without a numeric result gives `undefined`.
-/

namespace TimeSeries

/-- A double, given by its `bits`.  Two doubles are equal when all their bits are, so that there are
two zeros and many NaNs. -/
structure Binary64 where
  bits : UInt64
deriving DecidableEq, Inhabited

namespace Binary64

/-- The bits of `x` without its sign, as a number. -/
def magnitude (x : Binary64) : Nat :=
  (x.bits &&& 0x7fffffffffffffff).toNat

/-- Is the sign bit of `x` set? -/
def isNegative (x : Binary64) : Bool :=
  0x8000000000000000 ≤ x.bits

/-- Has `x` every exponent bit set, and a fraction other than zero? -/
def isNaN (x : Binary64) : Bool :=
  0x7ff0000000000000 < x.magnitude

/-- Has `x` every exponent bit set, and a fraction of zero? -/
def isInfinite (x : Binary64) : Bool :=
  x.magnitude == 0x7ff0000000000000

/-- The place of `x` in the numeric order, where both zeros have the same one.  It means nothing for
a NaN. -/
def key (x : Binary64) : Int :=
  if x.isNegative then -(x.magnitude : Int) else x.magnitude

/-- Is `x` numerically less than `y`?  This is false as soon as one of them is NaN. -/
def less (x y : Binary64) : Bool :=
  !x.isNaN && !y.isNaN && x.key < y.key

/-- Are `x` and `y` numerically equal?  This is false as soon as one of them is NaN. -/
def agrees (x y : Binary64) : Bool :=
  !x.isNaN && !y.isNaN && x.key == y.key

/-- Positive zero. -/
def zero : Binary64 := ⟨0⟩

/-- One. -/
def one : Binary64 := ⟨0x3ff0000000000000⟩

/-- The greatest finite number. -/
def greatest : Binary64 := ⟨0x7fefffffffffffff⟩

/-- The least finite number. -/
def least : Binary64 := ⟨0xffefffffffffffff⟩

/-- The result of an operation that has no numeric result. -/
def undefined : Binary64 := ⟨0xfff8000000000000⟩

/-- The NaN `x` with its quiet bit set, as an operation gives it back. -/
def quiet (x : Binary64) : Binary64 := ⟨x.bits ||| 0x0008000000000000⟩

/-- The number `x` as a float, with the same bits. -/
def toFloat (x : Binary64) : Float := Float.ofBits x.bits

/-- The bits of a float `x` that was computed, where every NaN is `undefined`. -/
def ofFloat (x : Float) : Binary64 :=
  if x.isNaN then undefined else ⟨x.toBits⟩

/-- The operation `op` on two floats as an operation on their bits.  A NaN among `x` and `y` is
given back quiet. -/
def lift (op : Float → Float → Float) (x y : Binary64) : Binary64 :=
  if x.isNaN then x.quiet
  else if y.isNaN then y.quiet
  else ofFloat (op x.toFloat y.toFloat)

instance : Add Binary64 := ⟨lift (· + ·)⟩
instance : Sub Binary64 := ⟨lift (· - ·)⟩
instance : Mul Binary64 := ⟨lift (· * ·)⟩
instance : Div Binary64 := ⟨lift (· / ·)⟩

/-- The square root of `x`.  A NaN is given back quiet, and a number below zero has an `undefined`
root. -/
def sqrt (x : Binary64) : Binary64 :=
  if x.isNaN then x.quiet else ofFloat x.toFloat.sqrt

/-- The double nearest to the count `n`. -/
def ofCount (n : UInt64) : Binary64 := ⟨n.toFloat.toBits⟩

instance (n : Nat) : OfNat Binary64 n := ⟨ofCount (UInt64.ofNat n)⟩

/-- If `x` is less than `y` and `y` less than `z`, then `x` is less than `z`. -/
theorem less_trans
    {x y z : Binary64} (hxy : x.less y = true) (hyz : y.less z = true) :
  x.less z = true
  := by
  simp only [less, Bool.and_eq_true, decide_eq_true_eq] at *
  exact ⟨⟨hxy.1.1, hyz.1.2⟩, Int.lt_trans hxy.2 hyz.2⟩

end Binary64

end TimeSeries
