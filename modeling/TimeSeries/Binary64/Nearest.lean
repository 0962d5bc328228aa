import TimeSeries.Binary64
import TimeSeries.Text.Number

/-!
# The nearest value

The double nearest to a number that is given exactly, as a quotient or as a decimal.
Of two that are equally near, it is the one with an even fraction.  What is beyond the
greatest double by half a unit in its last place, or more, is infinite.

`roundQuotient_low` and `roundQuotient_high` say that rounding a quotient to a whole
number moves it by at most one half.
-/

namespace TimeSeries

/-- The whole number nearest to `n / d`; a half goes to the even neighbour. -/
def roundQuotient (n d : Nat) : Nat :=
  if d < 2 * (n % d) ∨ (2 * (n % d) = d ∧ n / d % 2 = 1) then n / d + 1 else n / d

/-- If `d` is not zero, the rounded quotient of `n` and `d` is not below the quotient by more than
one half. -/
theorem roundQuotient_low
    (n : Nat) {d : Nat} (hd : 0 < d) :
  2 * n ≤ (2 * roundQuotient n d + 1) * d
  := by
  have hn := Nat.div_add_mod n d
  have hr := Nat.mod_lt n hd
  unfold roundQuotient
  generalize n / d = q at *
  generalize n % d = r at *
  have hq : q * d = d * q := Nat.mul_comm q d
  split <;> simp only [Nat.add_mul, Nat.mul_add, Nat.mul_assoc, hq] <;> omega

/-- The rounded quotient of `n` and `d` is not above the quotient by more than one half. -/
theorem roundQuotient_high
    (n d : Nat) :
  2 * roundQuotient n d * d ≤ 2 * n + d
  := by
  have hn := Nat.div_add_mod n d
  unfold roundQuotient
  generalize n / d = q at *
  generalize n % d = r at *
  have hq : q * d = d * q := Nat.mul_comm q d
  split <;> simp only [Nat.add_mul, Nat.mul_add, Nat.mul_assoc, hq] <;> omega

namespace Binary64

/-- Positive infinity. -/
def infinity : Binary64 := ⟨0x7ff0000000000000⟩

/-- The value `x` with its sign turned. -/
def negate (x : Binary64) : Binary64 := ⟨x.bits ^^^ 0x8000000000000000⟩

/-- The quotient `n / d` in units of `2 ^ scale`, as another quotient. -/
def scaled (n d : Nat) (scale : Int) : Nat × Nat :=
  (n * 2 ^ (-scale).toNat, d * 2 ^ scale.toNat)

/-- The scale at which the quotient of `n` and `d` has 53 binary digits before the point, or the
least scale of a double if it has fewer there. -/
def scaleOf (n d : Nat) : Int :=
  let low := max ((n.log2 : Int) - d.log2 - 53) (-1074)
  let (m, e) := scaled n d low
  if m / e < 2 ^ 53 then low else low + 1

/-- The double nearest to `n / d`.  The exponent bits count the scales from the least one
on; a quotient that is rounded up to the next power of two carries into them. -/
def ofQuotient (n d : Nat) : Binary64 :=
  let scale := scaleOf n d
  let (m, e) := scaled n d scale
  let bits := (scale + 1074).toNat * 2 ^ 52 + roundQuotient m e
  if bits < 0x7ff0000000000000 then ⟨UInt64.ofNat bits⟩ else infinity

/-- The double nearest to `digits · 10 ^ place`.  From the place 309 on every decimal is
infinite, and those below `10 ^ -330` are zero. -/
def nearest (digits : Nat) (place : Int) : Binary64 :=
  if digits = 0 then zero
  else if 309 ≤ place then infinity
  else if place + digits.log2 < -330 then zero
  else ofQuotient (digits * 10 ^ place.toNat) (10 ^ (-place).toNat)

/-- The digits of the number `cs` with a point among them, and how many come after it. -/
def mantissa? (cs : List Char) : Option (Nat × Nat) :=
  let (whole, fraction) := (Text.splitAt? (· = '.') cs).getD (cs, [])
  (Text.digits? 10 (whole ++ fraction)).map (·, fraction.length)

/-- The double nearest to the number `cs` without a sign, which may have an exponent. -/
def ofUnsigned? (cs : List Char) : Option Binary64 :=
  match Text.splitAt? (fun c => c = 'e' || c = 'E') cs with
  | some (front, exponent) => do
    let (digits, places) ← mantissa? front
    return nearest digits ((← Text.signed? exponent) - places)
  | none => do
    let (digits, places) ← mantissa? cs
    return nearest digits (-places)

/-- The double nearest to the decimal number `cs`. -/
def ofDecimal? (cs : List Char) : Option Binary64 :=
  let (negative, cs) := Text.unsigned cs
  (ofUnsigned? cs).map fun x => if negative then x.negate else x

/-- The double of `text`: a decimal number, or in any case the name of an infinity or of a NaN. -/
def ofText? (text : String) : Option Binary64 :=
  let (negative, cs) := Text.unsigned text.toList
  let name := cs.map Char.toLower
  let x? :=
    if name = "inf".toList || name = "infinity".toList then some infinity
    else if name = "nan".toList then some undefined
    else ofUnsigned? cs
  x?.map fun x => if negative then x.negate else x

end Binary64

end TimeSeries
