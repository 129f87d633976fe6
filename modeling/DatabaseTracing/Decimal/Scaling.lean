/-! # Scaling by powers of ten

A number that is read has its digits in a 64-bit significand and a decimal
exponent. Its float is the float of the significand, multiplied or divided by a
power of ten. Each of these steps rounds, so that the result may be a neighbour
of the float nearest to the number.
-/
namespace DatabaseTracing.Decimal

def greatestPower : Nat := 308

def powerOfTen (n : Nat) : Float := Float.ofScientific 1 false n

/-- The float times `10^exponent`, unless that is infinite. A power too small to be divided by at
once is divided by in several steps. -/
def scale (x : Float) (exponent : Int) : Option Float :=
  if x == 0 then some x
  else if greatestPower < exponent then none
  else if 0 ≤ exponent then
    let y := x * powerOfTen exponent.toNat
    if y.isFinite then some y else none
  else if -greatestPower ≤ exponent then some (x / powerOfTen exponent.natAbs)
  else scale (x / powerOfTen greatestPower) (exponent + greatestPower)
termination_by (-exponent).toNat
decreasing_by simp only [greatestPower] at *; omega

end DatabaseTracing.Decimal
