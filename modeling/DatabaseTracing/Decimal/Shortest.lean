/-! # Shortest decimals of binary fractions

A finite float is `m · 2^q`, and every real in an interval around it rounds to
it. Of the decimals in that interval the one with the fewest digits is taken, of
those the nearest to the float, and of two equally near the one with the even
last digit. All comparisons are made between natural numbers.
-/
namespace DatabaseTracing.Decimal

/-- A positive decimal `d.ddd · 10^exponent`, where `digits` spells `dddd` without a point. -/
structure Scientific where
  digits : Nat
  exponent : Int
  deriving DecidableEq, Repr

/-- A positive binary fraction `m · 2^q`, and whether the gap below it is half the gap above. -/
structure Binary where
  m : Nat
  q : Int
  narrowBelow : Bool
  deriving DecidableEq, Repr

namespace Binary

def ofBits (bits : UInt64) : Binary :=
  let e : Nat := (bits.toNat / Nat.pow 2 52) % Nat.pow 2 11
  let f : Nat := bits.toNat % Nat.pow 2 52
  if e = 0 then ⟨f, -1074, false⟩ else ⟨Nat.pow 2 52 + f, e - 1075, f = 0 && 1 < e⟩

def scale (b : Binary) : Nat := Nat.pow 2 (b.q - 2).toNat

def unit (b : Binary) : Nat := Nat.pow 2 (2 - b.q).toNat

def value (b : Binary) : Nat := 4 * b.m * b.scale

def upper (b : Binary) : Nat := (4 * b.m + 2) * b.scale

def lower (b : Binary) : Nat := (4 * b.m - if b.narrowBelow then 1 else 2) * b.scale

/-- Whether `digits · 10^g` rounds to the number; the ends do exactly if `m` is even. -/
def accepts (b : Binary) (g : Int) (digits : Nat) : Bool :=
  let x := digits * Nat.pow 10 g.toNat * b.unit
  let s := Nat.pow 10 (-g).toNat
  if b.m % 2 = 0 then b.lower * s ≤ x && x ≤ b.upper * s
  else b.lower * s < x && x < b.upper * s

end Binary

def digitCount (n : Nat) : Nat := (Nat.toDigits 10 n).length

def leadingExponent (a b : Nat) : Int :=
  let x : Int := (digitCount a : Int) - digitCount b
  if b * Nat.pow 10 x.toNat ≤ a * Nat.pow 10 (-x).toNat then x else x - 1

/-- The better of the two neighbours on the grid of the multiples of `10^g`, if either reads
back. -/
def onGrid (b : Binary) (g : Int) : Option Nat :=
  let num := b.value * Nat.pow 10 (-g).toNat
  let den := b.unit * Nat.pow 10 g.toNat
  let t := num / den
  match b.accepts g t, b.accepts g (t + 1) with
  | false, false => none
  | true, false => some t
  | false, true => some (t + 1)
  | true, true =>
    if 2 * num < (2 * t + 1) * den then some t
    else if (2 * t + 1) * den < 2 * num then some (t + 1)
    else some (if t % 2 = 0 then t else t + 1)

def trimZeros : Nat → Nat → Nat
  | 0, n => n
  | fuel + 1, n => if n ≠ 0 ∧ n % 10 = 0 then trimZeros fuel (n / 10) else n

/-- The decimal of at most `n + 1` digits that reads back, if there is one; `x` is the exponent of
the number's leading digit. -/
def withDigits (b : Binary) (x : Int) (n : Nat) : Option Scientific :=
  let g := x - n
  (onGrid b g).map fun t => ⟨trimZeros 18 t, g + (digitCount t - 1 : Nat)⟩

def shortest (b : Binary) : Scientific :=
  let x := leadingExponent b.value b.unit
  ((List.range 17).findSome? (withDigits b x)).getD ⟨0, 0⟩

end DatabaseTracing.Decimal
