import DatabaseTracing.Decimal.Shortest

/-! # Decimal notation of floats

A float is written as the shortest decimal that rounds to it. Exponents from -5 to
15 are written positionally, always with a point; all others scientifically,
always with a sign.
-/
namespace DatabaseTracing.Decimal

/-- Which exponents of the leading digit are written without an exponent mark. -/
structure Format where
  leastPositional : Int
  greatestPositional : Int
  deriving DecidableEq, Repr

def jsonFormat : Format := ⟨-5, 15⟩

def digitsOf (n : Nat) : List Char := Nat.toDigits 10 n

def positional (ds : List Char) (x : Int) : List Char :=
  if x < 0 then '0' :: '.' :: List.replicate (-x - 1).toNat '0' ++ ds
  else
    let n := x.toNat + 1
    let whole := ds.take n ++ List.replicate (n - ds.length) '0'
    let fraction := ds.drop n
    whole ++ '.' :: if fraction.isEmpty then ['0'] else fraction

/-- Scientific notation, with a point only if more than one digit is written. -/
def scientific (ds : List Char) (x : Int) : List Char :=
  let mantissa := match ds with
    | d :: e :: rest => d :: '.' :: e :: rest
    | _ => ds
  mantissa ++ 'e' :: (if x < 0 then '-' else '+') :: digitsOf x.natAbs

def Scientific.chars (f : Format) (s : Scientific) : List Char :=
  let ds := digitsOf s.digits
  if f.leastPositional ≤ s.exponent ∧ s.exponent ≤ f.greatestPositional then
    positional ds s.exponent
  else scientific ds s.exponent

def floatChars (f : Format) (x : Float) : List Char :=
  let bits := x.toBits
  let magnitude := if bits.toNat % Nat.pow 2 63 = 0 then ['0', '.', '0']
    else (shortest (Binary.ofBits bits)).chars f
  if Nat.pow 2 63 ≤ bits.toNat then '-' :: magnitude else magnitude

end DatabaseTracing.Decimal
