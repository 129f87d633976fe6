import DatabaseTracing.Decimal.Scaling
import DatabaseTracing.Json.Fault

/-! # Numerals in JSON texts

A numeral is scanned as it is written and then given a value: an integer if it is
written as one and 64 bits hold it, and otherwise a float. Only leading digits
that 64 bits hold together count for the float; what else is written ahead of the
point only moves the point.
-/
namespace DatabaseTracing.Scanner

structure Numeral where
  negative : Bool
  whole : List Char
  fraction : Option (List Char)
  exponent : Option (Bool × List Char)

namespace Numeral

def digitValue (c : Char) : Nat := c.toNat - '0'.toNat

def natOf (ds : List Char) : Nat := ds.foldl (fun acc c => acc * 10 + digitValue c) 0

/-- Appends digits to a number as long as 64 bits hold it; the digits left over come with it. -/
def extend (n : Nat) : List Char → Nat × List Char
  | [] => (n, [])
  | c :: cs =>
    if n * 10 + digitValue c < Nat.pow 2 64 then extend (n * 10 + digitValue c) cs else (n, c :: cs)

/-- The number that the counting digits spell, and the power of ten that their last one stands
for. -/
def significand (n : Numeral) : Nat × Int :=
  let (w, left) := extend 0 n.whole
  let places := n.fraction.getD []
  let (m, dropped) := extend w places
  (m, (left.length : Int) - (places.length - dropped.length : Nat))

def exponentValue (n : Numeral) : Int :=
  match n.exponent with
  | none => 0
  | some (negative, ds) => if negative then -(natOf ds : Int) else natOf ds

def toFloat? (n : Numeral) : Option Float :=
  let (m, e) := n.significand
  (Decimal.scale (Float.ofNat m) (e + n.exponentValue)).map fun x => if n.negative then -x else x

def beyondBound (n : Nat) : List Char → List Char
  | [] => []
  | c :: cs =>
    if n * 10 + digitValue c < Nat.pow 2 31 then beyondBound (n * 10 + digitValue c) cs else cs

/-- The fault of a numeral out of range. It is noticed at the end of the numeral, or as soon as the
exponent does not fit 31 bits. -/
def rangeFault (n : Numeral) (rest : List Char) : Fault :=
  let unread := match n.exponent with
    | some (_, ds) => beyondBound 0 ds
    | none => []
  ⟨.numberOutOfRange, unread ++ rest, 0⟩

def toInt? (n : Numeral) : Option Int :=
  match n.fraction, n.exponent with
  | none, none =>
    let i : Int := if n.negative then -(natOf n.whole : Int) else natOf n.whole
    if n.negative ∧ i = 0 then none
    else if -(Nat.pow 2 63 : Nat) ≤ i ∧ i < (Nat.pow 2 64 : Nat) then some i
    else none
  | _, _ => none

end Numeral

def digits (cs : List Char) : List Char × List Char :=
  (cs.takeWhile Char.isDigit, cs.dropWhile Char.isDigit)

/-- The digits ahead of the point; `eof` is the cause of a fault at the end of the text. -/
def wholeDigits (eof : Cause) : List Char → Except Fault (List Char × List Char)
  | [] => .error ⟨eof, [], 0⟩
  | c :: cs =>
    if c = '0' then
      if (cs.head?.any Char.isDigit) then .error ⟨.invalidNumber, cs, 1⟩ else .ok (['0'], cs)
    else if c.isDigit then .ok (c :: (digits cs).1, (digits cs).2)
    else .error ⟨.invalidNumber, c :: cs, 1⟩

def fractionDigits (eof : Cause) : List Char → Except Fault (Option (List Char) × List Char)
  | '.' :: cs =>
    if (digits cs).1.isEmpty then
      .error ⟨if (digits cs).2.isEmpty then eof else .invalidNumber, cs, 1⟩
    else .ok (some (digits cs).1, (digits cs).2)
  | cs => .ok (none, cs)

def sign : List Char → Bool × List Char
  | '-' :: cs => (true, cs)
  | '+' :: cs => (false, cs)
  | cs => (false, cs)

def exponentDigits (eof : Cause) : List Char → Except Fault (Option (Bool × List Char) × List Char)
  | [] => .ok (none, [])
  | c :: cs =>
    if c = 'e' ∨ c = 'E' then
      let (negative, cs) := sign cs
      match cs with
      | [] => .error ⟨eof, [], 0⟩
      | d :: ds =>
        if d.isDigit then .ok (some (negative, (digits (d :: ds)).1), (digits (d :: ds)).2)
        else .error ⟨.invalidNumber, d :: ds, 1⟩
    else .ok (none, c :: cs)

def numeral (eof : Cause) (cs : List Char) : Except Fault (Numeral × List Char) := do
  let negative := cs.head? == some '-'
  let (whole, cs) ← wholeDigits eof (if negative then cs.tail else cs)
  let (fraction, cs) ← fractionDigits eof cs
  let (exponent, cs) ← exponentDigits eof cs
  .ok (⟨negative, whole, fraction, exponent⟩, cs)

end DatabaseTracing.Scanner
