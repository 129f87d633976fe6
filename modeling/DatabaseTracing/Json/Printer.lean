import DatabaseTracing.Decimal.Notation
import DatabaseTracing.Json.Value

/-! # Compact JSON text

No spaces; object members sorted by key; in strings only the quote, the backslash
and the control characters below U+0020 are escaped.
-/
namespace DatabaseTracing.Json

def escape (c : Char) : List Char :=
  if c = '"' then ['\\', '"']
  else if c = '\\' then ['\\', '\\']
  else if c = '\n' then ['\\', 'n']
  else if c = '\r' then ['\\', 'r']
  else if c = '\t' then ['\\', 't']
  else if c = Char.ofNat 8 then ['\\', 'b']
  else if c = Char.ofNat 12 then ['\\', 'f']
  else if c.toNat < 0x20 then
    ['\\', 'u', '0', '0', Nat.digitChar (c.toNat / 16), Nat.digitChar (c.toNat % 16)]
  else [c]

def stringChars (s : String) : List Char := '"' :: s.toList.flatMap escape ++ ['"']

def integerChars (n : Int) : List Char :=
  if n < 0 then '-' :: Decimal.digitsOf n.natAbs else Decimal.digitsOf n.natAbs

/-- Infinities and not-a-number have no JSON number. -/
def floatChars (x : Float) : List Char :=
  if x.isFinite then Decimal.floatChars Decimal.jsonFormat x else ['n', 'u', 'l', 'l']

def commaSeparated : List (List Char) → List Char
  | [] => []
  | [t] => t
  | t :: u :: rest => t ++ ',' :: commaSeparated (u :: rest)

def memberTexts (members : List (String × List Char)) : List (List Char) :=
  (members.mergeSort fun a b => a.1 ≤ b.1).map fun m => stringChars m.1 ++ ':' :: m.2

mutual

def chars : Json → List Char
  | null => ['n', 'u', 'l', 'l']
  | bool true => ['t', 'r', 'u', 'e']
  | bool false => ['f', 'a', 'l', 's', 'e']
  | integer n => integerChars n
  | float x => floatChars x
  | string s => stringChars s
  | array items => '[' :: commaSeparated (itemChars items) ++ [']']
  | object members => '{' :: commaSeparated (memberTexts (memberChars members)) ++ ['}']

def itemChars : List Json → List (List Char)
  | [] => []
  | j :: rest => chars j :: itemChars rest

def memberChars : List (String × Json) → List (String × List Char)
  | [] => []
  | (key, j) :: rest => (key, chars j) :: memberChars rest

end

def render (j : Json) : String := String.ofList j.chars

theorem itemChars_eq_map (items : List Json) : itemChars items = items.map chars := by
  induction items with
  | nil => simp [itemChars]
  | cons j rest ih => simp [itemChars, ih]

theorem memberChars_eq_map (members : List (String × Json)) :
    memberChars members = members.map fun m => (m.1, chars m.2) := by
  induction members with
  | nil => simp [memberChars]
  | cons m rest ih => simp [memberChars, ih]

end DatabaseTracing.Json
