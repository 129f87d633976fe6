import DatabaseTracing.Json.Printer

/-! # SQL dialects

A dialect renders the values bound to a statement back into its SQL text. In the
MySQL dialect a `?` outside quotes takes the next value; values that are texts are
written as single-quoted literals, so that none of their characters ends the
literal.
-/
namespace DatabaseTracing

structure Dialect where
  name : String
  explain : String → List Json → String

namespace MySql

/-- The characters that open a quoted part; the same character closes it. -/
def isQuote (c : Char) : Bool := c == '\'' || c == '"' || c == '`'

def escape (c : Char) : List Char := if c = '\'' ∨ c = '\\' then ['\\', c] else [c]

def literal (cs : List Char) : List Char := '\'' :: cs.flatMap escape ++ ['\'']

/-- A value as SQL text; arrays and objects are literals of their JSON text. -/
def valueChars : Json → List Char
  | .null => ['N', 'U', 'L', 'L']
  | .bool true => ['t', 'r', 'u', 'e']
  | .bool false => ['f', 'a', 'l', 's', 'e']
  | .integer n => Json.integerChars n
  | .float x => Json.floatChars x
  | .string s => literal s.toList
  | .array items => literal (Json.array items).chars
  | .object members => literal (Json.object members).chars

/-- Copies the text and puts the next value at each `?` outside quotes, as long as there is one.
The first argument is the quote that is open. -/
def interpolate : Option Char → List Json → List Char → List Char
  | _, _, [] => []
  | some q, values, c :: cs => c :: interpolate (if c = q then none else some q) values cs
  | none, values, c :: cs =>
    if isQuote c then c :: interpolate (some c) values cs
    else if c = '?' then
      match values with
      | [] => '?' :: interpolate none [] cs
      | v :: rest => valueChars v ++ interpolate none rest cs
    else c :: interpolate none values cs

def explain (sql : String) (values : List Json) : String :=
  String.ofList (interpolate none values sql.toList)

end MySql

def Dialect.mysql : Dialect := ⟨"mysql", MySql.explain⟩

end DatabaseTracing
