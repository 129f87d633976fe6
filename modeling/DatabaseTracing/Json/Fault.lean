import DatabaseTracing.Decimal.Notation
import DatabaseTracing.Text.Quoted

/-! # Faults in JSON texts

A fault tells its cause and where in the text it was noticed, counted in bytes of
UTF-8; from that and the whole text follow its line and column.
-/
namespace DatabaseTracing.Scanner

inductive Unexpected where
  | null
  | boolean (b : Bool)
  | integer (n : Int)
  | float (x : Float)
  | string (s : String)
  | sequence
  | map

inductive Cause where
  | eofValue
  | eofString
  | eofList
  | eofObject
  | expectedWord
  | expectedValue
  | expectedColon
  | expectedListEnd
  | expectedObjectEnd
  | keyNotString
  | trailingComma
  | trailingCharacters
  | invalidNumber
  | numberOutOfRange
  | invalidEscape
  | loneSurrogate
  | unfinishedSurrogate
  | controlCharacter
  | invalidType (found : Unexpected) (expected : String)
  | duplicateField (name : String)

/-- A cause, the text left when it was noticed, and how many bytes of that text the fault's place
lies ahead. -/
structure Fault where
  cause : Cause
  rest : List Char
  ahead : Nat

def Unexpected.text : Unexpected → String
  | null => "null"
  | boolean b => "boolean \x60" ++ toString b ++ "\x60"
  | integer n => "integer \x60" ++ toString n ++ "\x60"
  | float x =>
    "floating point \x60" ++ String.ofList (Decimal.floatChars Decimal.jsonFormat x) ++ "\x60"
  | string s => "string " ++ quoted s
  | sequence => "sequence"
  | map => "map"

def Cause.text : Cause → String
  | eofValue => "EOF while parsing a value"
  | eofString => "EOF while parsing a string"
  | eofList => "EOF while parsing a list"
  | eofObject => "EOF while parsing an object"
  | expectedWord => "expected ident"
  | expectedValue => "expected value"
  | expectedColon => "expected \x60:\x60"
  | expectedListEnd => "expected \x60,\x60 or \x60]\x60"
  | expectedObjectEnd => "expected \x60,\x60 or \x60\x7d\x60"
  | keyNotString => "key must be a string"
  | trailingComma => "trailing comma"
  | trailingCharacters => "trailing characters"
  | invalidNumber => "invalid number"
  | numberOutOfRange => "number out of range"
  | invalidEscape => "invalid escape"
  | loneSurrogate => "lone leading surrogate in hex escape"
  | unfinishedSurrogate => "unexpected end of hex escape"
  | controlCharacter => "control character (\\u0000-\\u001F) found while parsing a string"
  | invalidType found expected => "invalid type: " ++ found.text ++ ", expected " ++ expected
  | duplicateField name => "duplicate field \x60" ++ name ++ "\x60"

structure Place where
  line : Nat
  column : Nat
  deriving DecidableEq, Repr

/-- The place so many bytes further on; it may lie within a character. -/
def Place.advance (p : Place) : Nat → List Char → Place
  | 0, _ => p
  | _, [] => p
  | n + 1, c :: cs =>
    if c = '\n' then advance ⟨p.line + 1, 0⟩ n cs
    else if c.utf8Size ≤ n + 1 then advance ⟨p.line, p.column + c.utf8Size⟩ (n + 1 - c.utf8Size) cs
    else ⟨p.line, p.column + (n + 1)⟩

def byteCount (cs : List Char) : Nat := cs.foldl (fun n c => n + c.utf8Size) 0

def Fault.place (f : Fault) (text : List Char) : Place :=
  Place.advance ⟨1, 0⟩ (byteCount text - byteCount f.rest + f.ahead) text

def Fault.message (f : Fault) (text : List Char) : String :=
  let p := f.place text
  f.cause.text ++ " at line " ++ toString p.line ++ " column " ++ toString p.column

end DatabaseTracing.Scanner
