import DatabaseTracing.Json.Numeral
import DatabaseTracing.Json.Scanner
import DatabaseTracing.Json.Value

/-! # Reading JSON values

A text is read as one value with nothing but blanks around it. Of members with
the same key the last gives the value.
-/
namespace DatabaseTracing.Json
open Scanner

def ofNumeral (n : Numeral) : Option Json :=
  match n.toInt? with
  | some i => some (.integer i)
  | none => n.toFloat?.map .float

/-- Sets a member; one that is there already keeps its place. -/
def setMember (name : String) (j : Json) : List (String × Json) → List (String × Json)
  | [] => [(name, j)]
  | m :: rest => if m.1 = name then (name, j) :: rest else m :: setMember name j rest

mutual

/-- The value at the front of the text. The first argument is fuel; every character takes two at
most. -/
def readValue : Nat → List Char → Except Fault (Json × List Char)
  | 0, cs => .error ⟨.eofValue, cs, 0⟩
  | fuel + 1, cs => do
    let (c, rest) ← valueStart cs
    match c with
    | 'n' => (word ['u', 'l', 'l'] rest).map (.null, ·)
    | 't' => (word ['r', 'u', 'e'] rest).map (.bool true, ·)
    | 'f' => (word ['a', 'l', 's', 'e'] rest).map (.bool false, ·)
    | '"' => (Scanner.string rest).map fun r => (.string r.1, r.2)
    | '[' => (readItems fuel true rest).map fun r => (.array r.1, r.2)
    | '{' => (readMembers fuel true [] rest).map fun r => (.object r.1, r.2)
    | c =>
      if c = '-' ∨ c.isDigit then do
        let (n, rest) ← numeral .eofValue (c :: rest)
        match ofNumeral n with
        | some j => .ok (j, rest)
        | none => .error (n.rangeFault rest)
      else .error ⟨.expectedValue, c :: rest, 1⟩

def readItems : Nat → Bool → List Char → Except Fault (List Json × List Char)
  | 0, _, cs => .error ⟨.eofList, cs, 0⟩
  | fuel + 1, first, cs =>
    match skipBlanks cs with
    | [] => .error ⟨.eofList, [], 1⟩
    | ']' :: rest => .ok ([], rest)
    | c :: rest => do
      if !first && c != ',' then .error ⟨.expectedListEnd, c :: rest, 1⟩
      let (j, rest) ← readValue fuel (if first then c :: rest else rest)
      let (js, rest) ← readItems fuel false rest
      .ok (j :: js, rest)

def readMembers : Nat → Bool → List (String × Json) → List Char →
    Except Fault (List (String × Json) × List Char)
  | 0, _, _, cs => .error ⟨.eofObject, cs, 0⟩
  | fuel + 1, first, members, cs => do
    match ← nextKey first cs with
    | (none, rest) => .ok (members, rest)
    | (some name, rest) => do
      let (j, rest) ← readValue fuel (← colon rest)
      readMembers fuel false (setMember name j members) rest

end

def read (text : List Char) : Except Fault Json := do
  let (j, rest) ← readValue (2 * text.length + 1) text
  match skipBlanks rest with
  | [] => .ok j
  | rest => .error ⟨.trailingCharacters, rest, 1⟩

def parse (text : String) : Except String Json :=
  match read text.toList with
  | .ok j => .ok j
  | .error f => .error (f.message text.toList)

end DatabaseTracing.Json
