import DatabaseTracing.Json.Fault

/-! # Scanning JSON texts

Scanners consume characters from the front of a text and answer the rest, or the
fault that they meet.
-/
namespace DatabaseTracing.Scanner

def isBlank (c : Char) : Bool := c == ' ' || c == '\n' || c == '\t' || c == '\r'

def skipBlanks (cs : List Char) : List Char := cs.dropWhile isBlank

def word : List Char → List Char → Except Fault (List Char)
  | [], cs => .ok cs
  | _ :: _, [] => .error ⟨.eofValue, [], 0⟩
  | w :: ws, c :: cs => if c = w then word ws cs else .error ⟨.expectedWord, c :: cs, 1⟩

/-! ## Strings -/

def hexDigit (c : Char) : Option Nat :=
  if '0' ≤ c ∧ c ≤ '9' then some (c.toNat - '0'.toNat)
  else if 'a' ≤ c ∧ c ≤ 'f' then some (c.toNat - 'a'.toNat + 10)
  else if 'A' ≤ c ∧ c ≤ 'F' then some (c.toNat - 'A'.toNat + 10)
  else none

def hexNumber (cs : List Char) : Option Nat :=
  cs.foldlM (fun acc c => (hexDigit c).map (acc * 16 + ·)) 0

/-- Four hexadecimal digits. Four bytes are consumed before they are looked at. -/
def hex4 (cs : List Char) : Except Fault (Nat × List Char) :=
  if byteCount (cs.take 4) < 4 then .error ⟨.eofString, [], 0⟩
  else match hexNumber (cs.take 4) with
    | some n => .ok (n, cs.drop 4)
    | none => .error ⟨.invalidEscape, cs, 4⟩

def isLeading (n : Nat) : Bool := 0xd800 ≤ n && n ≤ 0xdbff

def isTrailing (n : Nat) : Bool := 0xdc00 ≤ n && n ≤ 0xdfff

def pairMark : List Char → List Char → Except Fault (List Char)
  | [], cs => .ok cs
  | _ :: _, [] => .error ⟨.eofString, [], 0⟩
  | w :: ws, c :: cs => if c = w then pairMark ws cs else .error ⟨.unfinishedSurrogate, c :: cs, 1⟩

/-- A character given by its number, or by the numbers of a surrogate pair. -/
def unicodeEscape (cs : List Char) : Except Fault (Char × List Char) := do
  let (n, cs) ← hex4 cs
  if isTrailing n then .error ⟨.loneSurrogate, cs, 0⟩
  else if isLeading n then
    let cs ← pairMark ['\\', 'u'] cs
    let (m, cs) ← hex4 cs
    if isTrailing m then .ok (Char.ofNat (0x10000 + (n - 0xd800) * 1024 + (m - 0xdc00)), cs)
    else .error ⟨.loneSurrogate, cs, 0⟩
  else .ok (Char.ofNat n, cs)

def simpleEscape (c : Char) : Option Char :=
  if c = '"' ∨ c = '\\' ∨ c = '/' then some c
  else if c = 'b' then some (Char.ofNat 8)
  else if c = 'f' then some (Char.ofNat 12)
  else if c = 'n' then some '\n'
  else if c = 'r' then some '\r'
  else if c = 't' then some '\t'
  else none

def escapeSequence : List Char → Except Fault (Char × List Char)
  | [] => .error ⟨.eofString, [], 0⟩
  | c :: cs =>
    if c = 'u' then unicodeEscape cs
    else match simpleEscape c with
      | some d => .ok (d, cs)
      | none => .error ⟨.invalidEscape, c :: cs, 1⟩

/-- The characters of a string whose quote has been opened; at most so many of them. -/
def stringBody : Nat → List Char → Except Fault (List Char × List Char)
  | 0, cs => .error ⟨.eofString, cs, 0⟩
  | _, [] => .error ⟨.eofString, [], 0⟩
  | fuel + 1, c :: cs =>
    if c = '"' then .ok ([], cs)
    else if c = '\\' then do
      let (d, cs) ← escapeSequence cs
      let (ds, cs) ← stringBody fuel cs
      .ok (d :: ds, cs)
    else if c < ' ' then .error ⟨.controlCharacter, cs, 0⟩
    else do
      let (ds, cs) ← stringBody fuel cs
      .ok (c :: ds, cs)

def string (cs : List Char) : Except Fault (String × List Char) := do
  let (ds, cs) ← stringBody (cs.length + 1) cs
  .ok (String.ofList ds, cs)

/-! ## Members of objects -/

def key : List Char → Except Fault (String × List Char)
  | '"' :: cs => string cs
  | cs => .error ⟨.keyNotString, cs, 1⟩

/-- The next key of an object, or none behind the brace that closes it. -/
def nextKey (first : Bool) (cs : List Char) : Except Fault (Option String × List Char) :=
  match skipBlanks cs with
  | [] => .error ⟨.eofObject, [], 1⟩
  | '}' :: cs => .ok (none, cs)
  | c :: cs =>
    if first then (key (c :: cs)).map fun r => (some r.1, r.2)
    else if c = ',' then
      match skipBlanks cs with
      | [] => .error ⟨.eofValue, [], 1⟩
      | '}' :: cs => .error ⟨.trailingComma, '}' :: cs, 1⟩
      | d :: cs => (key (d :: cs)).map fun r => (some r.1, r.2)
    else .error ⟨.expectedObjectEnd, c :: cs, 1⟩

def colon (cs : List Char) : Except Fault (List Char) :=
  match skipBlanks cs with
  | [] => .error ⟨.eofObject, [], 1⟩
  | ':' :: cs => .ok cs
  | cs => .error ⟨.expectedColon, cs, 1⟩

def valueStart (cs : List Char) : Except Fault (Char × List Char) :=
  match skipBlanks cs with
  | [] => .error ⟨.eofValue, [], 1⟩
  | c :: cs => .ok (c, cs)

end DatabaseTracing.Scanner
