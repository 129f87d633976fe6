import DatabaseTracing.Json.Skipping
import DatabaseTracing.Settings

/-! # Reading settings documents

A document is an object with the fields as members, or an array with the fields in
their order. What it leaves out takes its default; members with other names are
passed over, whatever their value. Values are checked as they are met, so of two
faults the one further ahead in the text is reported.
-/
namespace DatabaseTracing.Settings
open Scanner

/-! ## Values of the wrong type -/

/-- The value at the front of the text. Of a list or an object nothing is consumed. -/
def unexpected : List Char → Except Fault (Unexpected × List Char)
  | [] => .error ⟨.eofValue, [], 1⟩
  | c :: cs =>
    match c with
    | 'n' => (word ['u', 'l', 'l'] cs).map (.null, ·)
    | 't' => (word ['r', 'u', 'e'] cs).map (.boolean true, ·)
    | 'f' => (word ['a', 'l', 's', 'e'] cs).map (.boolean false, ·)
    | '"' => (string cs).map fun r => (.string r.1, r.2)
    | '[' => .ok (.sequence, c :: cs)
    | '{' => .ok (.map, c :: cs)
    | _ =>
      if c = '-' ∨ c.isDigit then do
        let (n, cs) ← numeral .eofValue (c :: cs)
        match n.toInt?, n.toFloat? with
        | some i, _ => .ok (.integer i, cs)
        | none, some x => .ok (.float x, cs)
        | none, none => .error (n.rangeFault cs)
      else .error ⟨.expectedValue, c :: cs, 1⟩

/-- The fault of a value that is not what is expected. The value is consumed first, and a fault
within it takes precedence. -/
def mismatch (expected : String) (cs : List Char) : Fault :=
  match unexpected cs with
  | .error f => f
  | .ok (u, cs) => ⟨.invalidType u expected, cs, 0⟩

/-! ## Fields -/

def readBool (cs : List Char) : Except Fault (Bool × List Char) := do
  let (c, cs) ← valueStart cs
  match c with
  | 't' => (word ['r', 'u', 'e'] cs).map (true, ·)
  | 'f' => (word ['a', 'l', 's', 'e'] cs).map (false, ·)
  | _ => .error (mismatch "a boolean" (c :: cs))

def readText (cs : List Char) : Except Fault (String × List Char) := do
  let (c, cs) ← valueStart cs
  match c with
  | '"' => string cs
  | _ => .error (mismatch "a string" (c :: cs))

def readEntries : Nat → Bool → NameTable → List Char → Except Fault (NameTable × List Char)
  | 0, _, _, cs => .error ⟨.eofObject, cs, 0⟩
  | fuel + 1, first, table, cs => do
    match ← nextKey first cs with
    | (none, cs) => .ok (table, cs)
    | (some name, cs) => do
      let (value, cs) ← readText (← colon cs)
      readEntries fuel false (table.insert name value) cs

def readTable (cs : List Char) : Except Fault (NameTable × List Char) := do
  let (c, cs) ← valueStart cs
  match c with
  | '{' => readEntries (cs.length + 1) true .empty cs
  | _ => .error (mismatch "a map" (c :: cs))

inductive Field where
  | logResult
  | logSqlParameters
  | operationNames
  deriving DecidableEq, Repr

namespace Field

def all : List Field := [logResult, logSqlParameters, operationNames]

def name : Field → String
  | logResult => "log_result"
  | logSqlParameters => "log_sql_parameters"
  | operationNames => "operation_names"

def ofName? (s : String) : Option Field := all.find? fun f => f.name == s

end Field

structure Draft where
  logResult : Option Bool
  logSqlParameters : Option Bool
  operationNames : Option NameTable

namespace Draft

def empty : Draft := ⟨none, none, none⟩

def has (d : Draft) : Field → Bool
  | .logResult => d.logResult.isSome
  | .logSqlParameters => d.logSqlParameters.isSome
  | .operationNames => d.operationNames.isSome

def read (d : Draft) (f : Field) (cs : List Char) : Except Fault (Draft × List Char) :=
  match f with
  | .logResult => (readBool cs).map fun r => ({ d with logResult := some r.1 }, r.2)
  | .logSqlParameters => (readBool cs).map fun r => ({ d with logSqlParameters := some r.1 }, r.2)
  | .operationNames => (readTable cs).map fun r => ({ d with operationNames := some r.1 }, r.2)

def settings (d : Draft) : Settings where
  logResult := d.logResult.getD Settings.default.logResult
  logSqlParameters := d.logSqlParameters.getD Settings.default.logSqlParameters
  operationNames := d.operationNames.getD Settings.default.operationNames

end Draft

/-! ## Documents -/

/-- A field that occurs twice. The fault lies behind the brace, if one closes the object here. -/
def duplicate (name : String) (cs : List Char) : Fault :=
  match skipBlanks cs with
  | '}' :: cs => ⟨.duplicateField name, cs, 0⟩
  | cs => ⟨.duplicateField name, cs, 0⟩

/-- The members of a document whose brace has been opened. -/
def readFields : Nat → Bool → Draft → List Char → Except Fault (Draft × List Char)
  | 0, _, _, cs => .error ⟨.eofObject, cs, 0⟩
  | fuel + 1, first, d, cs => do
    match ← nextKey first cs with
    | (none, cs) => .ok (d, cs)
    | (some name, cs) =>
      match Field.ofName? name with
      | none => do
        let cs ← skipValue (2 * cs.length + 1) (← colon cs)
        readFields fuel false d cs
      | some f => do
        if d.has f then .error (duplicate name cs)
        let (d, cs) ← d.read f (← colon cs)
        readFields fuel false d cs

def readItems : List Field → Bool → Draft → List Char → Except Fault (Draft × List Char)
  | [], _, d, cs =>
    match skipBlanks cs with
    | [] => .error ⟨.eofList, [], 1⟩
    | ']' :: cs => .ok (d, cs)
    | ',' :: cs =>
      let cs := skipBlanks cs
      .error ⟨if cs.head? = some ']' then .trailingComma else .trailingCharacters, cs, 1⟩
    | cs => .error ⟨.trailingCharacters, cs, 1⟩
  | f :: fs, first, d, cs =>
    match skipBlanks cs with
    | [] => .error ⟨.eofList, [], 1⟩
    | ']' :: cs => .ok (d, cs)
    | c :: cs =>
      if first then do
        let (d, cs) ← d.read f (c :: cs)
        readItems fs false d cs
      else if c = ',' then
        match skipBlanks cs with
        | [] => .error ⟨.eofValue, [], 1⟩
        | ']' :: cs => .error ⟨.trailingComma, ']' :: cs, 1⟩
        | cs => do
          let (d, cs) ← d.read f cs
          readItems fs false d cs
      else .error ⟨.expectedListEnd, c :: cs, 1⟩

def readDocument (cs : List Char) : Except Fault (Draft × List Char) := do
  let (c, cs) ← valueStart cs
  match c with
  | '{' => readFields (cs.length + 1) true .empty cs
  | '[' => readItems Field.all true .empty cs
  | _ => .error (mismatch "struct TracingSettings" (c :: cs))

def read (text : List Char) : Except Fault Settings := do
  let (d, cs) ← readDocument text
  match skipBlanks cs with
  | [] => .ok d.settings
  | cs => .error ⟨.trailingCharacters, cs, 1⟩

def ofJson (text : String) : Except DatabaseError Settings :=
  match read text.toList with
  | .ok s => .ok s
  | .error f => .error (.config ("Invalid tracing settings: " ++ f.message text.toList))

end DatabaseTracing.Settings
