import DatabaseTracing.Json.Numeral
import DatabaseTracing.Json.Scanner

/-! # Passing over JSON values

A value of any type is consumed and checked for its form only: escapes need not
spell characters, and numbers need not be in range.
-/
namespace DatabaseTracing.Scanner

/-- As `escapeSequence`, without asking what a number stands for. -/
def skipEscape : List Char → Except Fault (List Char)
  | [] => .error ⟨.eofString, [], 0⟩
  | c :: cs =>
    if c = 'u' then (hex4 cs).map (·.2)
    else if (simpleEscape c).isSome then .ok cs
    else .error ⟨.invalidEscape, c :: cs, 1⟩

def skipStringBody : Nat → List Char → Except Fault (List Char)
  | 0, cs => .error ⟨.eofString, cs, 0⟩
  | _, [] => .error ⟨.eofString, [], 0⟩
  | fuel + 1, c :: cs =>
    if c < ' ' then .error ⟨.controlCharacter, c :: cs, 0⟩
    else if c = '"' then .ok cs
    else if c = '\\' then do skipStringBody fuel (← skipEscape cs)
    else skipStringBody fuel cs

def skipString (cs : List Char) : Except Fault (List Char) := skipStringBody (cs.length + 1) cs

def skipKey (cs : List Char) : Except Fault (List Char) :=
  match skipBlanks cs with
  | [] => .error ⟨.eofObject, [], 1⟩
  | '"' :: cs => do colon (← skipString cs)
  | cs => .error ⟨.keyNotString, cs, 1⟩

mutual

/-- Passes over a value of any type. The first argument is fuel; every character takes two at
most. -/
def skipValue : Nat → List Char → Except Fault (List Char)
  | 0, cs => .error ⟨.eofValue, cs, 0⟩
  | fuel + 1, cs => do
    let (c, cs) ← valueStart cs
    match c with
    | 'n' => word ['u', 'l', 'l'] cs
    | 't' => word ['r', 'u', 'e'] cs
    | 'f' => word ['a', 'l', 's', 'e'] cs
    | '"' => skipString cs
    | '[' => skipItems fuel true cs
    | '{' => skipMembers fuel true cs
    | _ =>
      if c = '-' ∨ c.isDigit then (numeral .invalidNumber (c :: cs)).map (·.2)
      else .error ⟨.expectedValue, c :: cs, 1⟩

def skipItems : Nat → Bool → List Char → Except Fault (List Char)
  | 0, _, cs => .error ⟨.eofList, cs, 0⟩
  | fuel + 1, first, cs =>
    match skipBlanks cs with
    | [] => .error ⟨.eofList, [], 1⟩
    | ']' :: cs => .ok cs
    | c :: cs =>
      if first then do skipItems fuel false (← skipValue fuel (c :: cs))
      else if c = ',' then do skipItems fuel false (← skipValue fuel cs)
      else .error ⟨.expectedListEnd, c :: cs, 1⟩

def skipMembers : Nat → Bool → List Char → Except Fault (List Char)
  | 0, _, cs => .error ⟨.eofObject, cs, 0⟩
  | fuel + 1, first, cs =>
    match skipBlanks cs with
    | [] => .error ⟨.eofObject, [], 1⟩
    | '}' :: cs => .ok cs
    | c :: cs =>
      if first then do skipMembers fuel false (← skipValue fuel (← skipKey (c :: cs)))
      else if c = ',' then do skipMembers fuel false (← skipValue fuel (← skipKey cs))
      else .error ⟨.expectedObjectEnd, c :: cs, 1⟩

end

end DatabaseTracing.Scanner
