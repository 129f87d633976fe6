/-! # What JSON texts spell

The grammar of JSON, said without a reader. A text spells a tree; blanks between its parts,
escapes and the order of members are free. Numbers are left as they are written, since
not every one is in range.
-/
namespace DatabaseTracing.JsonText

inductive Tree where
  | null
  | bool (b : Bool)
  | number (written : List Char)
  | string (s : String)
  | array (items : List Tree)
  | object (members : List (String × Tree))

namespace Tree

def bool? : Tree → Option Bool
  | .bool b => some b
  | _ => none

def text? : Tree → Option String
  | .string s => some s
  | _ => none

end Tree

def Blanks (cs : List Char) : Prop := ∀ c ∈ cs, c = ' ' ∨ c = '\n' ∨ c = '\t' ∨ c = '\r'

/-! ## Strings -/

def lowerDigits : List Char :=
  ['0', '1', '2', '3', '4', '5', '6', '7', '8', '9', 'a', 'b', 'c', 'd', 'e', 'f']

def upperDigits : List Char :=
  ['0', '1', '2', '3', '4', '5', '6', '7', '8', '9', 'A', 'B', 'C', 'D', 'E', 'F']

def HexDigit (c : Char) (n : Nat) : Prop := lowerDigits[n]? = some c ∨ upperDigits[n]? = some c

inductive Hex : List Char → Nat → Prop
  | four {a b c d : Char} {i j k l : Nat} (ha : HexDigit a i) (hb : HexDigit b j)
      (hc : HexDigit c k) (hd : HexDigit d l) :
      Hex [a, b, c, d] (((i * 16 + j) * 16 + k) * 16 + l)

/-- The letters that stand for a character behind a backslash. -/
def shortEscapes : List (Char × Char) :=
  [('"', '"'), ('\\', '\\'), ('/', '/'), ('b', Char.ofNat 8), ('f', Char.ofNat 12), ('n', '\n'),
    ('r', '\r'), ('t', '\t')]

/-- A character inside a string. -/
inductive SpellsChar : List Char → Char → Prop
  | plain {c : Char} (hc : ' ' ≤ c) (hquote : c ≠ '"') (hescape : c ≠ '\\') : SpellsChar [c] c
  | short {letter c : Char} (h : (letter, c) ∈ shortEscapes) : SpellsChar ['\\', letter] c
  | unit {t : List Char} {n : Nat} (h : Hex t n) (hn : n < 0xd800 ∨ 0xdfff < n) :
      SpellsChar ('\\' :: 'u' :: t) (Char.ofNat n)
  /-- A character beyond U+FFFF is written as a surrogate pair. -/
  | pair {t u : List Char} {m n : Nat} (ht : Hex t m) (hu : Hex u n) (hm : 0xd800 ≤ m ∧ m ≤ 0xdbff)
      (hn : 0xdc00 ≤ n ∧ n ≤ 0xdfff) :
      SpellsChar ('\\' :: 'u' :: (t ++ '\\' :: 'u' :: u))
        (Char.ofNat (0x10000 + (m - 0xd800) * 1024 + (n - 0xdc00)))

inductive SpellsChars : List Char → List Char → Prop
  | nil : SpellsChars [] []
  | cons {t ts cs : List Char} {c : Char} (h : SpellsChar t c) (hs : SpellsChars ts cs) :
      SpellsChars (t ++ ts) (c :: cs)

inductive SpellsString : List Char → String → Prop
  | quoted {t : List Char} {s : String} (h : SpellsChars t s.toList) :
      SpellsString ('"' :: (t ++ ['"'])) s

/-! ## Numbers -/

def Digits (cs : List Char) : Prop := cs ≠ [] ∧ ∀ c ∈ cs, c.isDigit = true

inductive Whole : List Char → Prop
  | zero : Whole ['0']
  | digits {c : Char} {cs : List Char} (hc : c ≠ '0') (h : Digits (c :: cs)) : Whole (c :: cs)

inductive Fraction : List Char → Prop
  | absent : Fraction []
  | digits {cs : List Char} (h : Digits cs) : Fraction ('.' :: cs)

inductive Exponent : List Char → Prop
  | absent : Exponent []
  | digits {e : Char} {sign cs : List Char} (he : e = 'e' ∨ e = 'E')
      (hsign : sign = [] ∨ sign = ['+'] ∨ sign = ['-']) (h : Digits cs) :
      Exponent (e :: (sign ++ cs))

inductive Number : List Char → Prop
  | parts {sign whole fraction exponent : List Char} (hsign : sign = [] ∨ sign = ['-'])
      (hwhole : Whole whole) (hfraction : Fraction fraction) (hexponent : Exponent exponent) :
      Number (sign ++ (whole ++ (fraction ++ exponent)))

/-! ## Values -/

/-- A member's name and the colon behind it. -/
inductive SpellsName : List Char → String → Prop
  | written {b t b' : List Char} {name : String} (hb : Blanks b) (h : SpellsString t name)
      (hb' : Blanks b') : SpellsName (b ++ (t ++ (b' ++ [':']))) name

mutual

/-- The text spells the tree, with nothing around it. -/
inductive Spells : List Char → Tree → Prop
  | null : Spells ['n', 'u', 'l', 'l'] .null
  | boolTrue : Spells ['t', 'r', 'u', 'e'] (.bool true)
  | boolFalse : Spells ['f', 'a', 'l', 's', 'e'] (.bool false)
  | number {t : List Char} (h : Number t) : Spells t (.number t)
  | string {t : List Char} {s : String} (h : SpellsString t s) : Spells t (.string s)
  | emptyArray {b : List Char} (hb : Blanks b) : Spells ('[' :: (b ++ [']'])) (.array [])
  | array {t : List Char} {vs : List Tree} (h : SpellsItems t vs) :
      Spells ('[' :: (t ++ [']'])) (.array vs)
  | emptyObject {b : List Char} (hb : Blanks b) : Spells ('{' :: (b ++ ['}'])) (.object [])
  | object {t : List Char} {ms : List (String × Tree)} (h : SpellsMembers t ms) :
      Spells ('{' :: (t ++ ['}'])) (.object ms)

/-- A value with blanks around it. -/
inductive SpellsElement : List Char → Tree → Prop
  | padded {b t b' : List Char} {v : Tree} (hb : Blanks b) (h : Spells t v) (hb' : Blanks b') :
      SpellsElement (b ++ (t ++ b')) v

/-- Items with commas between them. -/
inductive SpellsItems : List Char → List Tree → Prop
  | last {t : List Char} {v : Tree} (h : SpellsElement t v) : SpellsItems t [v]
  | cons {t ts : List Char} {v : Tree} {vs : List Tree} (h : SpellsElement t v)
      (hs : SpellsItems ts vs) : SpellsItems (t ++ ',' :: ts) (v :: vs)

/-- Members with commas between them. -/
inductive SpellsMembers : List Char → List (String × Tree) → Prop
  | last {k t : List Char} {name : String} {v : Tree} (hk : SpellsName k name)
      (h : SpellsElement t v) : SpellsMembers (k ++ t) [(name, v)]
  | cons {k t ts : List Char} {name : String} {v : Tree} {ms : List (String × Tree)}
      (hk : SpellsName k name) (h : SpellsElement t v) (hs : SpellsMembers ts ms) :
      SpellsMembers (k ++ (t ++ ',' :: ts)) ((name, v) :: ms)

end

theorem Blanks.nil : Blanks [] := by simp [Blanks]

theorem Spells.element {t : List Char} {v : Tree} (h : Spells t v) : SpellsElement t v := by
  have hpadded := SpellsElement.padded .nil h .nil
  rwa [List.nil_append, List.append_nil] at hpadded

end DatabaseTracing.JsonText
