import DatabaseTracing.Dialect
import Mathlib.Data.List.Basic

/-! # Reading SQL text

A reader of SQL text sees characters and quoted literals. In a literal a backslash
makes the next character part of it, whatever that character is; the literal runs
to the next quote of its own kind, or to the end of the text. A literal written by
`MySql.literal` is read as one literal, and its content is the text it was written
for; a text without quotes is read character by character.
-/
namespace DatabaseTracing.MySql

inductive Piece where
  | plain (c : Char)
  /-- A quoted literal, as it is written between its quotes; the end of the text may leave it
  open. -/
  | literal (quote : Char) (written : List Char) (closed : Bool)
  deriving DecidableEq, Repr

def Piece.chars : Piece → List Char
  | .plain c => [c]
  | .literal q written closed => q :: written ++ if closed then [q] else []

inductive Scan where
  | outside
  | inside (quote : Char) (written : List Char)
  /-- Behind a backslash in a literal. -/
  | escaping (quote : Char) (written : List Char)

namespace Scan

def chars : Scan → List Char
  | outside => []
  | inside q written | escaping q written => q :: written

def pieces : Scan → List Char → List Piece
  | outside, [] => []
  | outside, c :: cs =>
    if isQuote c then pieces (inside c []) cs else .plain c :: pieces outside cs
  | inside q written, [] | escaping q written, [] => [.literal q written false]
  | inside q written, c :: cs =>
    if c = q then .literal q written true :: pieces outside cs
    else if c = '\\' then pieces (escaping q (written ++ [c])) cs
    else pieces (inside q (written ++ [c])) cs
  | escaping q written, c :: cs => pieces (inside q (written ++ [c])) cs

end Scan

def read (text : String) : List Piece := Scan.outside.pieces text.toList

/-- What a literal stands for: an escaped character is the character itself. -/
def content : List Char → List Char
  | '\\' :: c :: cs => c :: content cs
  | c :: cs => c :: content cs
  | [] => []

/-! ### Nothing is lost -/

theorem Scan.flatMap_chars_pieces (s : Scan) (cs : List Char) :
    (s.pieces cs).flatMap Piece.chars = s.chars ++ cs := by
  induction cs generalizing s with
  | nil => cases s <;> simp [pieces, chars, Piece.chars]
  | cons c cs ih =>
    cases s with
    | outside =>
      by_cases hc : isQuote c
      · simp [pieces, hc, ih, chars]
      · simp [pieces, hc, ih, chars, Piece.chars]
    | inside q written =>
      by_cases hq : c = q
      · simp [pieces, hq, ih, chars, Piece.chars]
      · by_cases hb : c = '\\'
        · simp only [pieces, if_neg hq, if_pos hb, ih, chars]
          simp
        · simp [pieces, hq, hb, ih, chars]
    | escaping q written => simp [pieces, ih, chars]

/-- The pieces of a text, one behind the other, spell it. -/
theorem flatMap_chars_read (text : String) : (read text).flatMap Piece.chars = text.toList :=
  Scan.flatMap_chars_pieces .outside text.toList

/-! ### Literals as the dialect writes them -/

theorem content_escape_append (c : Char) (cs : List Char) :
    content (escape c ++ cs) = c :: content cs := by
  by_cases hc : c = '\'' ∨ c = '\\'
  · simp [escape, hc, content]
  · have hb : c ≠ '\\' := fun h => hc (Or.inr h)
    rw [escape, if_neg hc, List.singleton_append, content]
    exact fun _ _ h => absurd h hb

theorem content_flatMap_escape (cs : List Char) : content (cs.flatMap escape) = cs := by
  induction cs with
  | nil => rfl
  | cons c cs ih => rw [List.flatMap_cons, content_escape_append, ih]

theorem pieces_escape_append (written : List Char) (c : Char) (t : List Char) :
    (Scan.inside '\'' written).pieces (escape c ++ t)
      = (Scan.inside '\'' (written ++ escape c)).pieces t := by
  by_cases hc : c = '\'' ∨ c = '\\'
  · simp [escape, hc, Scan.pieces]
  · have hq : c ≠ '\'' := fun h => hc (Or.inl h)
    have hb : c ≠ '\\' := fun h => hc (Or.inr h)
    simp [escape, Scan.pieces, hq, hb]

theorem pieces_flatMap_escape_append (written cs t : List Char) :
    (Scan.inside '\'' written).pieces (cs.flatMap escape ++ t)
      = (Scan.inside '\'' (written ++ cs.flatMap escape)).pieces t := by
  induction cs generalizing written with
  | nil => simp
  | cons c cs ih =>
    rw [List.flatMap_cons, List.append_assoc, pieces_escape_append, ih, List.append_assoc]

/-- A literal that the dialect writes is complete, and no text behind it becomes part of it. -/
theorem pieces_literal_append (cs t : List Char) :
    Scan.outside.pieces (literal cs ++ t)
      = .literal '\'' (cs.flatMap escape) true :: Scan.outside.pieces t := by
  have hopen : Scan.outside.pieces (literal cs ++ t)
      = (Scan.inside '\'' []).pieces (cs.flatMap escape ++ '\'' :: t) := by
    simp [literal, Scan.pieces, isQuote]
  rw [hopen, pieces_flatMap_escape_append]
  simp [Scan.pieces]

/-! ### Text without quotes -/

def Unquoted (cs : List Char) : Prop := ∀ c ∈ cs, isQuote c = false

@[simp] theorem unquoted_cons {c : Char} {cs : List Char} :
    Unquoted (c :: cs) ↔ isQuote c = false ∧ Unquoted cs := by simp [Unquoted]

theorem Unquoted.pieces_append {cs : List Char} (h : Unquoted cs) (t : List Char) :
    Scan.outside.pieces (cs ++ t) = cs.map .plain ++ Scan.outside.pieces t := by
  induction cs with
  | nil => rfl
  | cons c cs ih =>
    obtain ⟨hc, hcs⟩ := unquoted_cons.mp h
    simp [Scan.pieces, hc, ih hcs]

/-! ### Numbers and keywords -/

/-- The characters of numbers and keywords: no quote and no placeholder is among them. -/
def isWordChar (c : Char) : Bool := c.isAlphanum || c == '-' || c == '+' || c == '.'

def Word (cs : List Char) : Prop := ∀ c ∈ cs, isWordChar c = true

@[simp] theorem word_nil : Word [] := by simp [Word]

@[simp] theorem word_cons {c : Char} {cs : List Char} :
    Word (c :: cs) ↔ isWordChar c = true ∧ Word cs := by simp [Word]

@[simp] theorem word_append {cs ds : List Char} : Word (cs ++ ds) ↔ Word cs ∧ Word ds :=
  List.forall_mem_append

theorem word_of_all {cs : List Char} (h : cs.all isWordChar = true) : Word cs :=
  List.all_eq_true.mp h

theorem Word.sublist {cs ds : List Char} (h : Word ds) (hs : cs.Sublist ds) : Word cs :=
  fun c hc => h c (hs.subset hc)

theorem Word.not_mem {cs : List Char} (h : Word cs) {c : Char} (hc : isWordChar c = false) :
    c ∉ cs := by
  intro hmem
  simp [h c hmem] at hc

theorem Word.unquoted {cs : List Char} (h : Word cs) : Unquoted cs := by
  intro c hc
  rw [Bool.eq_false_iff]
  intro hquote
  simp only [isQuote, Bool.or_eq_true, beq_iff_eq] at hquote
  rcases hquote with (rfl | rfl) | rfl <;> exact h.not_mem (by decide) hc

theorem word_replicate {c : Char} (hc : isWordChar c = true) (n : Nat) :
    Word (List.replicate n c) := by
  intro d hd
  rwa [List.eq_of_mem_replicate hd]

theorem word_digitsOf (n : Nat) : Word (Decimal.digitsOf n) := by
  intro c hc
  have hd : c.isDigit = true := Nat.isDigit_of_mem_toDigits (by decide) (by decide) hc
  simp [isWordChar, Char.isAlphanum, hd]

theorem word_integerChars (n : Int) : Word (Json.integerChars n) := by
  have h := word_digitsOf n.natAbs
  have hminus : isWordChar '-' = true := by decide
  unfold Json.integerChars
  split <;> simp [h, hminus]

theorem word_positional {ds : List Char} (h : Word ds) (x : Int) :
    Word (Decimal.positional ds x) := by
  have hzero : isWordChar '0' = true := by decide
  have hpoint : isWordChar '.' = true := by decide
  have hzeros := word_replicate hzero
  have htake := fun n => h.sublist (List.take_sublist n ds)
  have hdrop := fun n => h.sublist (List.drop_sublist n ds)
  unfold Decimal.positional
  split
  · simp [hzero, hpoint, h, hzeros]
  · dsimp only
    split <;> simp [hzero, hpoint, htake, hdrop, hzeros]

theorem word_scientific {ds : List Char} (h : Word ds) (x : Int) :
    Word (Decimal.scientific ds x) := by
  have hpoint : isWordChar '.' = true := by decide
  have hmark : isWordChar 'e' = true := by decide
  have hsign : isWordChar (if x < 0 then '-' else '+') = true := by split <;> decide
  have hexp := word_digitsOf x.natAbs
  unfold Decimal.scientific
  split
  · simp only [word_cons] at h
    simp [h, hpoint, hmark, hsign, hexp]
  · simp [h, hmark, hsign, hexp]

theorem word_floatChars (x : Float) : Word (Json.floatChars x) := by
  have hminus : isWordChar '-' = true := by decide
  have hzero : Word ['0', '.', '0'] := word_of_all (by decide)
  have hsc (s : Decimal.Scientific) : Word (s.chars Decimal.jsonFormat) := by
    unfold Decimal.Scientific.chars
    split
    · exact word_positional (word_digitsOf _) _
    · exact word_scientific (word_digitsOf _) _
  unfold Json.floatChars Decimal.floatChars
  split
  · dsimp only
    split <;> split <;> simp only [word_cons, hminus, hzero, hsc, and_self]
  · exact word_of_all (by decide)

end DatabaseTracing.MySql
