import DatabaseTracing.Proofs.Sql.Scanner

/-! # Values stay in their literals

Whatever a value holds, it cannot get out of the place that the statement has for
it. Each text is read back as one complete literal where its placeholder stood,
with that text as content, and the statement around it is read as before.
-/
namespace DatabaseTracing

def Json.literalText? : Json → Option String
  | .string s => some s
  | .array items => some (Json.array items).render
  | .object members => some (Json.object members).render
  | _ => none

namespace MySql

theorem valueChars_of_literalText {v : Json} {text : String} (h : v.literalText? = some text) :
    valueChars v = literal text.toList := by
  cases v <;> simp only [Json.literalText?, reduceCtorEq, Option.some.injEq] at h <;>
    simp [valueChars, ← h, Json.render]

theorem word_valueChars {v : Json} (h : v.literalText? = none) : Word (valueChars v) := by
  cases v with
  | null => exact word_of_all (by decide)
  | bool b => cases b <;> exact word_of_all (by decide)
  | integer n => exact word_integerChars n
  | float x => exact word_floatChars x
  | string | array | object => simp [Json.literalText?] at h

/-- How the pieces of a statement turn into those of its text with the values in place. -/
inductive Bound : List Piece → List Json → List Piece → Prop
  | done (values : List Json) : Bound [] values []
  -- Literals of the statement are kept whole, with the question marks in them.
  | kept {p : Piece} {ps qs : List Piece} {values : List Json} (hp : p ≠ .plain '?') :
      Bound ps values qs → Bound (p :: ps) values (p :: qs)
  | surplus {ps qs : List Piece} :
      Bound ps [] qs → Bound (.plain '?' :: ps) [] (.plain '?' :: qs)
  | literal {v : Json} {text : String} {written : List Char} {ps qs : List Piece}
      {values : List Json} (hv : v.literalText? = some text)
      (hcontent : content written = text.toList) :
      Bound ps values qs →
        Bound (.plain '?' :: ps) (v :: values) (.literal '\'' written true :: qs)
  | plain {v : Json} {ps qs : List Piece} {values : List Json} (hv : v.literalText? = none) :
      Bound ps values qs →
        Bound (.plain '?' :: ps) (v :: values) ((valueChars v).map .plain ++ qs)

theorem bound_value {v : Json} {ps : List Piece} {values : List Json} {t : List Char}
    (h : Bound ps values (Scan.outside.pieces t)) :
    Bound (.plain '?' :: ps) (v :: values) (Scan.outside.pieces (valueChars v ++ t)) := by
  cases hv : v.literalText? with
  | some text =>
    rw [valueChars_of_literalText hv, pieces_literal_append]
    exact .literal hv (content_flatMap_escape _) h
  | none =>
    rw [(word_valueChars hv).unquoted.pieces_append]
    exact .plain hv h

/-- The reader of the statement and the reader of its text with the values are side by side: outside
literals, or in the same literal. -/
theorem bound_interpolate {cs : List Char} (hcs : '\\' ∉ cs) (values : List Json) :
    Bound (Scan.outside.pieces cs) values (Scan.outside.pieces (interpolate none values cs)) ∧
      ∀ q written, Bound ((Scan.inside q written).pieces cs) values
        ((Scan.inside q written).pieces (interpolate (some q) values cs)) := by
  induction cs generalizing values with
  | nil =>
    refine ⟨.done values, fun q written => ?_⟩
    exact .kept (by simp) (.done values)
  | cons c cs ih =>
    obtain ⟨hc, htail⟩ : '\\' ≠ c ∧ '\\' ∉ cs := by simpa using hcs
    refine ⟨?_, fun q written => ?_⟩
    · by_cases hq : isQuote c
      · simpa [Scan.pieces, interpolate, hq] using (ih htail values).2 c []
      · by_cases hm : c = '?'
        · subst hm
          cases values with
          | nil => simpa [Scan.pieces, interpolate, hq] using .surplus (ih htail []).1
          | cons v rest => simpa [Scan.pieces, interpolate, hq] using bound_value (ih htail rest).1
        · have hp : Piece.plain c ≠ .plain '?' := by simpa using hm
          simpa [Scan.pieces, interpolate, hq, hm] using .kept hp (ih htail values).1
    · by_cases hq : c = q
      · simpa [Scan.pieces, interpolate, hq] using .kept (by simp) (ih htail values).1
      · simpa [Scan.pieces, interpolate, hq, hc.symm] using
          (ih htail values).2 q (written ++ [c])

/-! ### What the values can change -/

/-- A piece without what stands between the quotes. -/
def Piece.outline : Piece → Piece
  | .plain c => .plain c
  | .literal q _ closed => .literal q [] closed

/-- The text outside literals, and the quotes of the literals. -/
def outline (text : String) : List Piece := (read text).map Piece.outline

/-- The values are the same unless both are texts. -/
def SameOutside (v w : Json) : Prop := v = w ∨ (v.literalText?.isSome ∧ w.literalText?.isSome)

theorem SameOutside.literalText_eq_none {v w : Json} (h : SameOutside v w)
    (hv : v.literalText? = none) : w = v := by
  rcases h with rfl | ⟨hs, -⟩
  · rfl
  · simp [hv] at hs

theorem SameOutside.isSome_literalText {v w : Json} (h : SameOutside v w) {text : String}
    (hv : v.literalText? = some text) : w.literalText?.isSome := by
  rcases h with rfl | ⟨-, hs⟩
  · simp [hv]
  · exact hs

theorem Bound.outline_eq {ps qs rs : List Piece} {values others : List Json}
    (hq : Bound ps values qs) (hr : Bound ps others rs)
    (hsame : List.Forall₂ SameOutside values others) :
    qs.map Piece.outline = rs.map Piece.outline := by
  induction hq generalizing others rs with
  | done => cases hr; rfl
  | kept hp _ ih =>
    cases hr with
    | kept _ hr => simp [ih hr hsame]
    | surplus | literal | plain => exact absurd rfl hp
  | surplus _ ih =>
    cases hsame
    cases hr with
    | kept hp _ => exact absurd rfl hp
    | surplus hr => simp [ih hr .nil]
  | literal hv _ _ ih =>
    cases hsame with
    | cons hvw hrest =>
      have hw := hvw.isSome_literalText hv
      cases hr with
      | kept hp _ => exact absurd rfl hp
      | literal _ _ hr => simp [Piece.outline, ih hr hrest]
      | plain hn _ => simp [hn] at hw
  | plain hv _ ih =>
    cases hsame with
    | cons hvw hrest =>
      obtain rfl := hvw.literalText_eq_none hv
      cases hr with
      | kept hp _ => exact absurd rfl hp
      | literal hw _ _ => simp [hv] at hw
      | plain _ hr => simp [ih hr hrest]

/-- The values are where their placeholders stood, and their texts change nothing else. -/
structure Confined (sql : String) (values : List Json) : Prop where
  bound : Bound (read sql) values (read (explain sql values))
  -- The pieces are the text itself, so that a piece has a place in it.
  spelled : (read (explain sql values)).flatMap Piece.chars = (explain sql values).toList
  outline : ∀ others, List.Forall₂ SameOutside values others →
    outline (explain sql values) = outline (explain sql others)

theorem read_explain (sql : String) (values : List Json) :
    read (explain sql values) = Scan.outside.pieces (interpolate none values sql.toList) := by
  simp [read, explain]

/-- In a statement without backslashes no value gets out of its literal. -/
theorem explain_confined {sql : String} (hsql : '\\' ∉ sql.toList) (values : List Json) :
    Confined sql values := by
  have hbound (vs : List Json) : Bound (read sql) vs (read (explain sql vs)) := by
    rw [read_explain]
    exact (bound_interpolate hsql vs).1
  refine ⟨hbound values, flatMap_chars_read _, ?_⟩
  intro others hsame
  exact (hbound values).outline_eq (hbound others) hsame

theorem explain_confined_adjacent :
    '\\' ∉ "a = '?' OR a IN (?,?)".toList ∧
      Confined "a = '?' OR a IN (?,?)" [.string "x'\\", .string "' OR '?'='"] :=
  have hsql : '\\' ∉ "a = '?' OR a IN (?,?)".toList := by decide
  ⟨hsql, explain_confined hsql _⟩

example : read (explain "IN (?,?)" [.string "x'\\", .string "' OR '?'='"]) =
    [.plain 'I', .plain 'N', .plain ' ', .plain '(', .literal '\'' "x\\'\\\\".toList true,
      .plain ',', .literal '\'' "\\' OR \\'?\\'=\\'".toList true, .plain ')'] := by rfl

end MySql
end DatabaseTracing
