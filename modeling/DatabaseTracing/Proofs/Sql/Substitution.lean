import DatabaseTracing.Proofs.Sql.Placeholders
import Mathlib.Data.List.Sort

/-! # Substitution by position

Which characters are quoted can be told from the text alone: a quote outside all literals
opens one, and it runs to the next occurrence of that quote or to the end. Cut at the
question marks that are not quoted, a text comes apart in one way only, and `explain`
puts it together again with the values in between.
-/
namespace DatabaseTracing.MySql
variable {cs : List Char} {a b i : Nat}

/-- The position is in reach of a literal that is opened at `a`: the same quote has not stood
between them. -/
def Covers (cs : List Char) (a i : Nat) : Prop :=
  a ≤ i ∧ ∀ k, a < k → k < i → cs[k]? ≠ cs[a]?

/-- A quote that no earlier literal covers opens one. -/
def Opens (cs : List Char) (a : Nat) : Prop :=
  (∃ q, cs[a]? = some q ∧ isQuote q) ∧ ∀ b, b < a → Opens cs b → ¬ Covers cs b a
termination_by a

def Quoted (cs : List Char) (i : Nat) : Prop := ∃ a, Opens cs a ∧ Covers cs a i

/-! ### Literals -/

theorem opens_iff : Opens cs a ↔
    (∃ q, cs[a]? = some q ∧ isQuote q) ∧ ∀ b, b < a → Opens cs b → ¬ Covers cs b a := by
  rw [Opens]

theorem Opens.isQuote {c : Char} (h : Opens cs a) (hc : cs[a]? = some c) : isQuote c := by
  obtain ⟨q, hq, hquote⟩ := (opens_iff.mp h).1
  rw [hc] at hq
  exact Option.some.inj hq ▸ hquote

theorem covers_succ_self (cs : List Char) (a : Nat) : Covers cs a (a + 1) := by
  refine ⟨Nat.le_succ a, fun k hk hk' => ?_⟩
  omega

theorem Covers.earlier (h : Covers cs a i) (hb : a ≤ b) (hi : b ≤ i) : Covers cs a b := by
  refine ⟨hb, fun k hk hk' => ?_⟩
  exact h.2 k hk (Nat.lt_of_lt_of_le hk' hi)

/-- Literals do not overlap. -/
theorem Opens.eq_of_covers (ha : Opens cs a) (hb : Opens cs b) (hai : Covers cs a i)
    (hbi : Covers cs b i) : a = b := by
  rcases Nat.lt_trichotomy a b with hlt | heq | hlt
  · exact absurd (hai.earlier hlt.le hbi.1) ((opens_iff.mp hb).2 a hlt ha)
  · exact heq
  · exact absurd (hbi.earlier hlt.le hai.1) ((opens_iff.mp ha).2 b hlt hb)

/-- What the reader of `explain` knows of the text ahead of a position. -/
def Place.Tells (cs : List Char) (i : Nat) : Place → Prop
  | outside => ∀ a, a < i → Opens cs a → ¬ Covers cs a i
  | inside q => ∃ a, a < i ∧ Opens cs a ∧ Covers cs a i ∧ cs[a]? = some q
  | escaped _ => False

theorem Place.Tells.next {p : Place} {c : Char} (hp : p.Tells cs i) (hc : cs[i]? = some c) :
    (p.next noEscapes c).Tells cs (i + 1) := by
  cases p with
  | outside =>
    by_cases hq : isQuote c
    · have hopens : Opens cs i := opens_iff.mpr ⟨⟨c, hc, hq⟩, hp⟩
      simp only [Place.next, hq, if_true]
      exact ⟨i, Nat.lt_succ_self i, hopens, covers_succ_self cs i, hc⟩
    · simp only [Place.next, hq]
      intro a ha hopens hcovers
      rcases Nat.lt_succ_iff_lt_or_eq.mp ha with hlt | rfl
      · exact hp a hlt hopens (hcovers.earlier hlt.le (Nat.le_succ i))
      · exact hq (hopens.isQuote hc)
  | inside q =>
    obtain ⟨a, ha, hopens, hcovers, hquote⟩ := hp
    by_cases hq : c = q
    · subst hq
      simp only [Place.next, if_true]
      intro b hb hopens' hcovers'
      -- A literal that covers the closing quote is the one that is open.
      obtain rfl := hopens.eq_of_covers hopens' hcovers
        (hcovers'.earlier (Nat.lt_succ_iff.mp hb) (Nat.le_succ i))
      exact hcovers'.2 i ha (Nat.lt_succ_self i) (hc.trans hquote.symm)
    · simp only [Place.next, hq, noEscapes, if_false, Bool.false_eq_true, and_false]
      refine ⟨a, Nat.lt_succ_of_lt ha, hopens, ⟨Nat.le_succ_of_le hcovers.1, ?_⟩, hquote⟩
      intro k hk hk'
      rcases Nat.lt_succ_iff_lt_or_eq.mp hk' with hlt | rfl
      · exact hcovers.2 k hk hlt
      · simpa [hc, hquote] using hq
  | escaped q => exact hp.elim

theorem Place.tells_behind (cs : List Char) (hi : i ≤ cs.length) :
    (outside.behind noEscapes (cs.take i)).Tells cs i := by
  induction i with
  | zero =>
    intro a ha
    omega
  | succ i ih =>
    have hlt : i < cs.length := by omega
    have hnext : outside.behind noEscapes (cs.take (i + 1)) =
        (outside.behind noEscapes (cs.take i)).next noEscapes cs[i] := by
      rw [List.take_succ_eq_append_getElem hlt, behind, List.foldl_concat]
      rfl
    rw [hnext]
    exact (ih hlt.le).next (List.getElem?_eq_getElem hlt)

theorem Place.Tells.eq_outside_iff {p : Place} (hp : p.Tells cs i) (hi : ¬ Opens cs i) :
    p = outside ↔ ¬ Quoted cs i := by
  cases p with
  | outside =>
    refine iff_of_true rfl ?_
    rintro ⟨a, hopens, hcovers⟩
    rcases hcovers.1.lt_or_eq with hlt | rfl
    · exact hp a hlt hopens hcovers
    · exact hi hopens
  | inside q =>
    obtain ⟨a, -, hopens, hcovers, -⟩ := hp
    exact iff_of_false (by simp) (not_not_intro ⟨a, hopens, hcovers⟩)
  | escaped q => exact hp.elim

/-- The placeholders are the question marks that are not quoted. -/
theorem mem_placeholders : i ∈ Place.outside.placeholders noEscapes cs ↔
    cs[i]? = some '?' ∧ ¬ Quoted cs i := by
  have hplace (hmark : cs[i]? = some '?') :
      Place.outside.behind noEscapes (cs.take i) = .outside ↔ ¬ Quoted cs i := by
    have hi : i < cs.length := (List.getElem?_eq_some_iff.mp hmark).1
    refine (Place.tells_behind cs hi.le).eq_outside_iff fun hopens => ?_
    exact absurd (hopens.isQuote hmark) (by decide)
  simp only [Place.placeholders, List.mem_filter, List.mem_range, decide_eq_true_eq]
  constructor
  · rintro ⟨-, hmark, houtside⟩
    exact ⟨hmark, (hplace hmark).mp houtside⟩
  · rintro ⟨hmark, hquoted⟩
    exact ⟨(List.getElem?_eq_some_iff.mp hmark).1, hmark, (hplace hmark).mpr hquoted⟩

/-! ### Pieces -/

/-- The pieces with a mark ahead of each but the first. -/
def assemble (mark : Nat → List Char) (first : List Char) : List (List Char) → List Char
  | [] => first
  | piece :: rest => first ++ (mark 0 ++ assemble (fun k => mark (k + 1)) piece rest)

/-- The positions of the marks, each being one character long. -/
def marks (first : List Char) : List (List Char) → List Nat
  | [] => []
  | piece :: rest => first.length :: (marks piece rest).map (· + (first.length + 1))

/-- The pieces between those question marks of the text that are not quoted. -/
structure Cut (cs first : List Char) (rest : List (List Char)) : Prop where
  joined : assemble (fun _ => ['?']) first rest = cs
  shown : ∀ i, i ∈ marks first rest ↔ cs[i]? = some '?' ∧ ¬ Quoted cs i

/-- What stands for the `k`-th question mark. -/
def filled (values : List Json) (k : Nat) : List Char := values[k]?.elim ['?'] valueChars

variable {first first' : List Char} {rest rest' : List (List Char)}

@[simp] theorem assemble_cons (mark : Nat → List Char) (c : Char) (first : List Char)
    (rest : List (List Char)) : assemble mark (c :: first) rest = c :: assemble mark first rest := by
  cases rest <;> rfl

@[simp] theorem marks_cons (c : Char) (first : List Char) (rest : List (List Char)) :
    marks (c :: first) rest = (marks first rest).map (· + 1) := by
  cases rest with
  | nil => rfl
  | cons piece rest => simp [marks, Function.comp_def, Nat.add_assoc]

theorem marks_increasing (first : List Char) (rest : List (List Char)) :
    (marks first rest).Pairwise (· < ·) := by
  induction rest generalizing first with
  | nil => exact .nil
  | cons piece rest ih =>
    rw [marks, List.pairwise_cons, List.pairwise_map]
    constructor
    · intro i hi
      obtain ⟨j, -, rfl⟩ := List.mem_map.mp hi
      omega
    · exact (ih piece).imp fun hij => Nat.add_lt_add_right hij _

theorem pieces_eq (hm : marks first rest = marks first' rest')
    (ht : assemble (fun _ => ['?']) first rest = assemble (fun _ => ['?']) first' rest') :
    first = first' ∧ rest = rest' := by
  induction rest generalizing first first' rest' with
  | nil =>
    cases rest' with
    | nil => exact ⟨ht, rfl⟩
    | cons piece' rest' => cases hm
  | cons piece rest ih =>
    cases rest' with
    | nil => cases hm
    | cons piece' rest' =>
      obtain ⟨hlength, htail⟩ := List.cons.inj hm
      obtain ⟨hfirst, hbehind⟩ := List.append_inj ht hlength
      rw [hlength] at htail
      have hmarks : marks piece rest = marks piece' rest' :=
        List.map_injective_iff.mpr (fun _ _ => Nat.add_right_cancel) htail
      obtain ⟨hpiece, hrest⟩ := ih hmarks (List.append_cancel_left hbehind)
      exact ⟨hfirst, congrArg₂ List.cons hpiece hrest⟩

theorem Cut.marks_eq (h : Cut cs first rest) :
    marks first rest = Place.outside.placeholders noEscapes cs := by
  have hplaces : (Place.outside.placeholders noEscapes cs).Pairwise (· < ·) :=
    List.pairwise_lt_range.filter _
  refine (marks_increasing first rest).eq_of_mem_iff hplaces fun i => ?_
  rw [h.shown, mem_placeholders]

theorem Cut.unique (h : Cut cs first rest) (h' : Cut cs first' rest') :
    first = first' ∧ rest = rest' :=
  pieces_eq (h.marks_eq.trans h'.marks_eq.symm) (h.joined.trans h'.joined.symm)

theorem exists_pieces (p : Place) (cs : List Char) : ∃ first rest,
    assemble (fun _ => ['?']) first rest = cs ∧ marks first rest = p.placeholders noEscapes cs := by
  induction cs generalizing p with
  | nil => exact ⟨[], [], rfl, rfl⟩
  | cons c cs ih =>
    obtain ⟨first, rest, hjoined, hmarks⟩ := ih (p.next noEscapes c)
    by_cases h : c = '?' ∧ p = .outside
    · obtain ⟨rfl, rfl⟩ := h
      refine ⟨[], first :: rest, congrArg (List.cons '?') hjoined, ?_⟩
      rw [Place.placeholders_mark, marks, hmarks]
      rfl
    · refine ⟨c :: first, rest, ?_, ?_⟩
      · rw [assemble_cons, hjoined]
      · rw [marks_cons, hmarks, Place.placeholders_copied _ h]

theorem exists_cut (cs : List Char) : ∃ first rest, Cut cs first rest := by
  obtain ⟨first, rest, hjoined, hmarks⟩ := exists_pieces .outside cs
  refine ⟨first, rest, hjoined, fun i => ?_⟩
  rw [hmarks, mem_placeholders]

theorem substitute_marks (values : List Json) (first : List Char) (rest : List (List Char)) :
    substitute (marks first rest) values (assemble (fun _ => ['?']) first rest) =
      assemble (filled values) first rest := by
  induction rest generalizing first values with
  | nil => exact substitute_no_values [] first
  | cons piece rest ih =>
    induction first with
    | nil =>
      cases values with
      | nil => exact substitute_no_values _ _
      | cons v values =>
        have hbehind : substitute (marks [] (piece :: rest)) (v :: values)
              ('?' :: assemble (fun _ => ['?']) piece rest) =
            valueChars v ++ substitute (marks piece rest) values
              (assemble (fun _ => ['?']) piece rest) :=
          substitute_zero_cons ..
        rw [ih] at hbehind
        exact hbehind
    | cons c first hfirst =>
      rw [marks_cons, assemble_cons, assemble_cons, substitute_map_succ, hfirst]

/-- Everything but the question marks that are not quoted is copied. The `k`-th of these makes way
for the `k`-th value, if there is one; what is written for a value is not looked at again. -/
theorem explain_by_position (sql : String) (values : List Json) :
    ∃ first rest, Cut sql.toList first rest ∧
      (∀ first' rest', Cut sql.toList first' rest' → first' = first ∧ rest' = rest) ∧
      (explain sql values).toList = assemble (filled values) first rest := by
  obtain ⟨first, rest, hcut⟩ := exists_cut sql.toList
  refine ⟨first, rest, hcut, fun first' rest' hcut' => hcut'.unique hcut, ?_⟩
  rw [toList_explain, placeholders, ← hcut.marks_eq, ← substitute_marks, hcut.joined]

example : explain "SELECT \"it's ?\", ?, ? FROM `?" [.string "'?", .null] =
    "SELECT \"it's ?\", '\\'?', NULL FROM `?" := by rfl

end DatabaseTracing.MySql
