import DatabaseTracing.Proofs.Sql.Confinement

/-! # Which question marks are placeholders

Reading a text from left to right, one knows at each character whether it stands
between quotes. Where a quoted part ends depends on the escaping rule. `literal`
writes by the rule of SQL, by which a backslash in a literal makes the next
character part of it, and nothing is escaped in a quoted name. `explain` reads
without escapes: its quoted parts run to the next quote of their kind.

By either rule the text with its values is determined by the positions of the
placeholders, and two lists of positions give the same text only if they agree as
far as there are values. So `explain` follows the rule of SQL exactly in those
texts in which its own rule finds the same first placeholders.
-/
namespace DatabaseTracing.MySql

/-- Where a reader stands in a text. -/
inductive Place where
  | outside
  | inside (quote : Char)
  /-- Behind a backslash that escapes the next character. -/
  | escaped (quote : Char)
  deriving DecidableEq, Repr

/-- The quotes between which a backslash makes the next character part of the literal. -/
abbrev Escaping := Char → Bool

def noEscapes : Escaping := fun _ => false

/-- A name in backquotes has no escapes. -/
def literalEscapes : Escaping := fun q => q != '`'

namespace Place

def next (rule : Escaping) : Place → Char → Place
  | outside, c => if isQuote c then inside c else outside
  | inside q, c =>
    if c = q then outside else if c = '\\' ∧ rule q then escaped q else inside q
  | escaped q, _ => inside q

def behind (rule : Escaping) (p : Place) (cs : List Char) : Place := cs.foldl (next rule) p

/-- The positions of the question marks outside quotes, in order. -/
def placeholders (rule : Escaping) (p : Place) (cs : List Char) : List Nat :=
  (List.range cs.length).filter fun i => cs[i]? = some '?' ∧ p.behind rule (cs.take i) = outside

end Place

def placeholders (rule : Escaping) (sql : String) : List Nat :=
  Place.outside.placeholders rule sql.toList

/-- The `k`-th value in place of the character at the `k`-th position; all others are copied. -/
def substitute (positions : List Nat) (values : List Json) (cs : List Char) : List Char :=
  (cs.mapIdx fun i c => ((positions.zip values).lookup i).elim [c] valueChars).flatten

/-! ### One character at a time -/

@[simp] theorem Place.placeholders_nil (rule : Escaping) (p : Place) :
    p.placeholders rule [] = [] := rfl

@[simp] theorem Place.behind_nil (rule : Escaping) (p : Place) : p.behind rule [] = p := rfl

@[simp] theorem Place.behind_cons (rule : Escaping) (p : Place) (c : Char) (cs : List Char) :
    p.behind rule (c :: cs) = (p.next rule c).behind rule cs := rfl

theorem Place.placeholders_cons (rule : Escaping) (p : Place) (c : Char) (cs : List Char) :
    p.placeholders rule (c :: cs) =
      (if c = '?' ∧ p = outside then [0] else []) ++
        ((p.next rule c).placeholders rule cs).map (· + 1) := by
  simp only [placeholders, List.length_cons, List.range_succ_eq_map, List.filter_cons,
    List.filter_map]
  by_cases h : c = '?' ∧ p = outside
  · simp [Function.comp_def, h]
    rfl
  · simp [Function.comp_def, h]
    rfl

theorem Place.placeholders_mark (rule : Escaping) (cs : List Char) :
    outside.placeholders rule ('?' :: cs) = 0 :: (outside.placeholders rule cs).map (· + 1) := by
  simp [placeholders_cons, next, isQuote]

theorem Place.placeholders_copied (rule : Escaping) {p : Place} {c : Char}
    (h : ¬ (c = '?' ∧ p = outside)) (cs : List Char) :
    p.placeholders rule (c :: cs) = ((p.next rule c).placeholders rule cs).map (· + 1) := by
  rw [placeholders_cons, if_neg h, List.nil_append]

@[simp] theorem substitute_nil (positions : List Nat) (values : List Json) :
    substitute positions values [] = [] := rfl

theorem lookup_zip_map_succ (positions : List Nat) (values : List Json) (i : Nat) :
    ((positions.map (· + 1)).zip values).lookup (i + 1) = (positions.zip values).lookup i := by
  induction positions generalizing values with
  | nil => rfl
  | cons j positions ih => cases values <;> simp [List.lookup_cons, ih]

theorem lookup_zip_map_succ_zero (positions : List Nat) (values : List Json) :
    ((positions.map (· + 1)).zip values).lookup 0 = none := by
  induction positions generalizing values with
  | nil => rfl
  | cons j positions ih => cases values <;> simp [List.lookup_cons, ih]

/-- No value is for the first character. -/
theorem substitute_map_succ (positions : List Nat) (values : List Json) (c : Char)
    (cs : List Char) :
    substitute (positions.map (· + 1)) values (c :: cs) = c :: substitute positions values cs := by
  simp [substitute, List.mapIdx_cons, lookup_zip_map_succ, lookup_zip_map_succ_zero]

/-- The first value is for the first character. -/
theorem substitute_zero_cons (positions : List Nat) (v : Json) (values : List Json) (c : Char)
    (cs : List Char) :
    substitute (0 :: positions.map (· + 1)) (v :: values) (c :: cs)
      = valueChars v ++ substitute positions values cs := by
  simp [substitute, List.mapIdx_cons, List.lookup_cons, lookup_zip_map_succ]

@[simp] theorem substitute_no_values (positions : List Nat) (cs : List Char) :
    substitute positions [] cs = cs := by
  induction cs with
  | nil => rfl
  | cons c cs ih => simpa [substitute, List.mapIdx_cons] using ih

/-! ### Where the rules agree -/

theorem Place.next_eq_of_ne {c : Char} (hc : c ≠ '\\') (rule other : Escaping) (p : Place) :
    p.next rule c = p.next other c := by
  cases p <;> simp [next, hc]

/-- Only a backslash is read differently by different rules. -/
theorem Place.placeholders_eq_of_notMem {cs : List Char} (hcs : '\\' ∉ cs)
    (rule other : Escaping) (p : Place) : p.placeholders rule cs = p.placeholders other cs := by
  induction cs generalizing p with
  | nil => rfl
  | cons c cs ih =>
    obtain ⟨hc, htail⟩ : '\\' ≠ c ∧ '\\' ∉ cs := by simpa using hcs
    rw [placeholders_cons, placeholders_cons, next_eq_of_ne hc.symm rule other, ih htail]

theorem placeholders_escape_append (c : Char) (t : List Char) :
    (Place.inside '\'').placeholders literalEscapes (escape c ++ t)
      = ((Place.inside '\'').placeholders literalEscapes t).map (· + (escape c).length) := by
  by_cases hc : c = '\'' ∨ c = '\\'
  · simp [escape, hc, Place.placeholders_copied, Place.next, literalEscapes]
  · have hq : c ≠ '\'' := fun h => hc (Or.inl h)
    have hb : c ≠ '\\' := fun h => hc (Or.inr h)
    simp [escape, Place.placeholders_copied, Place.next, hq, hb]

/-- By the rule of SQL the literal of a text ends where it was written to end, and none of its
characters is a placeholder. -/
theorem placeholders_literal_append (cs t : List Char) :
    Place.outside.placeholders literalEscapes (literal cs ++ t)
      = (Place.outside.placeholders literalEscapes t).map (· + (literal cs).length) := by
  have hcontent : (Place.inside '\'').placeholders literalEscapes (cs.flatMap escape ++ '\'' :: t)
      = (Place.outside.placeholders literalEscapes t).map (· + ((cs.flatMap escape).length + 1)) := by
    induction cs with
    | nil => simp [Place.placeholders_copied, Place.next]
    | cons c cs ih =>
      rw [List.flatMap_cons, List.append_assoc, placeholders_escape_append, ih, List.map_map,
        List.length_append]
      refine List.map_congr_left fun i _ => ?_
      simp only [Function.comp_apply]
      omega
  have hopen : Place.outside.next literalEscapes '\'' = .inside '\'' := rfl
  have hsplit : literal cs ++ t = '\'' :: (cs.flatMap escape ++ '\'' :: t) := by simp [literal]
  have hlength : (literal cs).length = (cs.flatMap escape).length + 1 + 1 := by simp [literal]
  rw [hsplit, hlength, Place.placeholders_copied _ (by simp), hopen, hcontent, List.map_map]
  refine List.map_congr_left fun i _ => ?_
  simp only [Function.comp_apply]
  omega

/-! ### The rule of `explain` -/

/-- The reader that `interpolate` is, by the quote that is open. -/
def Place.ofQuote : Option Char → Place
  | none => outside
  | some q => inside q

theorem Place.next_ofQuote (q c : Char) :
    (ofQuote (some q)).next noEscapes c = ofQuote (if c = q then none else some q) := by
  by_cases hq : c = q <;> simp [next, noEscapes, ofQuote, hq]

theorem interpolate_eq_substitute (quote : Option Char) (values : List Json) (cs : List Char) :
    interpolate quote values cs
      = substitute ((Place.ofQuote quote).placeholders noEscapes cs) values cs := by
  induction cs generalizing quote values with
  | nil => rfl
  | cons c cs ih =>
    cases quote with
    | some q =>
      have hinside : Place.ofQuote (some q) ≠ .outside := nofun
      rw [interpolate, ih, Place.placeholders_copied _ (by simp [hinside]), substitute_map_succ,
        Place.next_ofQuote]
    | none =>
      by_cases hq : isQuote c
      · have hm : c ≠ '?' := by rintro rfl; simp [isQuote] at hq
        simp [interpolate, Place.ofQuote, Place.placeholders_copied, substitute_map_succ, ih,
          Place.next, hq, hm]
      · by_cases hm : c = '?'
        · subst hm
          cases values with
          | nil => simp [interpolate, ih, isQuote]
          | cons v rest =>
            simp [interpolate, Place.ofQuote, Place.placeholders_mark, substitute_zero_cons, ih,
              isQuote]
        · simp [interpolate, Place.ofQuote, Place.placeholders_copied, substitute_map_succ, ih,
            Place.next, hq, hm]

theorem toList_explain (sql : String) (values : List Json) :
    (explain sql values).toList
      = substitute (placeholders noEscapes sql) values sql.toList := by
  rw [explain, String.toList_ofList, interpolate_eq_substitute]
  rfl

/-! ### Positions are seen in the text -/

theorem integerChars_ne_nil (n : Int) : Json.integerChars n ≠ [] := by
  have hdigits : Decimal.digitsOf n.natAbs ≠ [] := Nat.toDigits_ne_nil
  unfold Json.integerChars
  split <;> simp [hdigits]

theorem floatChars_ne_nil (x : Float) : Json.floatChars x ≠ [] := by
  have hpositional (ds : List Char) (n : Int) : Decimal.positional ds n ≠ [] := by
    unfold Decimal.positional
    split <;> simp
  have hsc (s : Decimal.Scientific) : s.chars Decimal.jsonFormat ≠ [] := by
    unfold Decimal.Scientific.chars
    split
    · exact hpositional _ _
    · simp [Decimal.scientific]
  unfold Json.floatChars Decimal.floatChars
  split
  · dsimp only
    split <;> split <;> simp [hsc]
  · simp

theorem valueChars_ne_nil (v : Json) : valueChars v ≠ [] := by
  cases v with
  | bool b => cases b <;> simp [valueChars]
  | integer n => simpa only [valueChars] using integerChars_ne_nil n
  | float x => simpa only [valueChars] using floatChars_ne_nil x
  | null | string | array | object => simp [valueChars, literal]

theorem valueChars_head_ne (v : Json) : (valueChars v).head? ≠ some '?' := by
  cases hv : v.literalText? with
  | some text => simp [valueChars_of_literalText hv, literal]
  | none =>
    intro h
    exact (word_valueChars hv).not_mem (by decide) (List.mem_of_mem_head? h)

/-- A placeholder cannot be mistaken for the value that stands in its place. -/
theorem valueChars_append_ne (v : Json) (t u : List Char) : valueChars v ++ t ≠ '?' :: u := by
  intro h
  obtain ⟨c, cs, hc⟩ := List.exists_cons_of_ne_nil (valueChars_ne_nil v)
  have hhead := valueChars_head_ne v
  rw [hc] at h hhead
  simp only [List.cons_append, List.cons.injEq] at h
  simp [h.1] at hhead

theorem zip_take_length (positions : List Nat) (values : List Json) :
    (positions.take values.length).zip values = positions.zip values := by
  induction positions generalizing values with
  | nil => simp
  | cons i positions ih => cases values <;> simp [ih]

theorem substitute_take_length (positions : List Nat) (values : List Json) (cs : List Char) :
    substitute (positions.take values.length) values cs = substitute positions values cs := by
  simp only [substitute, zip_take_length]

/-- Two readers of a text put the values in the same places if the texts they make are the same. -/
theorem take_placeholders_of_substitute_eq {rule other : Escaping} {p q : Place}
    {values : List Json} {cs : List Char}
    (h : substitute (p.placeholders rule cs) values cs
      = substitute (q.placeholders other cs) values cs) :
    (p.placeholders rule cs).take values.length = (q.placeholders other cs).take values.length := by
  induction cs generalizing p q values with
  | nil => simp
  | cons c cs ih =>
    cases values with
    | nil => simp
    | cons v rest =>
      by_cases hp : c = '?' ∧ p = .outside
      · obtain ⟨rfl, rfl⟩ := hp
        by_cases hq : q = .outside
        · subst hq
          simp only [Place.placeholders_mark, substitute_zero_cons] at h ⊢
          simp [← List.map_take, ih (List.append_cancel_left h)]
        · rw [Place.placeholders_mark, Place.placeholders_copied other (by simp [hq]),
            substitute_zero_cons, substitute_map_succ] at h
          exact absurd h (valueChars_append_ne _ _ _)
      · rw [Place.placeholders_copied rule hp, substitute_map_succ] at h
        by_cases hq : c = '?' ∧ q = .outside
        · obtain ⟨rfl, rfl⟩ := hq
          rw [Place.placeholders_mark, substitute_zero_cons] at h
          exact absurd h.symm (valueChars_append_ne _ _ _)
        · rw [Place.placeholders_copied other hq, substitute_map_succ, List.cons.injEq] at h
          rw [Place.placeholders_copied rule hp, Place.placeholders_copied other hq,
            ← List.map_take, ← List.map_take, ih h.2]

/-- Without backslashes `explain` follows the rule of SQL. -/
theorem toList_explain_of_notMem {sql : String} (hsql : '\\' ∉ sql.toList) (values : List Json) :
    (explain sql values).toList
      = substitute (placeholders literalEscapes sql) values sql.toList := by
  rw [toList_explain, placeholders, placeholders,
    Place.placeholders_eq_of_notMem hsql noEscapes literalEscapes]

/-- `explain` puts the values where its own rule finds placeholders. It puts them where the rule
of SQL finds them exactly if both rules find the same ones, as far as there are values. -/
theorem explain_follows_escapes_iff (sql : String) (values : List Json) :
    (explain sql values).toList = substitute (placeholders noEscapes sql) values sql.toList ∧
      ((explain sql values).toList
          = substitute (placeholders literalEscapes sql) values sql.toList ↔
        (placeholders noEscapes sql).take values.length
          = (placeholders literalEscapes sql).take values.length) := by
  refine ⟨toList_explain sql values, ?_⟩
  rw [toList_explain]
  constructor
  · exact take_placeholders_of_substitute_eq
  · intro h
    rw [← substitute_take_length, h, substitute_take_length]

/-- The quote behind a backslash ends the literal for `explain`, and the quote that ends the
literal opens another one, with the placeholder in it. -/
theorem explain_misreads_escapes :
    ¬ ∀ (sql : String) (values : List Json), (explain sql values).toList
      = substitute (placeholders literalEscapes sql) values sql.toList := by
  intro h
  have hread := h "SELECT 'it\\'s', ?" [.integer 1]
  rw [toList_explain] at hread
  have hplaces := take_placeholders_of_substitute_eq hread
  revert hplaces
  decide

end DatabaseTracing.MySql
