import DatabaseTracing.Proofs.Json.Scanning
import Mathlib.Data.List.DropRight

/-! # Every value is passed over

Fuel of twice the length of a value is enough: a level of nesting takes two of it, and at least
the two characters that open and close it.
-/
namespace DatabaseTracing.JsonText
open Scanner
variable {b t k : List Char} {c : Char} {name : String} {v : Tree} {vs : List Tree}
  {ms : List (String × Tree)}

/-! ## First characters -/

theorem Number.head (h : Number t) : ∃ c cs, t = c :: cs ∧ (c = '-' ∨ c.isDigit = true) := by
  obtain ⟨hsign, hwhole⟩ := h
  obtain ⟨c, cs, rfl, hc⟩ := hwhole.head
  rcases hsign with rfl | rfl
  · exact ⟨c, _, rfl, .inr hc⟩
  · exact ⟨'-', _, rfl, .inl rfl⟩

/-- The characters that other values begin with. -/
def openers : List Char := ['n', 't', 'f', '"', '[', '{']

theorem not_mem_openers (hc : c = '-' ∨ c.isDigit = true) : isBlank c = false ∧ c ∉ ']' :: openers := by
  constructor
  · refine Bool.eq_false_iff.mpr fun hblank => ?_
    rcases isBlank_iff.mp hblank with rfl | rfl | rfl | rfl <;> exact absurd hc (by decide)
  · intro hmem
    simp only [openers, List.mem_cons, List.not_mem_nil, or_false] at hmem
    rcases hmem with rfl | rfl | rfl | rfl | rfl | rfl | rfl <;> exact absurd hc (by decide)

theorem Number.head_not_mem (h : Number (c :: t)) : c ∉ openers := by
  obtain ⟨d, cs, heq, hd⟩ := h.head
  obtain ⟨rfl, rfl⟩ := List.cons.inj heq
  exact fun hmem => (not_mem_openers hd).2 (List.mem_cons_of_mem _ hmem)

theorem Spells.head (h : Spells t v) : ∃ c cs, t = c :: cs ∧ isBlank c = false ∧ c ≠ ']' := by
  cases h with
  | number h =>
    obtain ⟨c, cs, rfl, hc⟩ := h.head
    obtain ⟨hblank, hopeners⟩ := not_mem_openers hc
    exact ⟨c, cs, rfl, hblank, fun h => hopeners (h ▸ List.mem_cons_self)⟩
  | string h =>
    obtain ⟨body, rfl, -⟩ := h.exists_cons
    exact ⟨'"', body, rfl, by decide, by decide⟩
  | _ => exact ⟨_, _, rfl, by decide, by decide⟩

theorem SpellsElement.start (h : SpellsElement t v) :
    ∃ c u b, Spells (c :: u) v ∧ Blanks b ∧
      ∀ rest, valueStart (t ++ rest) = .ok (c, u ++ (b ++ rest)) := by
  obtain ⟨hb, h, hb'⟩ := h
  rename_i b t b'
  obtain ⟨c, u, rfl, hc, -⟩ := h.head
  refine ⟨c, u, b', h, hb', fun rest => ?_⟩
  rw [valueStart, List.append_assoc, List.append_assoc, List.cons_append, hb.skip_cons hc]

theorem skipBlanks_idem (cs : List Char) : skipBlanks (skipBlanks cs) = skipBlanks cs :=
  List.dropWhile_idempotent isBlank cs

theorem skipValue_skipBlanks (fuel : Nat) (cs : List Char) :
    skipValue (fuel + 1) (skipBlanks cs) = skipValue (fuel + 1) cs := by
  simp only [skipValue, valueStart, skipBlanks_idem]

theorem skipValue_number (hc : c = '-' ∨ c.isDigit = true) (fuel : Nat) (cs : List Char) :
    skipValue (fuel + 1) (c :: cs) = (numeral .invalidNumber (c :: cs)).map (·.2) := by
  obtain ⟨hblank, hopeners⟩ := not_mem_openers hc
  simp only [openers, List.mem_cons, not_or] at hopeners
  simp_all [skipValue, valueStart, skipBlanks_cons hblank, bind, Except.bind]

/-! ## One step of a list or an object -/

theorem Blanks.skip_end (h : Blanks b) (fuel : Nat) (first : Bool) (cs : List Char) :
    skipItems (fuel + 1) first (b ++ ']' :: cs) = .ok cs := by
  rw [skipItems, h.skip_cons (by decide)]
  rfl

theorem Blanks.skip_close (h : Blanks b) (fuel : Nat) (first : Bool) (cs : List Char) :
    skipMembers (fuel + 1) first (b ++ '}' :: cs) = .ok cs := by
  rw [skipMembers, h.skip_cons (by decide)]
  rfl

theorem SpellsElement.skip_first (h : SpellsElement t v) (fuel : Nat) (cs : List Char) :
    skipItems (fuel + 2) true (t ++ cs) =
      (skipValue (fuel + 1) (t ++ cs)).bind (skipItems (fuel + 1) false) := by
  obtain ⟨hb, h, hb'⟩ := h
  rename_i b t b'
  obtain ⟨c, t, rfl, hc, hend⟩ := h.head
  have hskip : skipBlanks (b ++ (c :: t ++ b') ++ cs) = c :: (t ++ (b' ++ cs)) := by
    simp [hb.skip, skipBlanks_cons hc]
  rw [← skipValue_skipBlanks, skipItems, hskip]
  simp
  rfl

theorem Blanks.skip_comma (h : Blanks b) (fuel : Nat) (cs : List Char) :
    skipItems (fuel + 1) false (b ++ ',' :: cs) =
      (skipValue fuel cs).bind (skipItems fuel false) := by
  rw [skipItems, h.skip_cons (by decide)]
  rfl

theorem SpellsName.skip_first (h : SpellsName k name) (fuel : Nat) (cs : List Char) :
    skipMembers (fuel + 1) true (k ++ cs) =
      (skipValue fuel cs).bind (skipMembers fuel false) := by
  obtain ⟨body, hbody⟩ : ∃ body, skipBlanks (k ++ cs) = '"' :: body := by
    obtain ⟨hb, h, _⟩ := h
    obtain ⟨body, rfl, -⟩ := h.exists_cons
    rw [List.append_assoc]
    exact ⟨_, hb.skip_cons (by decide) _⟩
  have hkey : skipKey ('"' :: body) = .ok cs := by
    rw [← h.passed cs, ← hbody, skipKey, skipKey, skipBlanks_idem]
  rw [skipMembers, hbody]
  change (skipKey ('"' :: body)).bind (fun cs => (skipValue fuel cs).bind (skipMembers fuel false)) = _
  rw [hkey]
  rfl

theorem SpellsName.skip_comma (h : SpellsName k name) (hb : Blanks b) (fuel : Nat) (cs : List Char) :
    skipMembers (fuel + 1) false (b ++ ',' :: (k ++ cs)) =
      (skipValue fuel cs).bind (skipMembers fuel false) := by
  rw [skipMembers, hb.skip_cons (by decide)]
  change (skipKey (k ++ cs)).bind (fun cs => (skipValue fuel cs).bind (skipMembers fuel false)) = _
  rw [h.passed]
  rfl

theorem SpellsItems.skip_comma (h : SpellsItems t vs) (hb : Blanks b) (fuel : Nat) (cs : List Char) :
    skipItems (fuel + 2) false (b ++ ',' :: (t ++ cs)) = skipItems (fuel + 2) true (t ++ cs) := by
  rw [hb.skip_comma]
  cases h with
  | last h => rw [h.skip_first]
  | cons h => rw [List.append_assoc, h.skip_first]

theorem SpellsMembers.skip_comma (h : SpellsMembers t ms) (hb : Blanks b) (fuel : Nat)
    (cs : List Char) :
    skipMembers (fuel + 1) false (b ++ ',' :: (t ++ cs)) = skipMembers (fuel + 1) true (t ++ cs) := by
  cases h with
  | last hk => rw [List.append_assoc, hk.skip_comma hb, hk.skip_first]
  | cons hk => rw [List.append_assoc, hk.skip_comma hb, hk.skip_first]

/-! ## Whole values -/

theorem Spells.length_pos (h : Spells t v) : 0 < t.length := by
  obtain ⟨c, cs, rfl, -⟩ := h.head
  simp

theorem SpellsElement.length_pos (h : SpellsElement t v) : 0 < t.length := by
  obtain ⟨-, h, -⟩ := h
  grind [h.length_pos]

mutual

theorem Spells.passed {t rest : List Char} {v : Tree} {fuel : Nat} (h : Spells t v)
    (hfuel : 2 * t.length ≤ fuel) (hrest : Delimited rest) : skipValue fuel (t ++ rest) = .ok rest := by
  obtain ⟨fuel, rfl⟩ : ∃ m, fuel = m + 2 := ⟨fuel - 2, by grind [h.length_pos]⟩
  match h with
  | .null | .boolTrue | .boolFalse => rfl
  | .number h =>
    obtain ⟨n, hn⟩ := h.scanned hrest .invalidNumber
    obtain ⟨c, cs, rfl, hc⟩ := h.head
    rw [List.cons_append, skipValue_number hc, ← List.cons_append, hn]
    rfl
  | .string h =>
    obtain ⟨body, rfl, hbody⟩ := h.exists_cons
    exact (hbody rest).2
  | .emptyArray hb =>
    rw [List.cons_append, List.append_assoc]
    exact hb.skip_end fuel true rest
  | .array h =>
    rw [List.cons_append, List.append_assoc]
    exact SpellsItems.passed h (by grind) rest
  | .emptyObject hb =>
    rw [List.cons_append, List.append_assoc]
    exact hb.skip_close fuel true rest
  | .object h =>
    rw [List.cons_append, List.append_assoc]
    exact SpellsMembers.passed h (by grind) rest

theorem SpellsElement.passed {t rest : List Char} {v : Tree} {fuel : Nat} (h : SpellsElement t v)
    (hfuel : 2 * t.length ≤ fuel) (hrest : Delimited rest) :
    ∃ b, Blanks b ∧ skipValue fuel (t ++ rest) = .ok (b ++ rest) := by
  match h with
  | @SpellsElement.padded b t b' _ hb h hb' =>
    have hvalue : skipValue fuel (t ++ (b' ++ rest)) = .ok (b' ++ rest) :=
      Spells.passed h (by grind) (hb'.delimited hrest)
    refine ⟨b', hb', ?_⟩
    obtain ⟨c, cs, rfl, hc, -⟩ := h.head
    obtain ⟨fuel, rfl⟩ : ∃ m, fuel = m + 1 := ⟨fuel - 1, by grind⟩
    rw [List.cons_append] at hvalue
    rw [← skipValue_skipBlanks, List.append_assoc, List.append_assoc, List.cons_append,
      hb.skip_cons hc, hvalue]

theorem SpellsItems.passed {t : List Char} {vs : List Tree} {fuel : Nat} (h : SpellsItems t vs)
    (hfuel : 2 * t.length < fuel) (rest : List Char) :
    skipItems fuel true (t ++ ']' :: rest) = .ok rest := by
  match h with
  | @SpellsItems.last t _ h =>
    obtain ⟨fuel, rfl⟩ : ∃ m, fuel = m + 2 := ⟨fuel - 2, by grind [h.length_pos]⟩
    obtain ⟨b, hb, hvalue⟩ : ∃ b, Blanks b ∧
        skipValue (fuel + 1) (t ++ ']' :: rest) = .ok (b ++ ']' :: rest) :=
      SpellsElement.passed h (by omega) (delimited_cons (by simp) rest)
    rw [h.skip_first, hvalue]
    exact hb.skip_end fuel false rest
  | @SpellsItems.cons t ts _ _ h hs =>
    rw [List.length_append, List.length_cons] at hfuel
    obtain ⟨fuel, rfl⟩ : ∃ m, fuel = m + 3 := ⟨fuel - 3, by grind [h.length_pos]⟩
    obtain ⟨b, hb, hvalue⟩ : ∃ b, Blanks b ∧
        skipValue (fuel + 2) (t ++ ',' :: (ts ++ ']' :: rest)) =
          .ok (b ++ ',' :: (ts ++ ']' :: rest)) :=
      SpellsElement.passed h (by omega) (delimited_cons (by simp) _)
    rw [List.append_assoc, List.cons_append, h.skip_first, hvalue]
    exact (hs.skip_comma hb fuel _).trans (SpellsItems.passed hs (by omega) rest)

theorem SpellsMembers.passed {t : List Char} {ms : List (String × Tree)} {fuel : Nat}
    (h : SpellsMembers t ms) (hfuel : 2 * t.length < fuel) (rest : List Char) :
    skipMembers fuel true (t ++ '}' :: rest) = .ok rest := by
  match h with
  | @SpellsMembers.last k t _ _ hk h =>
    rw [List.length_append] at hfuel
    obtain ⟨fuel, rfl⟩ : ∃ m, fuel = m + 2 := ⟨fuel - 2, by grind [h.length_pos]⟩
    obtain ⟨b, hb, hvalue⟩ : ∃ b, Blanks b ∧
        skipValue (fuel + 1) (t ++ '}' :: rest) = .ok (b ++ '}' :: rest) :=
      SpellsElement.passed h (by omega) (delimited_cons (by simp) rest)
    rw [List.append_assoc, hk.skip_first, hvalue]
    exact hb.skip_close fuel false rest
  | @SpellsMembers.cons k t ts _ _ _ hk h hs =>
    rw [List.length_append, List.length_append, List.length_cons] at hfuel
    obtain ⟨fuel, rfl⟩ : ∃ m, fuel = m + 2 := ⟨fuel - 2, by grind [h.length_pos]⟩
    obtain ⟨b, hb, hvalue⟩ : ∃ b, Blanks b ∧
        skipValue (fuel + 1) (t ++ ',' :: (ts ++ '}' :: rest)) =
          .ok (b ++ ',' :: (ts ++ '}' :: rest)) :=
      SpellsElement.passed h (by omega) (delimited_cons (by simp) _)
    rw [List.append_assoc, List.append_assoc, List.cons_append, hk.skip_first, hvalue]
    exact (hs.skip_comma hb fuel _).trans (SpellsMembers.passed hs (by omega) rest)

end

end DatabaseTracing.JsonText
