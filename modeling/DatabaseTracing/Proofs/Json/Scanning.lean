import DatabaseTracing.Json.Skipping
import DatabaseTracing.Proofs.Json.Grammar

/-! # Scanners read what the grammar spells

Each scanner takes the text of its part from the front and leaves the rest. A number has to
be followed by something that does not go on with it.
-/
namespace DatabaseTracing.JsonText
open Scanner
variable {b t k cs rest : List Char} {c : Char} {n fuel : Nat} {s name : String}

/-! ## Blanks -/

theorem isBlank_iff : isBlank c = true ↔ c = ' ' ∨ c = '\n' ∨ c = '\t' ∨ c = '\r' := by
  simp [isBlank, or_assoc]

theorem Blanks.skip (h : Blanks b) (cs : List Char) : skipBlanks (b ++ cs) = skipBlanks cs :=
  List.dropWhile_append_of_pos fun c hc => isBlank_iff.mpr (h c hc)

theorem skipBlanks_cons (hc : isBlank c = false) (cs : List Char) :
    skipBlanks (c :: cs) = c :: cs :=
  List.dropWhile_cons_of_neg (by simp [hc])

theorem Blanks.skip_cons (h : Blanks b) (hc : isBlank c = false) (cs : List Char) :
    skipBlanks (b ++ c :: cs) = c :: cs := by
  rw [h.skip, skipBlanks_cons hc]

/-! ## Strings -/

theorem HexDigit.scanned (h : HexDigit c n) : hexDigit c = some n ∧ c.utf8Size = 1 := by
  have hlower : ∀ i : Fin 16, hexDigit lowerDigits[i] = some i.val ∧ lowerDigits[i].utf8Size = 1 := by
    decide
  have hupper : ∀ i : Fin 16, hexDigit upperDigits[i] = some i.val ∧ upperDigits[i].utf8Size = 1 := by
    decide
  rcases h with h | h
  · obtain ⟨hn, rfl⟩ := List.getElem?_eq_some_iff.mp h
    exact hlower ⟨n, hn⟩
  · obtain ⟨hn, rfl⟩ := List.getElem?_eq_some_iff.mp h
    exact hupper ⟨n, hn⟩

theorem Hex.scanned (h : Hex t n) (cs : List Char) : hex4 (t ++ cs) = .ok (n, cs) := by
  rcases h with @⟨a, b, c, d, i, j, k, l, ha, hb, hc, hd⟩
  simp [hex4, byteCount, hexNumber, ha.scanned, hb.scanned, hc.scanned, hd.scanned]

theorem mem_shortEscapes {letter : Char} (h : (letter, c) ∈ shortEscapes) :
    simpleEscape letter = some c ∧ letter ≠ 'u' := by
  have hall : ∀ e ∈ shortEscapes, simpleEscape e.1 = some e.2 ∧ e.1 ≠ 'u' := by decide
  exact hall _ h

theorem Hex.scanned_unit (h : Hex t n) (hn : n < 0xd800 ∨ 0xdfff < n) (cs : List Char) :
    unicodeEscape (t ++ cs) = .ok (Char.ofNat n, cs) := by
  have hleading : isLeading n = false := by simp [isLeading]; omega
  have htrailing : isTrailing n = false := by simp [isTrailing]; omega
  simp [unicodeEscape, h.scanned, hleading, htrailing, bind, Except.bind]

theorem Hex.scanned_pair {u : List Char} {m : Nat} (ht : Hex t m) (hu : Hex u n)
    (hm : 0xd800 ≤ m ∧ m ≤ 0xdbff) (hn : 0xdc00 ≤ n ∧ n ≤ 0xdfff) (cs : List Char) :
    unicodeEscape (t ++ '\\' :: 'u' :: (u ++ cs)) =
      .ok (Char.ofNat (0x10000 + (m - 0xd800) * 1024 + (n - 0xdc00)), cs) := by
  have hleading : isLeading m = true := by simpa [isLeading] using hm
  have htrailing : isTrailing m = false := by simp [isTrailing]; omega
  have htrailing' : isTrailing n = true := by simpa [isTrailing] using hn
  simp [unicodeEscape, ht.scanned, hu.scanned, hleading, htrailing, htrailing', pairMark, bind,
    Except.bind]

theorem not_lt_space (hc : ' ' ≤ c) : ¬ c < ' ' := Char.not_lt.mpr hc

theorem SpellsChar.scanned (h : SpellsChar t c) (fuel : Nat) (cs : List Char) :
    stringBody (fuel + 1) (t ++ cs) = (stringBody fuel cs).map fun r => (c :: r.1, r.2) := by
  cases h with
  | plain hc hquote hescape =>
    simp only [List.cons_append, List.nil_append, stringBody, if_neg hquote, if_neg hescape,
      if_neg (not_lt_space hc)]
    rfl
  | short h =>
    obtain ⟨hsimple, hu⟩ := mem_shortEscapes h
    simp [stringBody, escapeSequence, hu, hsimple, bind, Except.bind, Except.map]
  | unit h hn =>
    simp [stringBody, escapeSequence, h.scanned_unit hn cs, bind, Except.bind, Except.map]
  | pair ht hu hm hn =>
    simp [stringBody, escapeSequence, ht.scanned_pair hu hm hn cs, bind, Except.bind, Except.map]

theorem SpellsChars.scanned (h : SpellsChars t cs) (hfuel : t.length < fuel) (rest : List Char) :
    stringBody fuel (t ++ '"' :: rest) = .ok (cs, rest) := by
  induction h generalizing fuel with
  | nil =>
    obtain ⟨fuel, rfl⟩ := Nat.exists_eq_add_of_lt hfuel
    simp [stringBody]
  | @cons t ts cs c h _ ih =>
    have ht : 0 < t.length := by cases h <;> simp
    obtain ⟨fuel, rfl⟩ : ∃ m, fuel = m + 1 := ⟨fuel - 1, by omega⟩
    rw [List.length_append] at hfuel
    rw [List.append_assoc, h.scanned, ih (by omega)]
    rfl

/-- A surrogate pair is passed over in two steps, any other character in one. -/
theorem SpellsChar.passed (h : SpellsChar t c) : ∃ steps ≤ t.length, ∀ fuel cs,
    skipStringBody (fuel + steps) (t ++ cs) = skipStringBody fuel cs := by
  cases h with
  | plain hc hquote hescape =>
    refine ⟨1, Nat.le_refl 1, fun fuel cs => ?_⟩
    simp only [List.cons_append, List.nil_append, skipStringBody, if_neg hquote, if_neg hescape,
      if_neg (not_lt_space hc)]
  | short h =>
    obtain ⟨hsimple, hu⟩ := mem_shortEscapes h
    refine ⟨1, Nat.le_succ 1, fun fuel cs => ?_⟩
    simp [skipStringBody, skipEscape, hu, hsimple, bind, Except.bind]
  | unit h hn =>
    refine ⟨1, by simp, fun fuel cs => ?_⟩
    simp [skipStringBody, skipEscape, h.scanned, bind, Except.bind, Except.map]
  | pair ht hu hm hn =>
    refine ⟨2, by simp, fun fuel cs => ?_⟩
    simp [skipStringBody, skipEscape, ht.scanned, hu.scanned, bind, Except.bind, Except.map]

theorem SpellsChars.passed (h : SpellsChars t cs) (hfuel : t.length < fuel) (rest : List Char) :
    skipStringBody fuel (t ++ '"' :: rest) = .ok rest := by
  induction h generalizing fuel with
  | nil =>
    obtain ⟨fuel, rfl⟩ := Nat.exists_eq_add_of_lt hfuel
    simp [skipStringBody]
  | cons h _ ih =>
    obtain ⟨steps, hsteps, hpassed⟩ := h.passed
    rw [List.length_append] at hfuel
    obtain ⟨fuel, rfl⟩ : ∃ m, fuel = m + steps := ⟨fuel - steps, by omega⟩
    rw [List.append_assoc, hpassed]
    exact ih (by omega)

theorem SpellsString.exists_cons (h : SpellsString t s) : ∃ body, t = '"' :: body ∧
    ∀ rest, Scanner.string (body ++ rest) = .ok (s, rest) ∧ skipString (body ++ rest) = .ok rest := by
  obtain ⟨h⟩ := h
  refine ⟨_, rfl, fun rest => ?_⟩
  have hfuel (t : List Char) : t.length < (t ++ '"' :: rest).length + 1 := by
    rw [List.length_append]
    omega
  rw [List.append_assoc, List.singleton_append, Scanner.string, skipString, h.scanned (hfuel _),
    h.passed (hfuel _)]
  refine ⟨?_, rfl⟩
  change Except.ok (String.ofList s.toList, rest) = _
  rw [String.ofList_toList]

theorem SpellsString.of_cons (h : SpellsString (c :: t) s) : c = '"' ∧
    ∀ rest, Scanner.string (t ++ rest) = .ok (s, rest) ∧ skipString (t ++ rest) = .ok rest := by
  obtain ⟨body, heq, hbody⟩ := h.exists_cons
  obtain ⟨rfl, rfl⟩ := List.cons.inj heq
  exact ⟨rfl, hbody⟩

/-! ## Names of members -/

theorem Blanks.scanned_colon (h : Blanks b) (cs : List Char) : colon (b ++ ':' :: cs) = .ok cs := by
  rw [colon, h.skip_cons (by decide)]
  rfl

/-- A name is read as the key of a member, whether it is the first or stands behind a comma. -/
theorem SpellsName.scanned (h : SpellsName k name) (cs : List Char) : ∃ b', Blanks b' ∧
    nextKey true (k ++ cs) = .ok (some name, b' ++ ':' :: cs) ∧ ∀ b, Blanks b →
      nextKey false (b ++ ',' :: (k ++ cs)) = .ok (some name, b' ++ ':' :: cs) := by
  obtain ⟨hb, h, hb'⟩ := h
  rename_i b t b'
  obtain ⟨body, rfl, hbody⟩ := h.exists_cons
  have hk : b ++ ('"' :: body ++ (b' ++ [':'])) ++ cs =
      b ++ '"' :: (body ++ (b' ++ ':' :: cs)) := by simp
  have hkey : (key ('"' :: (body ++ (b' ++ ':' :: cs)))).map (fun r => (some r.1, r.2)) =
      .ok (some name, b' ++ ':' :: cs) := by
    rw [key, (hbody _).1]
    rfl
  refine ⟨b', hb', ?_, fun c hc => ?_⟩
  · rw [hk, nextKey, hb.skip_cons (by decide)]
    exact hkey
  · have hskip := hb.skip_cons (show isBlank '"' = false by decide) (body ++ (b' ++ ':' :: cs))
    rw [hk, nextKey, hc.skip_cons (by decide)]
    simp [hskip]
    exact hkey

theorem SpellsName.passed (h : SpellsName k name) (cs : List Char) : skipKey (k ++ cs) = .ok cs := by
  obtain ⟨hb, h, hb'⟩ := h
  rename_i b t b'
  obtain ⟨body, rfl, hbody⟩ := h.exists_cons
  have hk : b ++ ('"' :: body ++ (b' ++ [':'])) ++ cs =
      b ++ '"' :: (body ++ (b' ++ ':' :: cs)) := by simp
  rw [hk, skipKey, hb.skip_cons (by decide)]
  simp only [(hbody _).2, bind, Except.bind, hb'.scanned_colon]

theorem Blanks.scanned_brace (h : Blanks b) (first : Bool) (cs : List Char) :
    nextKey first (b ++ '}' :: cs) = .ok (none, cs) := by
  rw [nextKey, h.skip_cons (by decide)]
  rfl

/-! ## Numbers -/

/-- No number goes on with this text. -/
def Delimited (rest : List Char) : Prop :=
  ∀ c ∈ rest.head?, c.isDigit = false ∧ c ≠ '.' ∧ c ≠ 'e' ∧ c ≠ 'E'

theorem delimited_of_ne (h : c.isDigit = false ∧ c ≠ '.' ∧ c ≠ 'e' ∧ c ≠ 'E') (cs : List Char) :
    Delimited (c :: cs) := by
  intro d hd
  obtain rfl := Option.mem_some.mp hd
  exact h

theorem delimited_cons (hc : c = ',' ∨ c = ']' ∨ c = '}') (cs : List Char) : Delimited (c :: cs) := by
  rcases hc with rfl | rfl | rfl <;> exact delimited_of_ne (by decide) cs

theorem Blanks.delimited (h : Blanks b) (hrest : Delimited rest) : Delimited (b ++ rest) := by
  cases b with
  | nil => exact hrest
  | cons c cs =>
    rcases h c List.mem_cons_self with rfl | rfl | rfl | rfl <;> exact delimited_of_ne (by decide) _

theorem digits_append (h : ∀ c ∈ t, c.isDigit = true) (hrest : ∀ c ∈ rest.head?, c.isDigit = false) :
    digits (t ++ rest) = (t, rest) := by
  have hstop : rest.takeWhile Char.isDigit = [] ∧ rest.dropWhile Char.isDigit = rest := by
    cases rest with
    | nil => simp
    | cons c cs => simp [hrest c (by simp)]
  rw [digits, List.takeWhile_append_of_pos h, List.dropWhile_append_of_pos h, hstop.1, hstop.2,
    List.append_nil]

theorem Whole.scanned (h : Whole t) (hrest : ∀ c ∈ rest.head?, c.isDigit = false) (eof : Cause) :
    wholeDigits eof (t ++ rest) = .ok (t, rest) := by
  cases h with
  | zero =>
    cases rest with
    | nil => simp [wholeDigits]
    | cons c cs => simp [wholeDigits, hrest c (by simp)]
  | @digits c cs hc h =>
    have hall : ∀ d ∈ cs, d.isDigit = true := fun d hd => h.2 d (List.mem_cons_of_mem c hd)
    simp [wholeDigits, hc, h.2 c (by simp), digits_append hall hrest]

theorem Fraction.scanned (h : Fraction t) (hrest : ∀ c ∈ rest.head?, c.isDigit = false ∧ c ≠ '.')
    (eof : Cause) : ∃ fraction, fractionDigits eof (t ++ rest) = .ok (fraction, rest) := by
  cases h with
  | absent =>
    refine ⟨none, ?_⟩
    cases rest with
    | nil => rfl
    | cons c cs => simp [fractionDigits, (hrest c (by simp)).2]
  | @digits cs h =>
    refine ⟨some cs, ?_⟩
    simp [fractionDigits, digits_append h.2 fun c hc => (hrest c hc).1, h.1]

theorem Exponent.scanned (h : Exponent t) (hrest : Delimited rest) (eof : Cause) :
    ∃ exponent, exponentDigits eof (t ++ rest) = .ok (exponent, rest) := by
  cases h with
  | absent =>
    refine ⟨none, ?_⟩
    cases rest with
    | nil => rfl
    | cons c cs => simp [exponentDigits, (hrest c (by simp)).2]
  | @digits e sign cs he hsign h =>
    have hdigits := digits_append h.2 fun c hc => (hrest c hc).1
    obtain ⟨d, ds, rfl⟩ := List.exists_cons_of_ne_nil h.1
    have hd : d.isDigit = true := h.2 d (by simp)
    have hplus : d ≠ '+' := by
      rintro rfl
      cases hd
    have hminus : d ≠ '-' := by
      rintro rfl
      cases hd
    refine ⟨some (decide (sign = ['-']), d :: ds), ?_⟩
    rcases hsign with rfl | rfl | rfl <;>
      simp_all [exponentDigits, Scanner.sign]

theorem Exponent.head (h : Exponent t) (hrest : Delimited rest) :
    ∀ c ∈ (t ++ rest).head?, c.isDigit = false ∧ c ≠ '.' := by
  cases h with
  | absent => exact fun c hc => ⟨(hrest c hc).1, (hrest c hc).2.1⟩
  | digits he =>
    intro c hc
    obtain rfl := Option.mem_some.mp hc
    rcases he with rfl | rfl <;> decide

theorem Fraction.head (h : Fraction t) (hrest : ∀ c ∈ rest.head?, c.isDigit = false) :
    ∀ c ∈ (t ++ rest).head?, c.isDigit = false := by
  cases h with
  | absent => exact hrest
  | digits => simp

theorem Whole.head (h : Whole t) : ∃ c cs, t = c :: cs ∧ c.isDigit = true := by
  cases h with
  | zero => exact ⟨'0', [], rfl, by decide⟩
  | digits _ h => exact ⟨_, _, rfl, h.2 _ (by simp)⟩

theorem Number.scanned (h : Number t) (hrest : Delimited rest) (eof : Cause) :
    ∃ n, numeral eof (t ++ rest) = .ok (n, rest) := by
  obtain ⟨hsign, hwhole, hfraction, hexponent⟩ := h
  rename_i sign whole fraction exponent
  have hend := hexponent.head hrest
  obtain ⟨x, hx⟩ := hexponent.scanned hrest eof
  obtain ⟨f, hf⟩ := hfraction.scanned hend eof
  have hw := hwhole.scanned (hfraction.head fun c hc => (hend c hc).1) eof
  refine ⟨⟨decide (sign = ['-']), whole, f, x⟩, ?_⟩
  rcases hsign with rfl | rfl
  · obtain ⟨c, cs, rfl, hc⟩ := hwhole.head
    have hminus : c ≠ '-' := by
      rintro rfl
      cases hc
    simp_all [numeral, bind, Except.bind]
  · simp_all [numeral, bind, Except.bind]

end DatabaseTracing.JsonText
