import DatabaseTracing.Proofs.Sql.Substitution

/-! # Binding in two steps

A statement can get its first values now and the others later. Its text with the first
values is a statement again: the placeholders that were left over are found there, and
behind each part of the statement the reader stands where it stood without the values.
Only a single quote in a bound text is in the way, since for `explain` it ends the
literal in spite of the backslash ahead of it.
-/
namespace DatabaseTracing

/-- If the value is written as a literal, there is no single quote in its text. -/
def Json.Quoteless (v : Json) : Prop := ∀ text, v.literalText? = some text → '\'' ∉ text.toList

namespace MySql
variable {cs ds : List Char} {v : Json} {values : List Json} {first : List Char}
  {rest : List (List Char)}

/-! ### One text behind another -/

theorem Place.behind_append (rule : Escaping) (p : Place) (cs ds : List Char) :
    p.behind rule (cs ++ ds) = (p.behind rule cs).behind rule ds := List.foldl_append

theorem Place.placeholders_append (rule : Escaping) (p : Place) (cs ds : List Char) :
    p.placeholders rule (cs ++ ds) = p.placeholders rule cs ++
      ((p.behind rule cs).placeholders rule ds).map (· + cs.length) := by
  induction cs generalizing p with
  | nil => simp
  | cons c cs ih =>
    simp [placeholders_cons, ih, Function.comp_def, Nat.add_assoc]

theorem Place.lt_of_mem_placeholders {rule : Escaping} {p : Place} {i : Nat}
    (h : i ∈ p.placeholders rule cs) : i < cs.length :=
  List.mem_range.mp (List.mem_filter.mp h).1

/-- The reader gets past the text and does not notice it: no placeholder is in it, and no quoted
part reaches beyond it. -/
structure Passes (cs : List Char) : Prop where
  behind : Place.outside.behind noEscapes cs = .outside
  placeholders : Place.outside.placeholders noEscapes cs = []

theorem Passes.placeholders_append (h : Passes cs) (ds : List Char) :
    Place.outside.placeholders noEscapes (cs ++ ds) =
      (Place.outside.placeholders noEscapes ds).map (· + cs.length) := by
  rw [Place.placeholders_append, h.placeholders, h.behind, List.nil_append]

theorem Word.passes (h : Word cs) : Passes cs := by
  induction cs with
  | nil => exact ⟨rfl, rfl⟩
  | cons c cs ih =>
    have hquote : isQuote c = false := (unquoted_cons.mp h.unquoted).1
    have hmark : c ≠ '?' := fun hc => h.not_mem (c := '?') (by decide) (by simp [hc])
    obtain ⟨hbehind, hplaces⟩ := ih (word_cons.mp h).2
    have hnext : Place.outside.next noEscapes c = .outside := by simp [Place.next, hquote]
    refine ⟨?_, ?_⟩
    · rw [Place.behind_cons, hnext, hbehind]
    · rw [Place.placeholders_copied _ (by simp [hmark]), hnext, hplaces, List.map_nil]

/-- In a quoted part nothing counts but the quote that opened it. -/
theorem inside_of_notMem {q : Char} (h : q ∉ cs) :
    (Place.inside q).behind noEscapes cs = .inside q ∧
      (Place.inside q).placeholders noEscapes cs = [] := by
  induction cs with
  | nil => exact ⟨rfl, rfl⟩
  | cons c cs ih =>
    obtain ⟨hc, htail⟩ : q ≠ c ∧ q ∉ cs := by simpa using h
    have hnext : (Place.inside q).next noEscapes c = .inside q := by
      simp [Place.next, noEscapes, hc.symm]
    obtain ⟨hbehind, hplaces⟩ := ih htail
    refine ⟨?_, ?_⟩
    · rw [Place.behind_cons, hnext, hbehind]
    · rw [Place.placeholders_copied _ (by simp), hnext, hplaces, List.map_nil]

theorem passes_literal (h : '\'' ∉ cs) : Passes (literal cs) := by
  have hescaped : '\'' ∉ cs.flatMap escape := by
    intro hmem
    obtain ⟨c, hc, hq⟩ := List.mem_flatMap.mp hmem
    by_cases hescape : c = '\'' ∨ c = '\\'
    · have hc' : c ≠ '\'' := fun he => h (he ▸ hc)
      simp [escape, hescape, hc'.symm] at hq
    · simp [escape, hescape] at hq
      exact h (hq ▸ hc)
  obtain ⟨hbehind, hplaces⟩ := inside_of_notMem hescaped
  have hopen : Place.outside.next noEscapes '\'' = .inside '\'' := rfl
  have hclose : (Place.inside '\'').next noEscapes '\'' = .outside := rfl
  refine ⟨?_, ?_⟩
  · rw [literal, List.cons_append, Place.behind_cons, hopen, Place.behind_append, hbehind,
      Place.behind_cons, hclose, Place.behind_nil]
  · rw [literal, List.cons_append, Place.placeholders_copied _ (by simp), hopen,
      Place.placeholders_append, hplaces, hbehind, Place.placeholders_copied _ (by simp),
      Place.placeholders_nil]
    rfl

theorem passes_valueChars (h : v.Quoteless) : Passes (valueChars v) := by
  cases hv : v.literalText? with
  | some text =>
    rw [valueChars_of_literalText hv]
    exact passes_literal (h text hv)
  | none => exact (word_valueChars hv).passes

/-! ### The placeholders that are left over -/

theorem marks_append (pre first : List Char) (rest : List (List Char)) :
    marks (pre ++ first) rest = (marks first rest).map (· + pre.length) := by
  induction pre with
  | nil => simp
  | cons c pre ih => simp [ih, Function.comp_def, Nat.add_assoc]

theorem assemble_append (mark : Nat → List Char) (pre first : List Char)
    (rest : List (List Char)) : assemble mark (pre ++ first) rest = pre ++ assemble mark first rest := by
  cases rest with
  | nil => rfl
  | cons piece rest => exact List.append_assoc ..

/-- Ahead of the first placeholder the reader finds none, and it stands outside quotes there. -/
theorem passes_of_marks {piece : List Char}
    (h : marks first (piece :: rest) =
      Place.outside.placeholders noEscapes (assemble (fun _ => ['?']) first (piece :: rest))) :
    Passes first ∧ marks piece rest =
      Place.outside.placeholders noEscapes (assemble (fun _ => ['?']) piece rest) := by
  set text := assemble (fun _ => ['?']) piece rest with htext
  have hsplit : assemble (fun _ => ['?']) first (piece :: rest) = first ++ '?' :: text := rfl
  rw [hsplit, Place.placeholders_append, marks] at h
  cases hplaces : Place.outside.placeholders noEscapes first with
  | cons i places =>
    rw [hplaces, List.cons_append, List.cons.injEq] at h
    have hi := Place.lt_of_mem_placeholders (hplaces ▸ List.mem_cons_self (a := i))
    omega
  | nil =>
    rw [hplaces, List.nil_append] at h
    by_cases hbehind : Place.outside.behind noEscapes first = .outside
    · refine ⟨⟨hbehind, hplaces⟩, ?_⟩
      rw [hbehind, Place.placeholders_mark, List.map_cons, Nat.zero_add, List.cons.injEq,
        List.map_map] at h
      refine List.map_injective_iff.mpr (fun a b (hab : a + _ = b + _) => Nat.add_right_cancel hab)
        (h.2.trans (List.map_congr_left fun i _ => ?_))
      simp only [Function.comp_apply]
      omega
    · rw [Place.placeholders_copied _ (by simp [hbehind])] at h
      obtain ⟨i, hmem, hi⟩ := List.mem_map.mp (h ▸ List.mem_cons_self)
      obtain ⟨j, -, rfl⟩ := List.mem_map.mp hmem
      omega

theorem assemble_cons_value (v : Json) (values : List Json) (first piece : List Char)
    (rest : List (List Char)) : assemble (filled (v :: values)) first (piece :: rest) =
      first ++ (valueChars v ++ assemble (filled values) piece rest) := rfl

theorem placeholders_assemble (hvalues : ∀ v ∈ values, v.Quoteless)
    (h : marks first rest =
      Place.outside.placeholders noEscapes (assemble (fun _ => ['?']) first rest)) :
    Place.outside.placeholders noEscapes (assemble (filled values) first rest) =
      marks (assemble (filled values) first (rest.take values.length))
        (rest.drop values.length) := by
  induction rest generalizing first values with
  | nil => simpa [assemble] using h.symm
  | cons piece rest ih =>
    cases values with
    | nil => exact h.symm
    | cons v values =>
      obtain ⟨hfirst, htail⟩ := passes_of_marks h
      obtain ⟨hv, hvalues⟩ := List.forall_mem_cons.mp hvalues
      rw [List.length_cons, List.take_succ_cons, List.drop_succ_cons, assemble_cons_value,
        assemble_cons_value, hfirst.placeholders_append, (passes_valueChars hv).placeholders_append,
        ih hvalues htail, marks_append, marks_append]

/-- The surplus placeholders of the first values are the ones for the second. -/
theorem assemble_filled (values others : List Json) (first : List Char)
    (rest : List (List Char)) :
    assemble (filled others) (assemble (filled values) first (rest.take values.length))
        (rest.drop values.length) =
      assemble (filled (values ++ others)) first rest := by
  induction values generalizing first rest with
  | nil => rfl
  | cons v values ih =>
    cases rest with
    | nil => rfl
    | cons piece rest =>
      rw [List.length_cons, List.take_succ_cons, List.drop_succ_cons, assemble_cons_value,
        assemble_append, assemble_append, ih, List.cons_append, assemble_cons_value]

theorem cut_iff : Cut cs first rest ↔ assemble (fun _ => ['?']) first rest = cs ∧
    marks first rest = Place.outside.placeholders noEscapes cs := by
  refine ⟨fun h => ⟨h.joined, h.marks_eq⟩, fun ⟨hjoined, hmarks⟩ => ⟨hjoined, fun i => ?_⟩⟩
  rw [hmarks, mem_placeholders]

theorem Cut.toList_explain {sql : String} (h : Cut sql.toList first rest) (values : List Json) :
    (explain sql values).toList = assemble (filled values) first rest := by
  rw [MySql.toList_explain, placeholders, ← h.marks_eq, ← substitute_marks, h.joined]

/-! ### The same place in the statement -/

/-- Outside quotes a character opens a quoted part, is copied, or makes way for a value. -/
theorem interpolate_cases (values : List Json) (c : Char) :
    (isQuote c = true ∧
      ∀ cs, interpolate none values (c :: cs) = c :: interpolate (some c) values cs) ∨
    (isQuote c = false ∧
      ∀ cs, interpolate none values (c :: cs) = c :: interpolate none values cs) ∨
    ∃ v others, isQuote c = false ∧ v ∈ values ∧ others ⊆ values ∧
      ∀ cs, interpolate none values (c :: cs) = valueChars v ++ interpolate none others cs := by
  cases hc : isQuote c with
  | true => exact .inl ⟨rfl, fun cs => by simp [interpolate, hc]⟩
  | false =>
    by_cases hm : c = '?'
    · cases values with
      | nil => exact .inr (.inl ⟨rfl, fun cs => by simp [interpolate, hm, isQuote]⟩)
      | cons v others =>
        refine .inr (.inr ⟨v, others, rfl, List.mem_cons_self, List.subset_cons_self v others, ?_⟩)
        exact fun cs => by simp [interpolate, hm, isQuote]
    · exact .inr (.inl ⟨rfl, fun cs => by simp [interpolate, hc, hm]⟩)

theorem interpolate_append (quote : Option Char) (values : List Json) (front back : List Char) :
    interpolate quote values front <+: interpolate quote values (front ++ back) := by
  induction front generalizing quote values with
  | nil => simp [interpolate]
  | cons c front ih =>
    rw [List.cons_append]
    rcases quote with _ | q
    · obtain ⟨-, hstep⟩ | ⟨-, hstep⟩ | ⟨v, others, -, -, -, hstep⟩ := interpolate_cases values c
      · simpa only [hstep, List.prefix_cons_inj] using ih ..
      · simpa only [hstep, List.prefix_cons_inj] using ih ..
      · simpa only [hstep, List.prefix_append_right_inj] using ih ..
    · simpa only [interpolate, List.prefix_cons_inj] using ih ..

/-- The reader of the text with the values and the reader of the text are side by side. -/
theorem behind_interpolate (hvalues : ∀ v ∈ values, v.Quoteless) (quote : Option Char)
    (cs : List Char) :
    (Place.ofQuote quote).behind noEscapes (interpolate quote values cs) =
      (Place.ofQuote quote).behind noEscapes cs := by
  induction cs generalizing quote values with
  | nil => simp [interpolate]
  | cons c cs ih =>
    rcases quote with _ | q
    · have hnext : (Place.ofQuote none).next noEscapes c =
          .ofQuote (if isQuote c then some c else none) := by
        cases hc : isQuote c <;> simp [Place.next, Place.ofQuote, hc]
      obtain ⟨hc, hstep⟩ | ⟨hc, hstep⟩ | ⟨v, others, hc, hv, hothers, hstep⟩ :=
        interpolate_cases values c
      · rw [hc, if_pos rfl] at hnext
        rw [hstep, Place.behind_cons, Place.behind_cons, hnext, ih hvalues]
      · rw [hc, if_neg Bool.false_ne_true] at hnext
        rw [hstep, Place.behind_cons, Place.behind_cons, hnext, ih hvalues]
      · have hpasses : (Place.ofQuote none).behind noEscapes (valueChars v) = .ofQuote none :=
          (passes_valueChars (hvalues v hv)).behind
        rw [hc, if_neg Bool.false_ne_true] at hnext
        rw [hstep, Place.behind_append, hpasses, Place.behind_cons, hnext,
          ih fun w hw => hvalues w (hothers hw)]
    · rw [interpolate, Place.behind_cons, Place.behind_cons, Place.next_ofQuote, ih hvalues]

/-- What becomes of a statement that gets some of its values. -/
structure Resumable (sql : String) (values : List Json) : Prop where
  /-- The other values can be put in later. -/
  resumed (others : List Json) :
    explain (explain sql values) others = explain sql (values ++ others)
  /-- The placeholders of the text are those of the statement that were left over. -/
  remaining {first : List Char} {rest : List (List Char)} :
    Cut sql.toList first rest → Cut (explain sql values).toList
      (assemble (filled values) first (rest.take values.length)) (rest.drop values.length)
  /-- Behind each part of the statement the reader is in the same quoted part, or outside. -/
  places {front back : List Char} : sql.toList = front ++ back →
    interpolate none values front <+: (explain sql values).toList ∧
      Place.outside.behind noEscapes (interpolate none values front) =
        Place.outside.behind noEscapes front

/-- Nothing in a bound text is taken for a placeholder or for a quote of the statement. -/
theorem explain_resumable (sql : String) {values : List Json}
    (hvalues : ∀ v ∈ values, v.Quoteless) : Resumable sql values := by
  have hremaining {first : List Char} {rest : List (List Char)} (hcut : Cut sql.toList first rest) :
      Cut (explain sql values).toList (assemble (filled values) first (rest.take values.length))
        (rest.drop values.length) := by
    have hjoined := assemble_filled values [] first rest
    rw [List.append_nil] at hjoined
    rw [hcut.toList_explain]
    exact cut_iff.mpr ⟨hjoined, (placeholders_assemble hvalues (hcut.joined ▸ hcut.marks_eq)).symm⟩
  refine ⟨fun others => ?_, hremaining, fun {front back} hsplit => ⟨?_, ?_⟩⟩
  · obtain ⟨first, rest, hcut⟩ := exists_cut sql.toList
    rw [← String.toList_inj, (hremaining hcut).toList_explain, hcut.toList_explain,
      assemble_filled]
  · rw [explain, String.toList_ofList, hsplit]
    exact interpolate_append none values front back
  · exact behind_interpolate hvalues none front

theorem explain_resumable_marked :
    let values := [.string "`?\\\"", .array [.string "?"]]
    (∀ v ∈ values, v.Quoteless) ∧ Resumable "a = '?' OR a IN (?, ?, ?) OR b = `" values := by
  intro values
  have hvalues : ∀ v ∈ values, v.Quoteless := by
    intro v hv text htext
    rcases List.mem_pair.mp hv with rfl | rfl
    · obtain rfl : "`?\\\"" = text := Option.some.inj htext
      decide
    · obtain rfl : (Json.array [.string "?"]).render = text := Option.some.inj htext
      decide
  exact ⟨hvalues, explain_resumable _ hvalues⟩

/-- Behind a single quote in a bound text the next placeholder is not found. -/
example : explain (explain "?, ?" [.string "it's"]) [.null] = "'it\\'s', ?" := by rfl

end MySql
end DatabaseTracing
