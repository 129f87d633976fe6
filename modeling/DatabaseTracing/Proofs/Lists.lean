/-! # Lists of entries

A table is a list of entries whose keys are all different. Looking a key up, leaving
it out and putting it in front are one split of the list into the entry and the rest.
-/
namespace DatabaseTracing
variable {α β : Type}

theorem getElem?_concat_eq_some {l : List α} {x y : α} {i : Nat} :
    (l ++ [x])[i]? = some y ↔ l[i]? = some y ∨ i = l.length ∧ x = y := by
  rcases Nat.lt_trichotomy i l.length with hi | hi | hi
  · rw [List.getElem?_append_left hi]
    simp [Nat.ne_of_lt hi]
  · subst hi
    simp
  · have hl : l[i]? = none := List.getElem?_eq_none_iff.mpr (by omega)
    have hr : (l ++ [x])[i]? = none := List.getElem?_eq_none_iff.mpr (by simp; omega)
    simp [hl, hr, Nat.ne_of_gt hi]

theorem map_modify {f : α → β} {g : α → α} {h : β → β} (hf : ∀ x, f (g x) = h (f x))
    (l : List α) (i : Nat) : (l.modify i g).map f = (l.map f).modify i h := by
  induction l generalizing i with
  | nil => simp
  | cons x l ih => cases i <;> simp [hf, ih]

/-- Lists that have the same entries under each key, in the same order, differ in the order of
entries with different keys only. -/
theorem perm_of_filter_fst_eq {κ : Type} [DecidableEq κ] {l l' : List (κ × β)}
    (h : ∀ key, (l.filter (·.1 = key)).map Prod.snd = (l'.filter (·.1 = key)).map Prod.snd) :
    l.Perm l' := by
  classical
  have hfst (l : List (κ × β)) (key : κ) :
      ((l.filter (·.1 = key)).map Prod.snd).map (Prod.mk key) = l.filter (·.1 = key) := by
    rw [List.map_map]
    refine (List.map_congr_left fun e he => ?_).trans (List.map_id _)
    have hkey : e.1 = key := by simpa using (List.mem_filter.mp he).2
    exact Prod.ext hkey.symm rfl
  refine List.perm_iff_count.mpr fun e => ?_
  have hfilter : l.filter (·.1 = e.1) = l'.filter (·.1 = e.1) := by
    rw [← hfst l, ← hfst l', h]
  rw [← List.count_filter (p := fun f => decide (f.1 = e.1)) (l := l) (by simp), hfilter,
    List.count_filter (by simp)]

section Entries
variable {κ : Type} [BEq κ] [LawfulBEq κ]

/-- Entries that are left out by their keys are missed under these keys only. -/
theorem lookup_filter_fst (keep : κ → Bool) (l : List (κ × β)) (key : κ) :
    (l.filter fun e => keep e.1).lookup key = if keep key then l.lookup key else none := by
  induction l with
  | nil => simp
  | cons e l ih =>
    rcases e with ⟨k, b⟩
    rw [List.filter_cons]
    by_cases hk : key = k
    · subst hk
      cases hf : keep key with
      | false => simpa [hf] using ih
      | true => simp
    · have hb : (key == k) = false := beq_eq_false_iff_ne.mpr hk
      split <;> simp only [List.lookup_cons, hb, ih]

theorem lookup_eq_some_iff_mem {l : List (κ × β)} (hl : (l.map Prod.fst).Nodup) {key : κ} {b : β} :
    l.lookup key = some b ↔ (key, b) ∈ l := by
  induction l with
  | nil => simp
  | cons e l ih =>
    rcases e with ⟨k, d⟩
    rw [List.map_cons, List.nodup_cons] at hl
    by_cases hk : key = k
    · subst hk
      have hd : (key, b) ∉ l := fun h => hl.1 (List.mem_map.mpr ⟨_, h, rfl⟩)
      simp [hd, eq_comm]
    · simp [List.lookup_cons, beq_eq_false_iff_ne.mpr hk, hk, ih hl.2]

theorem filter_of_lookup_eq_none {l : List (κ × β)} {key : κ} (h : l.lookup key = none) :
    (l.filter fun e => e.1 != key) = l := by
  refine List.filter_eq_self.mpr fun e he => ?_
  have hne := List.lookup_eq_none_iff.mp h e he
  exact bne_iff_ne.mpr (bne_iff_ne.mp hne).symm

/-- A table is the entry that is looked up and the rest. -/
theorem perm_of_lookup_eq_some {l : List (κ × β)} (hl : (l.map Prod.fst).Nodup) {key : κ} {b : β}
    (h : l.lookup key = some b) : l.Perm ((key, b) :: l.filter fun e => e.1 != key) := by
  induction l with
  | nil => cases h
  | cons e l ih =>
    rcases e with ⟨k, d⟩
    rw [List.map_cons, List.nodup_cons] at hl
    by_cases hk : key = k
    · subst hk
      have hrest : l.lookup key = none := List.lookup_eq_none_iff.mpr fun e he =>
        bne_iff_ne.mpr fun hke => hl.1 (List.mem_map.mpr ⟨e, he, hke.symm⟩)
      have hd : d = b := by simpa using h
      simp [hd, filter_of_lookup_eq_none hrest]
    · have hkeep : ((k, d) :: l).filter (fun e => e.1 != key) =
          (k, d) :: l.filter fun e => e.1 != key :=
        List.filter_cons_of_pos (bne_iff_ne.mpr (Ne.symm hk))
      rw [List.lookup_cons, beq_eq_false_iff_ne.mpr hk] at h
      rw [hkeep]
      exact ((ih hl.2 h).cons _).trans (.swap ..)

/-- An entry is put behind the others. -/
theorem nodup_keys_concat {l : List (κ × β)} (hl : (l.map Prod.fst).Nodup) {key : κ}
    (hkey : l.lookup key = none) (b : β) : ((l ++ [(key, b)]).map Prod.fst).Nodup := by
  have hfresh : key ∉ l.map Prod.fst := by
    intro hk
    obtain ⟨e, he, rfl⟩ := List.mem_map.mp hk
    simpa using List.lookup_eq_none_iff.mp hkey e he
  rw [List.map_append, List.map_singleton]
  refine List.nodup_append.mpr ⟨hl, by simp, ?_⟩
  rintro k hk k' hk' rfl
  obtain rfl : k = key := List.mem_singleton.mp hk'
  exact hfresh hk

theorem nodup_keys_cons_filter {l : List (κ × β)} (hl : (l.map Prod.fst).Nodup) (key : κ) (b : β) :
    (((key, b) :: l.filter fun e => e.1 != key).map Prod.fst).Nodup := by
  rw [List.map_cons, List.nodup_cons]
  refine ⟨fun h => ?_, (List.filter_sublist.map _).nodup hl⟩
  obtain ⟨e, he, hek⟩ := List.mem_map.mp h
  exact bne_iff_ne.mp (List.mem_filter.mp he).2 hek

end Entries
end DatabaseTracing
