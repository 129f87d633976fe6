import DatabaseTracing.Settings
import Mathlib.Data.List.Sort

/-! # Tables of names

A table is known by its entries, and of several entries of one key the one put in last stays.
-/
namespace DatabaseTracing.NameTable
variable {es : List (String × String)} {k n key name : String}

theorem ext_of_mem {a b : NameTable} (h : ∀ e, e ∈ a.entries ↔ e ∈ b.entries) : a = b := by
  have hirrefl : Std.Irrefl fun a b : String × String => a.1 < b.1 := ⟨fun a => String.lt_irrefl a.1⟩
  have hantisymm : Std.Antisymm fun a b : String × String => a.1 < b.1 :=
    ⟨fun a b hab hba => absurd (String.lt_trans hab hba) (String.lt_irrefl a.1)⟩
  have hentries : a.entries = b.entries := a.ordered.eq_of_mem_iff b.ordered h
  cases a
  cases b
  cases hentries
  rfl

theorem mem_put_iff (h : es.Pairwise fun a b => a.1 < b.1) :
    (k, n) ∈ put key name es ↔ if k = key then n = name else (k, n) ∈ es := by
  induction es with
  | nil => by_cases hk : k = key <;> simp [put, hk]
  | cons e es ih =>
    obtain ⟨he, hes⟩ := List.pairwise_cons.mp h
    have hbehind : (k, n) ∈ es → e.1 < k := he (k, n)
    have hirrefl : ¬ e.1 < e.1 := String.lt_irrefl e.1
    have htrans : e.1 < k → k < e.1 → e.1 < e.1 := String.lt_trans
    have ih := ih hes
    rw [put]
    grind

/-- The entries, put in one after another. -/
def ofEntries (es : List (String × String)) : NameTable :=
  es.foldl (fun table e => table.insert e.1 e.2) .empty

theorem mem_ofEntries_iff : (k, n) ∈ (ofEntries es).entries ↔ es.reverse.lookup k = some n := by
  rw [ofEntries, ← List.foldr_reverse]
  induction es.reverse with
  | nil => simp [empty]
  | cons e rs ih =>
    rw [List.foldr_cons, insert, mem_put_iff (ordered _), ih, List.lookup_cons]
    by_cases hk : k = e.1
    · simp [hk, eq_comm]
    · simp [hk, beq_false_of_ne hk]

theorem lookup_reverse_entries (table : NameTable) :
    table.entries.reverse.lookup k = some n ↔ (k, n) ∈ table.entries := by
  have hne : table.entries.reverse.Pairwise fun a b => a.1 ≠ b.1 := by
    refine List.pairwise_reverse.mpr (table.ordered.imp fun {a b} hlt heq => ?_)
    exact String.lt_irrefl a.1 (heq ▸ hlt)
  rw [← List.mem_reverse]
  generalize table.entries.reverse = rs at hne
  induction rs with
  | nil => simp
  | cons e rs ih =>
    obtain ⟨he, hrs⟩ := List.pairwise_cons.mp hne
    rw [List.lookup_cons, List.mem_cons]
    by_cases hk : k = e.1
    · subst hk
      have hnot : (e.1, n) ∉ rs := fun hmem => he _ hmem rfl
      simp [hnot, Prod.ext_iff, eq_comm]
    · simp [beq_false_of_ne hk, ih hrs, Prod.ext_iff, hk]

end DatabaseTracing.NameTable
