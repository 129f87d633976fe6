import DatabaseTracing.Json.Printer
import DatabaseTracing.Proofs.Json.Grammar
import Mathlib.Data.List.Forall2

/-! # What is printed spells what it was printed from -/
namespace DatabaseTracing.JsonText

/-! ## Strings -/

/-- A control character without a letter of its own is written by its number. -/
theorem hex_of_control {n : Nat} (h : n < 0x20) :
    Hex ['0', '0', Nat.digitChar (n / 16), Nat.digitChar (n % 16)] n := by
  have hdigit : ∀ i : Fin 16, lowerDigits[i] = Nat.digitChar i := by decide
  have hhex (i : Nat) (hi : i < 16) : HexDigit (Nat.digitChar i) i := by
    refine .inl ?_
    rw [← hdigit ⟨i, hi⟩]
    simp [lowerDigits, hi]
  have hfour := Hex.four (hhex 0 (by omega)) (hhex 0 (by omega)) (hhex (n / 16) (by omega))
    (hhex (n % 16) (by omega))
  have hn : ((0 * 16 + 0) * 16 + n / 16) * 16 + n % 16 = n := by omega
  rw [hn] at hfour
  exact hfour

theorem spellsChar_escape (c : Char) : SpellsChar (Json.escape c) c := by
  unfold Json.escape
  split_ifs with hquote hescape hn hr ht hb hf hcontrol
  · subst hquote
    exact .short (by decide)
  · subst hescape
    exact .short (by decide)
  · subst hn
    exact .short (by decide)
  · subst hr
    exact .short (by decide)
  · subst ht
    exact .short (by decide)
  · subst hb
    exact .short (by decide)
  · subst hf
    exact .short (by decide)
  · have hunit := SpellsChar.unit (hex_of_control hcontrol) (.inl (by omega))
    rw [Char.ofNat_toNat] at hunit
    exact hunit
  · have hc : ' ' ≤ c := by
      rw [Char.le_def, UInt32.le_iff_toNat_le]
      exact Nat.le_of_not_lt hcontrol
    exact .plain hc hquote hescape

theorem spellsChars_escape (cs : List Char) : SpellsChars (cs.flatMap Json.escape) cs := by
  induction cs with
  | nil => exact .nil
  | cons c cs ih => exact .cons (spellsChar_escape c) ih

theorem spellsString_stringChars (s : String) : SpellsString (Json.stringChars s) s :=
  .quoted (spellsChars_escape s.toList)

/-! ## Objects -/

theorem spells_bool (b : Bool) : Spells (Json.bool b).chars (.bool b) := by
  cases b
  · exact .boolFalse
  · exact .boolTrue

/-- A member as it is printed: its key, the text of its value, and what that text spells. -/
def Member (m : String × List Char) (n : String × Tree) : Prop := m.1 = n.1 ∧ Spells m.2 n.2

theorem spellsName_stringChars (name : String) :
    SpellsName (Json.stringChars name ++ [':']) name :=
  .written .nil (spellsString_stringChars name) .nil

theorem spellsMembers_commaSeparated {m : String × List Char} {n : String × Tree}
    {ms : List (String × List Char)} {ns : List (String × Tree)} (h : Member m n)
    (hs : List.Forall₂ Member ms ns) :
    SpellsMembers (Json.commaSeparated ((m :: ms).map fun m => Json.stringChars m.1 ++ ':' :: m.2))
      (n :: ns) := by
  induction hs generalizing m n with
  | nil =>
    obtain ⟨key, t⟩ := m
    obtain ⟨_, v⟩ := n
    obtain ⟨rfl, hv⟩ := h
    have hmembers := SpellsMembers.last (spellsName_stringChars key) hv.element
    rwa [List.append_assoc] at hmembers
  | cons h' _ ih =>
    obtain ⟨key, t⟩ := m
    obtain ⟨_, v⟩ := n
    obtain ⟨rfl, hv⟩ := h
    have hmembers := SpellsMembers.cons (spellsName_stringChars key) hv.element (ih h')
    rwa [← List.append_assoc, List.append_assoc _ [':']] at hmembers

theorem spells_object {ms : List (String × Json)} {ns : List (String × Tree)}
    (hsorted : ms.Pairwise fun a b => a.1 ≤ b.1)
    (h : List.Forall₂ (fun m n => m.1 = n.1 ∧ Spells m.2.chars n.2) ms ns) :
    Spells (Json.object ms).chars (.object ns) := by
  have hsort : (Json.memberChars ms).mergeSort (fun a b => a.1 ≤ b.1) = Json.memberChars ms := by
    refine List.mergeSort_of_pairwise ?_
    rw [Json.memberChars_eq_map, List.pairwise_map]
    exact hsorted.imp (by simp)
  rw [Json.chars, Json.memberTexts, hsort, Json.memberChars_eq_map]
  cases h with
  | nil => exact .emptyObject .nil
  | cons h hs =>
    exact .object (spellsMembers_commaSeparated h (List.forall₂_map_left_iff.mpr hs))

end DatabaseTracing.JsonText
