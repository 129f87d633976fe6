/-! # The order of texts and of their bytes

Texts are compared character by character. In UTF-8 the greater of two characters has
the greater byte where their bytes first differ, so texts come in the same order if
their bytes are compared.
-/
namespace DatabaseTracing

def utf8Bytes (s : String) : List UInt8 := s.toUTF8.data.toList

theorem utf8Bytes_eq (s : String) : utf8Bytes s = s.toList.flatMap String.utf8EncodeChar := by
  rw [utf8Bytes, String.toUTF8_eq_toByteArray, ← String.utf8Encode_toList, List.utf8Encode,
    List.data_toByteArray]

theorem ofNat_lt_ofNat_iff {m n : Nat} :
    UInt8.ofNat m < UInt8.ofNat n ↔ m % 256 < n % 256 := by
  rw [UInt8.lt_iff_toNat_lt, UInt8.toNat_ofNat', UInt8.toNat_ofNat']

theorem ofNat_eq_ofNat_iff {m n : Nat} :
    UInt8.ofNat m = UInt8.ofNat n ↔ m % 256 = n % 256 := by
  rw [← UInt8.toNat_inj, UInt8.toNat_ofNat', UInt8.toNat_ofNat']

/-- The bytes of a character, by their number. -/
theorem utf8EncodeChar_cases (c : Char) :
    let v := c.val.toNat
    let tail (n : Nat) := UInt8.ofNat (n % 64 + 128)
    v < 0x80 ∧ String.utf8EncodeChar c = [UInt8.ofNat v] ∨
    0x80 ≤ v ∧ v < 0x800 ∧ String.utf8EncodeChar c = [UInt8.ofNat (v / 64 % 32 + 192), tail v] ∨
    0x800 ≤ v ∧ v < 0x10000 ∧ String.utf8EncodeChar c =
      [UInt8.ofNat (v / 4096 % 16 + 224), tail (v / 64), tail v] ∨
    0x10000 ≤ v ∧ v < 0x110000 ∧ String.utf8EncodeChar c =
      [UInt8.ofNat (v / 262144 % 8 + 240), tail (v / 4096), tail (v / 64), tail v] := by
  intro v tail
  have hv : v < 0x110000 := by
    have hvalid := c.valid
    simp only [UInt32.isValidChar, Nat.isValidChar] at hvalid
    omega
  unfold String.utf8EncodeChar
  by_cases h₁ : v ≤ 127
  · exact .inl ⟨by omega, if_pos h₁⟩
  by_cases h₂ : v ≤ 2047
  · exact .inr (.inl ⟨by omega, by omega, (if_neg h₁).trans (if_pos h₂)⟩)
  by_cases h₃ : v ≤ 65535
  · exact .inr (.inr (.inl
      ⟨by omega, by omega, (if_neg h₁).trans ((if_neg h₂).trans (if_pos h₃))⟩))
  · exact .inr (.inr (.inr
      ⟨by omega, hv, (if_neg h₁).trans ((if_neg h₂).trans (if_neg h₃))⟩))

/-- The bytes of the greater character are greater, whatever comes behind them. -/
theorem utf8EncodeChar_append_lt {c d : Char} (h : c < d) (xs ys : List UInt8) :
    String.utf8EncodeChar c ++ xs < String.utf8EncodeChar d ++ ys := by
  have hcd : c.val.toNat < d.val.toNat := h
  have hdiv (n : Nat) : n / 4096 = n / 64 / 64 ∧ n / 262144 = n / 64 / 64 / 64 := by omega
  obtain ⟨hc, hbytes⟩ | ⟨hc, hc', hbytes⟩ | ⟨hc, hc', hbytes⟩ | ⟨hc, hc', hbytes⟩ :=
    utf8EncodeChar_cases c <;>
  obtain ⟨hd, hbytes'⟩ | ⟨hd, hd', hbytes'⟩ | ⟨hd, hd', hbytes'⟩ | ⟨hd, hd', hbytes'⟩ :=
    utf8EncodeChar_cases d
  -- Longer encodings have greater first bytes; those of one length are compared byte by byte.
  all_goals
    rw [hbytes, hbytes']
    simp only [List.cons_append, List.nil_append, List.cons_lt_cons_iff, ofNat_lt_ofNat_iff,
      ofNat_eq_ofNat_iff, hdiv]
    omega

theorem flatMap_utf8EncodeChar_lt {cs ds : List Char} (h : cs < ds) :
    cs.flatMap String.utf8EncodeChar < ds.flatMap String.utf8EncodeChar := by
  induction cs generalizing ds with
  | nil =>
    cases ds with
    | nil => exact absurd h (List.lt_irrefl [])
    | cons d ds =>
      cases hbytes : (d :: ds).flatMap String.utf8EncodeChar with
      | nil => simp at hbytes
      | cons byte bytes => exact List.nil_lt_cons byte bytes
  | cons c cs ih =>
    cases ds with
    | nil => cases h
    | cons d ds =>
      rw [List.flatMap_cons, List.flatMap_cons]
      rcases List.cons_lt_cons_iff.mp h with hcd | ⟨rfl, htail⟩
      · exact utf8EncodeChar_append_lt hcd _ _
      · exact List.append_left_lt (ih htail)

theorem utf8Bytes_lt_iff {s t : String} : utf8Bytes s < utf8Bytes t ↔ s < t := by
  rw [utf8Bytes_eq, utf8Bytes_eq]
  refine ⟨fun h => Decidable.byContradiction fun hst => ?_, fun h => flatMap_utf8EncodeChar_lt h⟩
  by_cases hne : s = t
  · subst hne
    exact List.lt_irrefl _ h
  · have hts : t < s :=
      String.not_le.mp fun hle => hne (String.le_antisymm hle (String.not_lt.mp hst))
    exact List.lt_asymm h (flatMap_utf8EncodeChar_lt hts)

end DatabaseTracing
