import DatabaseTracing.Proofs.Text.ByteOrder
import DatabaseTracing.Text.Lossy
import Mathlib.Data.List.Forall2

/-! # What lossy decoding reads

The bytes that the ranges of a lead byte allow are those of a character in UTF-8, and no
others. So a text is read back from its bytes, and of bytes that are not UTF-8 each
U+FFFD stands for as many as begin a character, or for one that begins none.
-/
namespace DatabaseTracing.Lossy
variable {lead : UInt8} {ranges : List ByteRange} {bs body : List UInt8} {cs : List Char} {c : Char}

theorem ByteRange.contains_iff {r : ByteRange} {b : UInt8} :
    r.contains b = true ↔ r.low.toNat ≤ b.toNat ∧ b.toNat ≤ r.high.toNat := by
  rw [contains, Bool.and_eq_true, decide_eq_true_iff, decide_eq_true_iff, UInt8.le_iff_toNat_le,
    UInt8.le_iff_toNat_le]

/-- The bytes lie in the ranges, one in each. -/
def Fits (ranges : List ByteRange) (bs : List UInt8) : Prop :=
  List.Forall₂ (fun r b => r.contains b = true) ranges bs

/-! ## Characters and their bytes -/

theorem following_cases (h : following lead = some ranges) :
    let n := lead.toNat
    n < 0x80 ∧ ranges = [] ∨
    0xc2 ≤ n ∧ n < 0xe0 ∧ ranges = [continuation] ∨
    n = 0xe0 ∧ ranges = [⟨0xa0, 0xbf⟩, continuation] ∨
    0xe0 < n ∧ n < 0xf0 ∧ n ≠ 0xed ∧ ranges = [continuation, continuation] ∨
    n = 0xed ∧ ranges = [⟨0x80, 0x9f⟩, continuation] ∨
    n = 0xf0 ∧ ranges = [⟨0x90, 0xbf⟩, continuation, continuation] ∨
    0xf0 < n ∧ n < 0xf4 ∧ ranges = [continuation, continuation, continuation] ∨
    n = 0xf4 ∧ ranges = [⟨0x80, 0x8f⟩, continuation, continuation] := by
  intro n
  simp only [following, UInt8.lt_iff_toNat_lt, ← UInt8.toNat_inj, UInt8.reduceToNat] at h
  split_ifs at h <;> cases h <;> simp <;> omega

theorem val_ofNat {n : Nat} (h : n < 0xd800 ∨ 0xdfff < n ∧ n < 0x110000) :
    (Char.ofNat n).val.toNat = n := by
  rw [Char.ofNat, dif_pos h]
  rfl

theorem utf8EncodeChar_scalar_one {a : UInt8} (ha : a.toNat < 0x80) :
    String.utf8EncodeChar (scalar a []) = [a] := by
  have hval : (scalar a []).val.toNat = a.toNat := by
    change (Char.ofNat a.toNat).val.toNat = _
    exact val_ofNat (.inl (by omega))
  obtain ⟨-, hbytes⟩ | ⟨h, -, -⟩ | ⟨h, -, -⟩ | ⟨h, -, -⟩ := utf8EncodeChar_cases (scalar a [])
  · rw [hbytes, hval, UInt8.ofNat_toNat]
  all_goals omega

theorem utf8EncodeChar_scalar_two {a b : UInt8} (ha : 0xc2 ≤ a.toNat) (ha' : a.toNat < 0xe0)
    (hb : 0x80 ≤ b.toNat) (hb' : b.toNat ≤ 0xbf) :
    String.utf8EncodeChar (scalar a [b]) = [a, b] := by
  have hval : (scalar a [b]).val.toNat = a.toNat % 32 * 64 + b.toNat % 64 := by
    change (Char.ofNat (a.toNat % 32 * 64 + b.toNat % 64)).val.toNat = _
    exact val_ofNat (.inl (by omega))
  obtain ⟨h, -⟩ | ⟨-, -, hbytes⟩ | ⟨h, -, -⟩ | ⟨h, -, -⟩ := utf8EncodeChar_cases (scalar a [b])
  case inr.inl =>
    rw [hbytes, hval]
    simp only [List.cons.injEq, ← UInt8.toNat_inj, UInt8.toNat_ofNat', and_true]
    omega
  all_goals omega

theorem utf8EncodeChar_scalar_three {a b c : UInt8} (ha : 0xe0 ≤ a.toNat) (ha' : a.toNat < 0xf0)
    (hb : 0x80 ≤ b.toNat) (hb' : b.toNat ≤ 0xbf) (hc : 0x80 ≤ c.toNat) (hc' : c.toNat ≤ 0xbf)
    (hlow : a.toNat = 0xe0 → 0xa0 ≤ b.toNat) (hhigh : a.toNat = 0xed → b.toNat ≤ 0x9f) :
    String.utf8EncodeChar (scalar a [b, c]) = [a, b, c] := by
  have hval : (scalar a [b, c]).val.toNat =
      (a.toNat % 16 * 64 + b.toNat % 64) * 64 + c.toNat % 64 := by
    change (Char.ofNat ((a.toNat % 16 * 64 + b.toNat % 64) * 64 + c.toNat % 64)).val.toNat = _
    exact val_ofNat (by omega)
  obtain ⟨h, -⟩ | ⟨-, h, -⟩ | ⟨-, -, hbytes⟩ | ⟨h, -, -⟩ := utf8EncodeChar_cases (scalar a [b, c])
  case inr.inr.inl =>
    rw [hbytes, hval]
    simp only [List.cons.injEq, ← UInt8.toNat_inj, UInt8.toNat_ofNat', and_true]
    omega
  all_goals omega

theorem utf8EncodeChar_scalar_four {a b c d : UInt8} (ha : 0xf0 ≤ a.toNat) (ha' : a.toNat ≤ 0xf4)
    (hb : 0x80 ≤ b.toNat) (hb' : b.toNat ≤ 0xbf) (hc : 0x80 ≤ c.toNat) (hc' : c.toNat ≤ 0xbf)
    (hd : 0x80 ≤ d.toNat) (hd' : d.toNat ≤ 0xbf)
    (hlow : a.toNat = 0xf0 → 0x90 ≤ b.toNat) (hhigh : a.toNat = 0xf4 → b.toNat ≤ 0x8f) :
    String.utf8EncodeChar (scalar a [b, c, d]) = [a, b, c, d] := by
  have hval : (scalar a [b, c, d]).val.toNat =
      ((a.toNat % 8 * 64 + b.toNat % 64) * 64 + c.toNat % 64) * 64 + d.toNat % 64 := by
    change (Char.ofNat (((a.toNat % 8 * 64 + b.toNat % 64) * 64 + c.toNat % 64) * 64 +
      d.toNat % 64)).val.toNat = _
    exact val_ofNat (by omega)
  obtain ⟨h, -⟩ | ⟨-, h, -⟩ | ⟨-, h, -⟩ | ⟨-, -, hbytes⟩ :=
    utf8EncodeChar_cases (scalar a [b, c, d])
  case inr.inr.inr =>
    rw [hbytes, hval]
    simp only [List.cons.injEq, ← UInt8.toNat_inj, UInt8.toNat_ofNat', and_true]
    omega
  all_goals omega

/-- Bytes that lie in the ranges behind the lead byte are those of a character. -/
theorem utf8EncodeChar_scalar (hlead : following lead = some ranges) (hbody : Fits ranges body) :
    String.utf8EncodeChar (scalar lead body) = lead :: body := by
  obtain ⟨h, rfl⟩ | ⟨h, h', rfl⟩ | ⟨h, rfl⟩ | ⟨h, h', hne, rfl⟩ | ⟨h, rfl⟩ | ⟨h, rfl⟩ |
    ⟨h, h', rfl⟩ | ⟨h, rfl⟩ := following_cases hlead
  all_goals
    simp only [Fits, List.forall₂_cons_left_iff, List.forall₂_nil_left_iff,
      ByteRange.contains_iff, continuation, UInt8.reduceToNat] at hbody
  · subst hbody
    exact utf8EncodeChar_scalar_one h
  · obtain ⟨b, _, hb, rfl, rfl⟩ := hbody
    exact utf8EncodeChar_scalar_two h h' hb.1 hb.2
  iterate 3
    obtain ⟨b, _, hb, ⟨c, _, hc, rfl, rfl⟩, rfl⟩ := hbody
    apply utf8EncodeChar_scalar_three <;> omega
  iterate 3
    obtain ⟨b, _, hb, ⟨c, _, hc, ⟨d, _, hd, rfl, rfl⟩, rfl⟩, rfl⟩ := hbody
    apply utf8EncodeChar_scalar_four <;> omega

theorem exists_following (h : lead.toNat < 0x80 ∨ 0xc2 ≤ lead.toNat ∧ lead.toNat ≤ 0xf4) :
    ∃ ranges, following lead = some ranges := by
  simp only [following, UInt8.lt_iff_toNat_lt, ← UInt8.toNat_inj, UInt8.reduceToNat]
  split_ifs <;> first | exact ⟨_, rfl⟩ | omega

/-- Bytes of which the first leads as many as follow it, each in the range of its place. -/
theorem exists_fits (hlead : lead.toNat < 0x80 ∧ body.length = 0 ∨
      0xc2 ≤ lead.toNat ∧ lead.toNat < 0xe0 ∧ body.length = 1 ∨
      0xe0 ≤ lead.toNat ∧ lead.toNat < 0xf0 ∧ body.length = 2 ∨
      0xf0 ≤ lead.toNat ∧ lead.toNat ≤ 0xf4 ∧ body.length = 3)
    (hbody : ∀ b ∈ body, 0x80 ≤ b.toNat ∧ b.toNat ≤ 0xbf)
    (hfirst : ∀ b ∈ body.head?, (lead.toNat = 0xe0 → 0xa0 ≤ b.toNat) ∧
      (lead.toNat = 0xed → b.toNat ≤ 0x9f) ∧ (lead.toNat = 0xf0 → 0x90 ≤ b.toNat) ∧
      (lead.toNat = 0xf4 → b.toNat ≤ 0x8f)) :
    ∃ ranges, following lead = some ranges ∧ Fits ranges body := by
  have hleads : lead.toNat < 0x80 ∨ 0xc2 ≤ lead.toNat ∧ lead.toNat ≤ 0xf4 := by omega
  obtain ⟨ranges, hranges⟩ := exists_following hleads
  refine ⟨ranges, hranges, ?_⟩
  obtain ⟨h, rfl⟩ | ⟨h, h', rfl⟩ | ⟨h, rfl⟩ | ⟨h, h', hne, rfl⟩ | ⟨h, rfl⟩ | ⟨h, rfl⟩ |
    ⟨h, h', rfl⟩ | ⟨h, rfl⟩ := following_cases hranges
  all_goals
    rcases body with _ | ⟨b, _ | ⟨c, _ | ⟨d, _ | ⟨e, body⟩⟩⟩⟩ <;>
    simp [Fits, ByteRange.contains_iff, continuation] at hlead hbody hfirst ⊢ <;> omega

/-- The bytes of a character lie in the ranges behind its lead byte. -/
theorem exists_fits_utf8EncodeChar (c : Char) : ∃ lead body ranges,
    String.utf8EncodeChar c = lead :: body ∧ following lead = some ranges ∧ Fits ranges body := by
  have hvalid : c.val.toNat < 0xd800 ∨ 0xdfff < c.val.toNat ∧ c.val.toNat < 0x110000 := c.valid
  have hval : c.val.toNat = c.toNat := rfl
  obtain ⟨h, hbytes⟩ | ⟨h, h', hbytes⟩ | ⟨h, h', hbytes⟩ | ⟨h, h', hbytes⟩ :=
    utf8EncodeChar_cases c
  all_goals
    refine ⟨_, _, (exists_fits ?_ ?_ ?_).imp fun ranges hranges => ⟨hbytes, hranges⟩⟩ <;>
    simp <;> omega

theorem utf8EncodeChar_injective : Function.Injective String.utf8EncodeChar := by
  intro c d h
  have hlt {c d : Char} (h : String.utf8EncodeChar c = String.utf8EncodeChar d) : ¬ c < d := by
    intro hcd
    have hbytes := utf8EncodeChar_append_lt hcd [] []
    rw [h] at hbytes
    exact List.lt_irrefl _ hbytes
  exact Char.le_antisymm (Char.not_lt.mp (hlt h.symm)) (Char.not_lt.mp (hlt h))

/-! ## Bytes that begin a character -/

/-- The bytes lie in the ranges that come first. -/
def Starts (ranges : List ByteRange) (bs : List UInt8) : Prop :=
  ∃ firsts, firsts <+: ranges ∧ Fits firsts bs

theorem Fits.starts (h : Fits ranges bs) : Starts ranges bs := ⟨ranges, List.prefix_rfl, h⟩

theorem starts_nil (ranges : List ByteRange) : Starts ranges [] := ⟨[], List.nil_prefix, .nil⟩

theorem starts_cons {r : ByteRange} {b : UInt8} :
    Starts (r :: ranges) (b :: bs) ↔ r.contains b = true ∧ Starts ranges bs := by
  constructor
  · rintro ⟨firsts, hfirsts, hfits⟩
    obtain ⟨r', firsts, hb, hrest, rfl⟩ := List.forall₂_cons_right_iff.mp hfits
    obtain ⟨rfl, htail⟩ := List.cons_prefix_cons.mp hfirsts
    exact ⟨hb, firsts, htail, hrest⟩
  · rintro ⟨hb, firsts, hfirsts, hfits⟩
    exact ⟨r :: firsts, List.cons_prefix_cons.mpr ⟨rfl, hfirsts⟩, .cons hb hfits⟩

theorem Starts.length_le (h : Starts ranges bs) : bs.length ≤ ranges.length := by
  obtain ⟨firsts, hfirsts, hfits⟩ := h
  exact hfits.length_eq ▸ hfirsts.length_le

theorem Starts.fits (h : Starts ranges bs) (hlength : ranges.length ≤ bs.length) :
    Fits ranges bs := by
  obtain ⟨firsts, hfirsts, hfits⟩ := h
  have hle : ranges.length ≤ firsts.length := hfits.length_eq ▸ hlength
  rwa [hfirsts.eq_of_length_le hle] at hfits

theorem matching_prefix (ranges : List ByteRange) (bs : List UInt8) : matching ranges bs <+: bs := by
  induction ranges generalizing bs with
  | nil => exact List.nil_prefix
  | cons r ranges ih =>
    cases bs with
    | nil => exact List.nil_prefix
    | cons b bs =>
      rw [matching]
      split
      · exact List.cons_prefix_cons.mpr ⟨rfl, ih bs⟩
      · exact List.nil_prefix

theorem starts_matching (ranges : List ByteRange) (bs : List UInt8) :
    Starts ranges (matching ranges bs) := by
  induction ranges generalizing bs with
  | nil => exact starts_nil []
  | cons r ranges ih =>
    cases bs with
    | nil => exact starts_nil _
    | cons b bs =>
      rw [matching]
      split
      · next hb => exact starts_cons.mpr ⟨hb, ih bs⟩
      · exact starts_nil _

/-- No longer run of leading bytes lies in the ranges. -/
theorem Starts.length_le_matching (h : Starts ranges body) (hbody : body <+: bs) :
    body.length ≤ (matching ranges bs).length := by
  induction ranges generalizing body bs with
  | nil =>
    have hlength := h.length_le
    rw [List.length_nil] at hlength
    omega
  | cons r ranges ih =>
    cases body with
    | nil => exact Nat.zero_le _
    | cons b body =>
      cases bs with
      | nil => cases List.prefix_nil.mp hbody
      | cons b' bs =>
        obtain ⟨rfl, htail⟩ := List.cons_prefix_cons.mp hbody
        obtain ⟨hb, hstarts⟩ := starts_cons.mp h
        rw [matching, if_pos hb, List.length_cons, List.length_cons]
        exact Nat.succ_le_succ (ih hstarts htail)

/-- Bytes lie in the ranges as far as they do and no further. -/
theorem matching_of_starts (h : Starts ranges body)
    (hlongest : ∀ b ∈ bs.head?, ¬ Starts ranges (body ++ [b])) :
    matching ranges (body ++ bs) = body := by
  induction body generalizing ranges with
  | nil =>
    rcases ranges with _ | ⟨r, ranges⟩
    · rfl
    rcases bs with _ | ⟨b, bs⟩
    · rfl
    have hb : ¬ r.contains b = true := fun hb =>
      hlongest b rfl (starts_cons.mpr ⟨hb, starts_nil ranges⟩)
    rw [List.nil_append, matching, if_neg hb]
  | cons b body ih =>
    rcases ranges with _ | ⟨r, ranges⟩
    · exact absurd h.length_le (by simp)
    obtain ⟨hb, hstarts⟩ := starts_cons.mp h
    rw [List.cons_append, matching, if_pos hb,
      ih hstarts fun b' hb' hlonger => hlongest b' hb' (starts_cons.mpr ⟨hb, hlonger⟩)]

theorem matching_of_fits (h : Fits ranges body) (bs : List UInt8) :
    matching ranges (body ++ bs) = body := by
  refine matching_of_starts h.starts fun b _ hlonger => ?_
  have hle := hlonger.length_le
  rw [h.length_eq, List.length_append, List.length_singleton] at hle
  omega

/-- The bytes of a character begin with these. -/
def Begins (bs : List UInt8) : Prop := ∃ c, bs <+: String.utf8EncodeChar c

theorem low_le_high (h : following lead = some ranges) : ∀ r ∈ ranges, r.contains r.low = true := by
  obtain ⟨-, rfl⟩ | ⟨-, -, rfl⟩ | ⟨-, rfl⟩ | ⟨-, -, -, rfl⟩ | ⟨-, rfl⟩ | ⟨-, rfl⟩ |
    ⟨-, -, rfl⟩ | ⟨-, rfl⟩ := following_cases h <;> decide

theorem begins_cons_iff :
    Begins (lead :: body) ↔ ∃ ranges, following lead = some ranges ∧ Starts ranges body := by
  constructor
  · rintro ⟨c, hc⟩
    obtain ⟨lead', body', ranges, hbytes, hlead, hfits⟩ := exists_fits_utf8EncodeChar c
    rw [hbytes] at hc
    obtain ⟨rfl, hbody⟩ := List.cons_prefix_cons.mp hc
    refine ⟨ranges, hlead, ranges.take body.length, List.take_prefix _ _, ?_⟩
    have htake := List.forall₂_take body.length hfits
    rwa [← List.prefix_iff_eq_take.mp hbody] at htake
  · rintro ⟨ranges, hlead, firsts, ⟨others, rfl⟩, hfits⟩
    have hothers : Fits others (others.map ByteRange.low) := by
      refine List.forall₂_map_right_iff.mpr (List.forall₂_same.mpr fun r hr => ?_)
      exact low_le_high hlead r (List.mem_append_right _ hr)
    refine ⟨scalar lead (body ++ others.map ByteRange.low), ?_⟩
    rw [utf8EncodeChar_scalar hlead (List.rel_append hfits hothers)]
    exact List.cons_prefix_cons.mpr ⟨rfl, List.prefix_append _ _⟩

/-! ## Reading bytes -/

/-- The text that bytes are read as. -/
inductive Reads : List UInt8 → List Char → Prop
  | nil : Reads [] []
  | character (c : Char) {bs : List UInt8} {cs : List Char} (h : Reads bs cs) :
      Reads (String.utf8EncodeChar c ++ bs) (c :: cs)
  /-- As many bytes as begin a character are replaced together. -/
  | truncated {body bs : List UInt8} {cs : List Char} (hne : body ≠ []) (hbegins : Begins body)
      (hlongest : ∀ b ∈ bs.head?, ¬ Begins (body ++ [b]))
      (hincomplete : ∀ c, body ≠ String.utf8EncodeChar c) (h : Reads bs cs) :
      Reads (body ++ bs) (replacement :: cs)
  | stray {b : UInt8} {bs : List UInt8} {cs : List Char} (hb : ¬ Begins [b]) (h : Reads bs cs) :
      Reads (b :: bs) (replacement :: cs)

theorem decode_character (c : Char) (bs : List UInt8) :
    decode (String.utf8EncodeChar c ++ bs) = c :: decode bs := by
  obtain ⟨lead, body, ranges, hbytes, hlead, hfits⟩ := exists_fits_utf8EncodeChar c
  have hc : scalar lead body = c :=
    utf8EncodeChar_injective ((utf8EncodeChar_scalar hlead hfits).trans hbytes.symm)
  rw [hbytes, List.cons_append, decode]
  simp only [hlead, matching_of_fits hfits, hfits.length_eq, ↓reduceIte, hc, List.drop_left]

theorem decode_truncated (hne : body ≠ []) (hbegins : Begins body)
    (hlongest : ∀ b ∈ bs.head?, ¬ Begins (body ++ [b]))
    (hincomplete : ∀ c, body ≠ String.utf8EncodeChar c) :
    decode (body ++ bs) = replacement :: decode bs := by
  obtain ⟨lead, body, rfl⟩ := List.exists_cons_of_ne_nil hne
  obtain ⟨ranges, hlead, hstarts⟩ := begins_cons_iff.mp hbegins
  have hmatching : matching ranges (body ++ bs) = body :=
    matching_of_starts hstarts fun b hb hlonger =>
      hlongest b hb (begins_cons_iff.mpr ⟨ranges, hlead, hlonger⟩)
  have hshort : body.length ≠ ranges.length := fun hlength =>
    hincomplete _ (utf8EncodeChar_scalar hlead (hstarts.fits (Nat.le_of_eq hlength.symm))).symm
  rw [List.cons_append, decode]
  simp only [hlead, hmatching, if_neg hshort, List.drop_left]

theorem decode_stray {b : UInt8} (hb : ¬ Begins [b]) (bs : List UInt8) :
    decode (b :: bs) = replacement :: decode bs := by
  cases hlead : following b with
  | none => rw [decode, hlead]
  | some ranges => exact absurd (begins_cons_iff.mpr ⟨ranges, hlead, starts_nil ranges⟩) hb

/-- Bytes are read in one way, which is the decoding. -/
theorem Reads.decode_eq (h : Reads bs cs) : decode bs = cs := by
  induction h with
  | nil => rw [decode]
  | character c _ ih => rw [decode_character, ih]
  | truncated hne hbegins hlongest hincomplete _ ih =>
    rw [decode_truncated hne hbegins hlongest hincomplete, ih]
  | stray hb _ ih => rw [decode_stray hb, ih]

theorem reads_decode (bs : List UInt8) : Reads bs (decode bs) := by
  fun_induction decode bs with
  | case1 => exact .nil
  | case2 lead bs hlead ih =>
    refine .stray (fun hbegins => ?_) ih
    obtain ⟨ranges, hranges, -⟩ := begins_cons_iff.mp hbegins
    rw [hlead] at hranges
    cases hranges
  | case3 lead bs ranges hlead body ih =>
    have hstarts : Starts ranges body := starts_matching ranges bs
    obtain ⟨rest, hrest⟩ : body <+: bs := matching_prefix ranges bs
    have hdrop : bs.drop body.length = rest := by rw [← hrest, List.drop_left]
    rw [hdrop] at ih ⊢
    rw [← hrest]
    split
    · next hlength =>
      have hbytes := utf8EncodeChar_scalar hlead (hstarts.fits (Nat.le_of_eq hlength.symm))
      rw [← List.cons_append, ← hbytes]
      exact .character _ ih
    · next hlength =>
      refine .truncated (List.cons_ne_nil lead body)
        (begins_cons_iff.mpr ⟨ranges, hlead, hstarts⟩) ?_ ?_ ih
      · intro b hb hbegins
        change Begins (lead :: (body ++ [b])) at hbegins
        obtain ⟨ranges', hlead', hlonger⟩ := begins_cons_iff.mp hbegins
        obtain rfl : ranges = ranges' := Option.some.inj (hlead.symm.trans hlead')
        obtain ⟨rest', rfl⟩ := List.head?_eq_some_iff.mp hb
        have hprefix : body ++ [b] <+: bs := ⟨rest', by rw [← hrest, List.append_assoc]; rfl⟩
        have hle := hlonger.length_le_matching hprefix
        rw [List.length_append, List.length_singleton] at hle
        exact absurd hle (Nat.not_succ_le_self _)
      · intro c hc
        obtain ⟨lead', body', ranges', hbytes, hlead', hfits⟩ := exists_fits_utf8EncodeChar c
        obtain ⟨rfl, rfl⟩ := List.cons.inj (hc.trans hbytes)
        obtain rfl : ranges = ranges' := Option.some.inj (hlead.symm.trans hlead')
        exact hlength hfits.length_eq.symm

theorem reads_iff : Reads bs cs ↔ decode bs = cs :=
  ⟨Reads.decode_eq, fun h => h ▸ reads_decode bs⟩

theorem decode_utf8Bytes (s : String) : decode (utf8Bytes s) = s.toList := by
  rw [utf8Bytes_eq]
  induction s.toList with
  | nil => rw [List.flatMap_nil, decode]
  | cons c cs ih => rw [List.flatMap_cons, decode_character, ih]

end DatabaseTracing.Lossy
