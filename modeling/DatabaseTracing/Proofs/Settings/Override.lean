import DatabaseTracing.Proofs.Json.Printing
import DatabaseTracing.Proofs.Settings.Documents
import DatabaseTracing.Proofs.Settings.Tables

/-! # Documents override the default settings

A document that gives each field once at most replaces just the fields it gives. Of a table's
entries with the same key the last counts, but a field that is given twice is a fault.
-/
namespace DatabaseTracing.Settings
open JsonText
variable {ms seen : List (String × Tree)} {d d' : Draft} {m : String × Tree} {s s' : Settings}
  {text : String}

/-! ## What documents say -/

def fieldNames : List String := ["log_result", "log_sql_parameters", "operation_names"]

/-- An object of strings. -/
def names (es : List (String × String)) : Tree := .object (es.map fun e => (e.1, .string e.2))

/-- Every field is given once at most, and with a value of its type. -/
structure Proper (ms : List (String × Tree)) : Prop where
  logResult : ∀ v, ("log_result", v) ∈ ms → ∃ b, v = .bool b
  logSqlParameters : ∀ v, ("log_sql_parameters", v) ∈ ms → ∃ b, v = .bool b
  operationNames : ∀ v, ("operation_names", v) ∈ ms → ∃ es, v = names es
  once : ∀ name ∈ fieldNames, (ms.map Prod.fst).count name ≤ 1

def fields (ms : List (String × Tree)) : List (String × Tree) := ms.filter fun m => m.1 ∈ fieldNames

/-- The settings are the default ones but for the fields that are given. -/
structure Overrides (ms : List (String × Tree)) (s : Settings) : Prop where
  logResult : ∀ b, ("log_result", .bool b) ∈ ms → s.logResult = b
  logResult_default : "log_result" ∉ ms.map Prod.fst →
    s.logResult = Settings.default.logResult
  logSqlParameters : ∀ b, ("log_sql_parameters", .bool b) ∈ ms → s.logSqlParameters = b
  logSqlParameters_default : "log_sql_parameters" ∉ ms.map Prod.fst →
    s.logSqlParameters = Settings.default.logSqlParameters
  operationNames : ∀ es, ("operation_names", names es) ∈ ms → ∀ key name,
    (key, name) ∈ s.operationNames.entries ↔ es.reverse.lookup key = some name
  operationNames_default : "operation_names" ∉ ms.map Prod.fst →
    s.operationNames = Settings.default.operationNames

/-! ## Drafts -/

theorem Field.ofName?_eq_some_iff {name : String} {f : Field} : ofName? name = some f ↔ f.name = name := by
  constructor
  · intro h
    simpa using List.find?_some h
  · rintro rfl
    cases f <;> decide

theorem Field.name_ne {name : String} {f : Field} (h : ofName? name ≠ some f) : f.name ≠ name :=
  fun hf => h (ofName?_eq_some_iff.mpr hf)

theorem foldlM_addEntry? (es : List (String × String)) (table : NameTable) :
    (es.map fun e => (e.1, Tree.string e.2)).foldlM addEntry? table =
      some (es.foldl (fun table e => table.insert e.1 e.2) table) := by
  induction es generalizing table with
  | nil => rfl
  | cons e es ih => exact ih (table.insert e.1 e.2)

theorem table?_names (es : List (String × String)) : table? (names es) = some (.ofEntries es) :=
  foldlM_addEntry? es .empty

theorem Proper.read? (h : Proper ms) {f : Field} {v : Tree} (hv : (f.name, v) ∈ ms) :
    ∃ a, f.read? v = some a := by
  cases f with
  | logResult =>
    obtain ⟨b, rfl⟩ := h.logResult v hv
    exact ⟨b, rfl⟩
  | logSqlParameters =>
    obtain ⟨b, rfl⟩ := h.logSqlParameters v hv
    exact ⟨b, rfl⟩
  | operationNames =>
    obtain ⟨es, rfl⟩ := h.operationNames v hv
    exact ⟨.ofEntries es, table?_names es⟩

theorem Proper.of_append (h : Proper (seen ++ ms)) : Proper seen where
  logResult v hv := h.logResult v (List.mem_append_left ms hv)
  logSqlParameters v hv := h.logSqlParameters v (List.mem_append_left ms hv)
  operationNames v hv := h.operationNames v (List.mem_append_left ms hv)
  once name hname := by
    have honce := h.once name hname
    rw [List.map_append, List.count_append] at honce
    omega

theorem Field.name_mem (f : Field) : f.name ∈ fieldNames := by
  cases f <;> decide

theorem exists_field {name : String} (h : name ∈ fieldNames) : ∃ f : Field, f.name = name := by
  simp only [fieldNames, List.mem_cons, List.not_mem_nil, or_false] at h
  rcases h with rfl | rfl | rfl
  · exact ⟨.logResult, rfl⟩
  · exact ⟨.logSqlParameters, rfl⟩
  · exact ⟨.operationNames, rfl⟩

/-- The draft holds what the members seen have given. -/
def Draft.Holds (d : Draft) (seen : List (String × Tree)) : Prop :=
  ∀ (f : Field) (a : f.Value), d.value f = some a ↔ ∃ v, (f.name, v) ∈ seen ∧ f.read? v = some a

theorem Draft.Holds.add (h : d.Holds seen) (hp : Proper (seen ++ [m])) :
    ∃ d', d.add? m = some d' ∧ d'.Holds (seen ++ [m]) := by
  obtain ⟨name, v⟩ := m
  have hother {f : Field} (hf : f.name ≠ name) (w : Tree) :
      (f.name, w) ∈ seen ++ [(name, v)] ↔ (f.name, w) ∈ seen := by
    simp [hf]
  cases hname : Field.ofName? name with
  | none =>
    refine ⟨d, by simp [Draft.add?, hname], fun f a => ?_⟩
    have hf : f.name ≠ name := Field.name_ne (by simp [hname])
    simp only [hother hf]
    exact h f a
  | some f =>
    obtain rfl := Field.ofName?_eq_some_iff.mp hname
    have hnew (w : Tree) : (f.name, w) ∉ seen := by
      intro hw
      have honce := hp.once f.name f.name_mem
      rw [List.map_append, List.count_append, List.map_singleton, List.count_singleton_self] at honce
      have hzero : (seen.map Prod.fst).count f.name = 0 := by omega
      exact List.count_eq_zero.mp hzero (List.mem_map_of_mem hw)
    have hhas : d.has f = false := by
      rw [has_eq, Option.isSome_eq_false_iff, Option.isNone_iff_eq_none,
        Option.eq_none_iff_forall_ne_some]
      intro a ha
      obtain ⟨w, hw, -⟩ := (h f a).mp ha
      exact hnew w hw
    obtain ⟨a, ha⟩ := hp.read? (f := f) (v := v) (by simp)
    refine ⟨d.set f a, by simp [Draft.add?, hname, hhas, ha], fun g b => ?_⟩
    by_cases hg : g = f
    · subst hg
      rw [value_set, ← ha]
      simp [hnew]
    · have hgf : g.name ≠ f.name := Field.name_ne (by simp [hname, Ne.symm hg])
      rw [value_set_of_ne d hg a]
      simp only [hother hgf]
      exact h g b

theorem Draft.Holds.addAll (h : d.Holds seen) (hp : Proper (seen ++ ms)) :
    ∃ d', ms.foldlM Draft.add? d = some d' ∧ d'.Holds (seen ++ ms) := by
  induction ms generalizing d seen with
  | nil => exact ⟨d, rfl, by simpa using h⟩
  | cons m ms ih =>
    rw [List.append_cons] at hp ⊢
    obtain ⟨d₁, hadd, h₁⟩ := h.add (m := m) hp.of_append
    obtain ⟨d₂, hrest, h₂⟩ := ih h₁ hp
    exact ⟨d₂, by simp [hadd, hrest], h₂⟩

theorem Proper.addAll (hp : Proper ms) :
    ∃ d, ms.foldlM Draft.add? .empty = some d ∧ d.Holds ms := by
  have hempty : Draft.empty.Holds [] := by
    intro f a
    cases f <;> simp [Draft.value, Draft.empty]
  exact hempty.addAll hp

theorem Draft.Holds.value_eq_none (h : d.Holds ms) (f : Field) (hf : f.name ∉ ms.map Prod.fst) :
    d.value f = none := by
  rw [Option.eq_none_iff_forall_ne_some]
  intro a ha
  obtain ⟨v, hv, -⟩ := (h f a).mp ha
  exact hf (List.mem_map_of_mem hv)

theorem Draft.Holds.overrides (h : d.Holds ms) : Overrides ms d.settings where
  logResult b hb := by
    have hvalue : d.logResult = some b := (h .logResult b).mpr ⟨_, hb, rfl⟩
    simp [Draft.settings, hvalue]
  logResult_default hnone := by
    have hvalue : d.logResult = none := h.value_eq_none .logResult hnone
    simp [Draft.settings, hvalue]
  logSqlParameters b hb := by
    have hvalue : d.logSqlParameters = some b := (h .logSqlParameters b).mpr ⟨_, hb, rfl⟩
    simp [Draft.settings, hvalue]
  logSqlParameters_default hnone := by
    have hvalue : d.logSqlParameters = none := h.value_eq_none .logSqlParameters hnone
    simp [Draft.settings, hvalue]
  operationNames es hes key name := by
    have hvalue : d.operationNames = some (.ofEntries es) :=
      (h .operationNames _).mpr ⟨_, hes, table?_names es⟩
    simp [Draft.settings, hvalue, NameTable.mem_ofEntries_iff]
  operationNames_default hnone := by
    have hvalue : d.operationNames = none := h.value_eq_none .operationNames hnone
    simp [Draft.settings, hvalue]

/-! ## Fields given twice -/

/-- Adding a member counts it, if it is a field's. -/
theorem Draft.toNat_has_add (h : d.add? m = some d') (f : Field) :
    (d'.has f).toNat = (d.has f).toNat + if m.1 = f.name then 1 else 0 := by
  unfold Draft.add? at h
  split at h
  · next hname =>
    obtain rfl := Option.some.inj h
    have hf : f.name ≠ m.1 := Field.name_ne (by simp [hname])
    rw [if_neg hf.symm, Nat.add_zero]
  · next g hname =>
    split at h
    · cases h
    · next hhas =>
      obtain ⟨a, -, rfl⟩ := Option.map_eq_some_iff.mp h
      by_cases hg : f = g
      · subst hg
        rw [if_pos (Field.ofName?_eq_some_iff.mp hname).symm, has_eq (d.set f a), value_set]
        simp [hhas]
      · have hf : f.name ≠ m.1 := Field.name_ne (by simp [hname, Ne.symm hg])
        rw [if_neg hf.symm, has_eq (d.set g a), value_set_of_ne d hg, has_eq, Nat.add_zero]

theorem Draft.toNat_has_addAll (h : ms.foldlM Draft.add? d = some d') (f : Field) :
    (d'.has f).toNat = (d.has f).toNat + (ms.map Prod.fst).count f.name := by
  induction ms generalizing d with
  | nil =>
    obtain rfl := Option.some.inj h
    simp
  | cons m ms ih =>
    rw [List.foldlM_cons] at h
    obtain ⟨d₁, hadd, hrest⟩ := Option.bind_eq_some_iff.mp h
    rw [ih hrest, toNat_has_add hadd, List.map_cons, List.count_cons]
    simp only [beq_iff_eq]
    omega

theorem foldlM_add?_eq_none (f : Field) (h : 2 ≤ (ms.map Prod.fst).count f.name) :
    ms.foldlM Draft.add? .empty = none := by
  rw [Option.eq_none_iff_forall_ne_some]
  intro d hd
  have hcount := Draft.toNat_has_addAll hd f
  have hle := Bool.toNat_le (d.has f)
  omega

/-! ## Documents with the same fields -/

section SameFields
variable {ms' : List (String × Tree)} {name : String}

theorem mem_congr (h : (fields ms).Perm (fields ms')) (hname : name ∈ fieldNames) (v : Tree) :
    (name, v) ∈ ms ↔ (name, v) ∈ ms' := by
  have hmem := h.mem_iff (a := (name, v))
  simpa [fields, hname] using hmem

theorem count_fields (ms : List (String × Tree)) (hname : name ∈ fieldNames) :
    ((fields ms).map Prod.fst).count name = (ms.map Prod.fst).count name := by
  simp only [fields, List.count, List.countP_map, List.countP_filter]
  refine List.countP_congr fun m _ => ?_
  simp only [Function.comp_apply, Bool.and_eq_true, beq_iff_eq, decide_eq_true_eq,
    and_iff_left_iff_imp]
  rintro rfl
  exact hname

theorem Proper.congr (hp : Proper ms) (h : (fields ms).Perm (fields ms')) : Proper ms' where
  logResult v hv := hp.logResult v ((mem_congr h (by decide) v).mpr hv)
  logSqlParameters v hv := hp.logSqlParameters v ((mem_congr h (by decide) v).mpr hv)
  operationNames v hv := hp.operationNames v ((mem_congr h (by decide) v).mpr hv)
  once name hname := by
    rw [← count_fields ms' hname, ← (h.map Prod.fst).count_eq name, count_fields ms hname]
    exact hp.once name hname

theorem mem_map_fst_congr (h : (fields ms).Perm (fields ms')) (hname : name ∈ fieldNames) :
    name ∈ ms.map Prod.fst ↔ name ∈ ms'.map Prod.fst := by
  simp only [List.mem_map, Prod.exists, exists_and_right, exists_eq_right, mem_congr h hname]

theorem Overrides.congr (ho : Overrides ms s) (h : (fields ms).Perm (fields ms')) :
    Overrides ms' s where
  logResult b hb := ho.logResult b ((mem_congr h (by decide) _).mpr hb)
  logResult_default hb := ho.logResult_default (mt (mem_map_fst_congr h (by decide)).mp hb)
  logSqlParameters b hb := ho.logSqlParameters b ((mem_congr h (by decide) _).mpr hb)
  logSqlParameters_default hb :=
    ho.logSqlParameters_default (mt (mem_map_fst_congr h (by decide)).mp hb)
  operationNames es hes := ho.operationNames es ((mem_congr h (by decide) _).mpr hes)
  operationNames_default hb :=
    ho.operationNames_default (mt (mem_map_fst_congr h (by decide)).mp hb)

end SameFields

theorem eq_of_given {α : Type} {x y default : α} {name : String}
    (hgiven : ∀ v, (name, v) ∈ ms → x = y) (hx : name ∉ ms.map Prod.fst → x = default)
    (hy : name ∉ ms.map Prod.fst → y = default) : x = y := by
  by_cases hmem : name ∈ ms.map Prod.fst
  · obtain ⟨⟨_, v⟩, hv, rfl⟩ := List.mem_map.mp hmem
    exact hgiven v hv
  · rw [hx hmem, hy hmem]

/-- What a document gives, together with the defaults, is all of the settings. -/
theorem Overrides.unique (hp : Proper ms) (h : Overrides ms s) (h' : Overrides ms s') : s = s' := by
  have hresult : s.logResult = s'.logResult := by
    refine eq_of_given (fun v hv => ?_) h.logResult_default h'.logResult_default
    obtain ⟨b, rfl⟩ := hp.logResult v hv
    rw [h.logResult b hv, h'.logResult b hv]
  have hparameters : s.logSqlParameters = s'.logSqlParameters := by
    refine eq_of_given (fun v hv => ?_) h.logSqlParameters_default h'.logSqlParameters_default
    obtain ⟨b, rfl⟩ := hp.logSqlParameters v hv
    rw [h.logSqlParameters b hv, h'.logSqlParameters b hv]
  have hnames : s.operationNames = s'.operationNames := by
    refine eq_of_given (fun v hv => ?_) h.operationNames_default h'.operationNames_default
    obtain ⟨es, rfl⟩ := hp.operationNames v hv
    refine NameTable.ext_of_mem fun e => ?_
    rw [h.operationNames es hv, h'.operationNames es hv]
  cases s
  cases s'
  cases hresult
  cases hparameters
  cases hnames
  rfl

/-! ## Reading documents -/

theorem ofJson_proper (h : SpellsElement text.toList (.object ms)) (hp : Proper ms) :
    ∃ s, ofJson text = .ok s ∧ Overrides ms s := by
  obtain ⟨d, hd, hholds⟩ := hp.addAll
  exact ⟨d.settings, (ofJson_of_spells h).1 d hd, hholds.overrides⟩

/-- The document `text`, which is an object with the members `ms`, overrides the default
settings. -/
structure PartialOverride (text : String) (ms : List (String × Tree)) : Prop where
  accepted : Proper ms → ∃ s, ofJson text = .ok s ∧ Overrides ms s
  /-- Neither the layout nor the order of members nor other members count. -/
  unchanged : Proper ms → ∀ {text' ms'}, SpellsElement text'.toList (.object ms') →
    (fields ms).Perm (fields ms') → ofJson text' = ofJson text
  rejected : (∃ name ∈ fieldNames, 2 ≤ (ms.map Prod.fst).count name) →
    ∃ message, ofJson text = .error (.config message)

theorem partial_override (h : SpellsElement text.toList (.object ms)) : PartialOverride text ms where
  accepted hp := ofJson_proper h hp
  unchanged hp text' ms' h' hsame := by
    obtain ⟨s, hs, ho⟩ := ofJson_proper h hp
    obtain ⟨s', hs', ho'⟩ := ofJson_proper h' (hp.congr hsame)
    rw [hs, hs', (ho.congr hsame).unique (hp.congr hsame) ho']
  rejected := by
    rintro ⟨name, hname, htwice⟩
    obtain ⟨f, rfl⟩ := exists_field hname
    exact (ofJson_of_spells h).2 (foldlM_add?_eq_none f htwice)

/-- Another order than the fields', blanks, a member that is no field, and a key given twice. -/
def shuffled : String :=
  "\x7b\"x\": null,\"operation_names\":\x7b\"query\":\"a\",\"query\":\"b\"\x7d ,\"log_result\":true\x7d"

def shuffledMembers : List (String × Tree) :=
  [("x", .null), ("operation_names", names [("query", "a"), ("query", "b")]),
    ("log_result", .bool true)]

theorem partial_override_shuffled :
    SpellsElement shuffled.toList (.object shuffledMembers) ∧ Proper shuffledMembers ∧
      ∃ s, ofJson shuffled = .ok s ∧ s.logResult = true ∧ s.logSqlParameters = true ∧
        ("query", "b") ∈ s.operationNames.entries := by
  have hblank : Blanks [' '] := by simp [Blanks]
  have hentry (name : String) := (Spells.string (spellsString_stringChars name)).element
  have hnames := SpellsMembers.cons (spellsName_stringChars "query") (hentry "a")
    (.last (spellsName_stringChars "query") (hentry "b"))
  have hmembers := SpellsMembers.cons (spellsName_stringChars "x") (.padded hblank .null .nil)
    (.cons (spellsName_stringChars "operation_names") (.padded .nil (.object hnames) hblank)
      (.last (spellsName_stringChars "log_result") Spells.boolTrue.element))
  have hspells : SpellsElement shuffled.toList (.object shuffledMembers) := by
    refine Eq.subst (motive := fun t => SpellsElement t (.object shuffledMembers)) ?_
      (Spells.object hmembers).element
    simp [shuffled, Json.stringChars, Json.escape]
  have hproper : Proper shuffledMembers := by
    refine ⟨by simp [shuffledMembers], by simp [shuffledMembers],
      fun v hv => ⟨_, by simpa [shuffledMembers] using hv⟩, fun name _ => ?_⟩
    exact List.nodup_iff_count_le_one.mp (by simp [shuffledMembers]) name
  obtain ⟨s, hs, ho⟩ := (partial_override hspells).accepted hproper
  refine ⟨hspells, hproper, s, hs, ho.logResult true (by simp [shuffledMembers]),
    ho.logSqlParameters_default (by simp [shuffledMembers]), ?_⟩
  rw [ho.operationNames [("query", "a"), ("query", "b")] (by simp [shuffledMembers])]
  rfl

end DatabaseTracing.Settings
