import DatabaseTracing.Proofs.Options.Fields
import DatabaseTracing.Proofs.Text.ByteOrder
import DatabaseTracing.Settings

/-! # Settings as changes of options

Settings stand for one change for each of the two switches and for each entry of the table.
The order of these changes does not matter, since each of them writes another field. A key
that names no operation makes the conversion fail, and the least such key is reported.
-/
namespace DatabaseTracing
variable {es : List (String × String)} {key : String}

theorem Operation.ofName?_eq_none_iff : ofName? key = none ↔ ∀ op : Operation, op.name ≠ key := by
  constructor
  · rintro h op rfl
    rw [ofName?_name] at h
    cases h
  · intro h
    refine Option.eq_none_iff_forall_ne_some.mpr fun op hop => ?_
    exact h op (name_of_ofName? hop)

theorem Operation.ofName?_ne_none_iff : ofName? key ≠ none ↔ ∃ op : Operation, op.name = key := by
  rw [ne_eq, ofName?_eq_none_iff, not_forall_not]

namespace Settings

def keys (s : Settings) : List String := s.operationNames.entries.map Prod.fst

/-- The change names the spans of the operation that is the entry's key. -/
def Renames (e : String × String) (c : Options.Change) : Prop :=
  ∃ op : Operation, op.name = e.1 ∧ c = .spanName op e.2

/-- The change that an entry stands for, if its key names an operation. -/
def change? (entry : String × String) : Option Options.Change :=
  (Operation.ofName? entry.1).map (.spanName · entry.2)

theorem change?_eq_some_iff {e : String × String} {c : Options.Change} :
    change? e = some c ↔ Renames e c := by
  rw [change?, Option.map_eq_some_iff]
  constructor
  · rintro ⟨op, hop, rfl⟩
    exact ⟨op, Operation.name_of_ofName? hop, rfl⟩
  · rintro ⟨op, hop, rfl⟩
    exact ⟨op, hop ▸ op.ofName?_name, rfl⟩

def nameChanges (s : Settings) : List Options.Change := s.operationNames.entries.filterMap change?

def changes (s : Settings) : List Options.Change :=
  .logResult s.logResult :: .logSqlParameters s.logSqlParameters :: s.nameChanges

/-- The keys are names of operations. -/
def Known (es : List (String × String)) : Prop := ∀ e ∈ es, ∃ op : Operation, op.name = e.1

theorem forall₂_renames (h : Known es) : List.Forall₂ Renames es (es.filterMap change?) := by
  induction es with
  | nil => exact .nil
  | cons e es ih =>
    obtain ⟨⟨op, hop⟩, hes⟩ := List.forall_mem_cons.mp h
    have he : Renames e (.spanName op e.2) := ⟨op, hop, rfl⟩
    rw [List.filterMap_cons, change?_eq_some_iff.mpr he]
    exact .cons he (ih hes)

theorem Renames.nameSpans {e : String × String} {c : Options.Change} (h : Renames e c)
    (o : Options) : nameSpans o e = .ok (o.apply c) := by
  obtain ⟨op, hop, rfl⟩ := h
  rw [Settings.nameSpans, ← hop, op.ofName?_name]
  rfl

/-- The entries' changes are made one after the other. -/
theorem foldlM_nameSpans {cs : List Options.Change} (h : List.Forall₂ Renames es cs)
    (o : Options) : es.foldlM nameSpans o = .ok (cs.foldl Options.apply o) := by
  induction h generalizing o with
  | nil => rfl
  | cons he _ ih =>
    rw [List.foldlM_cons, he.nameSpans]
    exact ih _

/-- The first key that names no operation is reported. -/
theorem foldlM_nameSpans_of_unknown (h : Known es) {e : String × String}
    (he : ∀ op : Operation, op.name ≠ e.1) (rest : List (String × String)) (o : Options) :
    (es ++ e :: rest).foldlM nameSpans o = .error (.config ("Unknown operation: " ++ e.1)) := by
  have hstep (o' : Options) :
      nameSpans o' e = .error (.config ("Unknown operation: " ++ e.1)) := by
    rw [nameSpans, Operation.ofName?_eq_none_iff.mpr he]
  rw [List.foldlM_append, foldlM_nameSpans (forall₂_renames h)]
  change (e :: rest).foldlM nameSpans _ = _
  rw [List.foldlM_cons, hstep]
  rfl

variable (s : Settings)

theorem nodup_changes : (s.changes.map Options.Change.field).Nodup := by
  have hnames : s.nameChanges.Pairwise (·.field ≠ ·.field) := by
    refine s.operationNames.ordered.filterMap _ fun e e' hlt c hc c' hc' => ?_
    obtain ⟨op, hop, rfl⟩ := change?_eq_some_iff.mp hc
    obtain ⟨op', hop', rfl⟩ := change?_eq_some_iff.mp hc'
    rintro ⟨⟩
    rw [← hop, ← hop'] at hlt
    exact String.lt_irrefl _ hlt
  have hother : ∀ c ∈ s.nameChanges, ∃ op, c.field = .spanName op := by
    intro c hc
    obtain ⟨e, -, he⟩ := List.mem_filterMap.mp hc
    obtain ⟨op, -, rfl⟩ := change?_eq_some_iff.mp he
    exact ⟨op, rfl⟩
  refine List.pairwise_map.mpr (List.pairwise_cons.mpr ⟨List.forall_mem_cons.mpr ⟨nofun, ?_⟩,
    List.pairwise_cons.mpr ⟨?_, hnames⟩⟩)
  · intro c hc he
    obtain ⟨op, hop⟩ := hother c hc
    cases he.trans hop
  · intro c hc he
    obtain ⟨op, hop⟩ := hother c hc
    cases he.trans hop

/-- Of the keys that name no operation, the least by its bytes. -/
structure LeastUnknown (key : String) : Prop where
  mem : key ∈ s.keys
  unknown : ∀ op : Operation, op.name ≠ key
  least : ∀ key' ∈ s.keys, (∀ op : Operation, op.name ≠ key') →
    ¬ utf8Bytes key' < utf8Bytes key

theorem LeastUnknown.unique {s : Settings} {key key' : String} (h : s.LeastUnknown key)
    (h' : s.LeastUnknown key') : key = key' := by
  have hle := h.least key' h'.mem h'.unknown
  have hge := h'.least key h.mem h.unknown
  rw [utf8Bytes_lt_iff] at hle hge
  exact String.le_antisymm (String.not_lt.mp hle) (String.not_lt.mp hge)

theorem exists_split_unknown (h : ¬ Known es) : ∃ pre e rest, es = pre ++ e :: rest ∧ Known pre ∧
    ∀ op : Operation, op.name ≠ e.1 := by
  cases hfind : es.find? fun e => decide (Operation.ofName? e.1 = none) with
  | none =>
    refine absurd (fun e he => Operation.ofName?_ne_none_iff.mp ?_) h
    simpa using List.find?_eq_none.mp hfind e he
  | some e =>
    obtain ⟨he, pre, rest, rfl, hpre⟩ := List.find?_eq_some_iff_append.mp hfind
    refine ⟨pre, e, rest, rfl, fun e' he' => Operation.ofName?_ne_none_iff.mp ?_,
      Operation.ofName?_eq_none_iff.mp (of_decide_eq_true he)⟩
    simpa using hpre e' he'

theorem exists_leastUnknown (h : ¬ Known s.operationNames.entries) : ∃ key, s.LeastUnknown key ∧
    s.toOptions = .error (.config ("Unknown operation: " ++ key)) := by
  obtain ⟨pre, e, rest, hes, hpre, he⟩ := exists_split_unknown h
  refine ⟨e.1, ⟨by simp [keys, hes], he, ?_⟩, ?_⟩
  · intro key hkey hunknown
    have hordered := s.operationNames.ordered
    rw [keys, hes] at hkey
    rw [hes] at hordered
    have hrest := (List.pairwise_cons.mp (List.pairwise_append.mp hordered).2.1).1
    obtain ⟨e', he', rfl⟩ := List.mem_map.mp hkey
    rw [utf8Bytes_lt_iff, String.not_lt]
    rcases List.mem_append.mp he' with hm | hm
    · obtain ⟨op, hop⟩ := hpre e' hm
      exact absurd hop (hunknown op)
    · rcases List.mem_cons.mp hm with rfl | hm
      · exact String.le_refl _
      · exact String.not_lt.mp (String.lt_asymm (hrest e' hm))
  · rw [toOptions, hes]
    exact foldlM_nameSpans_of_unknown hpre he rest _

/-- How the settings turn into options. -/
structure Converts : Prop where
  converted : Options.ofSettings s = s.toOptions
  fails : (∃ e, s.toOptions = .error e) ↔
    ∃ key ∈ s.keys, ∀ op : Operation, op.name ≠ key
  reports : ∀ e, s.toOptions = .error e ↔
    ∃ key, s.LeastUnknown key ∧ e = .config ("Unknown operation: " ++ key)
  /-- There is one change for each entry, and in any order the changes make the same options. -/
  options : (∀ key ∈ s.keys, ∃ op : Operation, op.name = key) →
    List.Forall₂ Renames s.operationNames.entries s.nameChanges ∧
      ∀ cs : List Options.Change, cs.Perm s.changes → s.toOptions = .ok (Options.ofChanges cs)

theorem toOptions_of_known (h : Known s.operationNames.entries) {cs : List Options.Change}
    (hcs : cs.Perm s.changes) : s.toOptions = .ok (Options.ofChanges cs) := by
  rw [← Options.ofChanges_perm hcs.symm s.nodup_changes]
  exact foldlM_nameSpans (forall₂_renames h) _

theorem toOptions_converts : s.Converts := by
  have hkeys : Known s.operationNames.entries ↔ ∀ key ∈ s.keys, ∃ op : Operation, op.name = key := by
    rw [keys, List.forall_mem_map]
    rfl
  by_cases hknown : Known s.operationNames.entries
  · have hok := s.toOptions_of_known hknown (.refl _)
    have hnone : ¬ ∃ key ∈ s.keys, ∀ op : Operation, op.name ≠ key := by
      rintro ⟨key, hkey, hunknown⟩
      obtain ⟨op, hop⟩ := hkeys.mp hknown key hkey
      exact hunknown op hop
    refine ⟨rfl, iff_of_false ?_ hnone, fun e => iff_of_false ?_ ?_,
      fun _ => ⟨forall₂_renames hknown, fun cs hcs => s.toOptions_of_known hknown hcs⟩⟩
    · simp [hok]
    · simp [hok]
    · rintro ⟨key, hleast, -⟩
      exact hnone ⟨key, hleast.mem, hleast.unknown⟩
  · obtain ⟨key, hleast, herror⟩ := s.exists_leastUnknown hknown
    refine ⟨rfl, iff_of_true ⟨_, herror⟩ ⟨key, hleast.mem, hleast.unknown⟩, fun e => ?_,
      fun hall => absurd (hkeys.mpr hall) hknown⟩
    rw [herror, Except.error.injEq]
    constructor
    · rintro rfl
      exact ⟨key, hleast, rfl⟩
    · rintro ⟨key', hleast', rfl⟩
      rw [hleast.unique hleast']

/-- Two keys name no operation; the lower-case one comes later. -/
example : toOptions ⟨true, true, .insert (.insert (.insert .empty "query" "q") "upsert" "u") "Row" "r"⟩ =
    .error (.config "Unknown operation: Row") := by
  cbv

end Settings
end DatabaseTracing
