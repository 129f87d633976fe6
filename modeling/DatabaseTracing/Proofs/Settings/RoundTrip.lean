import DatabaseTracing.Proofs.Json.Printing
import DatabaseTracing.Proofs.Settings.Override
import Mathlib.Logic.Function.Basic

/-! # Settings survive their document

The document that settings are printed as gives every field, so nothing in it is left to the
defaults, and what is read from it are the settings that were printed.
-/
namespace DatabaseTracing.Settings
open JsonText

/-- The members of the document that the settings are printed as. -/
def members (s : Settings) : List (String × Tree) :=
  [("log_result", .bool s.logResult), ("log_sql_parameters", .bool s.logSqlParameters),
    ("operation_names", names s.operationNames.entries)]

theorem spells_toJson (s : Settings) : Spells s.toJson.chars (.object s.members) := by
  have hentries : Spells (Json.object (s.operationNames.entries.map fun e => (e.1, .string e.2))).chars
      (names s.operationNames.entries) := by
    refine spells_object ?_ ?_
    · rw [List.pairwise_map]
      exact s.operationNames.ordered.imp Std.le_of_lt
    · rw [List.forall₂_map_left_iff, List.forall₂_map_right_iff, List.forall₂_same]
      exact fun e _ => ⟨rfl, .string (spellsString_stringChars e.2)⟩
  refine spells_object ?_ ?_
  · simp
  · exact .cons ⟨rfl, spells_bool _⟩ (.cons ⟨rfl, spells_bool _⟩ (.cons ⟨rfl, hentries⟩ .nil))

theorem members_proper (s : Settings) : Proper s.members where
  logResult v hv := ⟨s.logResult, by simpa [members] using hv⟩
  logSqlParameters v hv := ⟨s.logSqlParameters, by simpa [members] using hv⟩
  operationNames v hv := ⟨s.operationNames.entries, by simpa [members] using hv⟩
  once name _ := by
    have hnodup : (s.members.map Prod.fst).Nodup := by simp [members]
    exact List.nodup_iff_count_le_one.mp hnodup name

theorem names_injective : Function.Injective names := by
  intro es es' h
  have hmap := Tree.object.inj h
  refine List.map_injective_iff.mpr (fun e e' he => ?_) hmap
  simpa [Prod.ext_iff] using he

theorem members_overrides (s : Settings) : Overrides s.members s where
  logResult b hb := by simpa [members, eq_comm] using hb
  logResult_default h := absurd (by simp [members]) h
  logSqlParameters b hb := by simpa [members, eq_comm] using hb
  logSqlParameters_default h := absurd (by simp [members]) h
  operationNames es hes key name := by
    have hes : es = s.operationNames.entries := names_injective (by simpa [members] using hes)
    rw [hes, NameTable.lookup_reverse_entries]
  operationNames_default h := absurd (by simp [members]) h

theorem document_round_trip : (∀ s : Settings, ofJson s.toJson.render = .ok s) ∧
    Function.Injective fun s : Settings => s.toJson.render := by
  have hread (s : Settings) : ofJson s.toJson.render = .ok s := by
    have hspells : SpellsElement s.toJson.render.toList (.object s.members) := by
      rw [Json.render, String.toList_ofList]
      exact s.spells_toJson.element
    obtain ⟨s', hs', ho⟩ := ofJson_proper hspells s.members_proper
    rw [hs', ho.unique s.members_proper s.members_overrides]
  refine ⟨hread, fun s s' h => ?_⟩
  have hsame : ofJson s.toJson.render = ofJson s'.toJson.render := congrArg ofJson h
  rw [hread, hread] at hsame
  exact Except.ok.inj hsame

end DatabaseTracing.Settings
