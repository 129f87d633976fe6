import DatabaseTracing.Proofs.Lists
import DatabaseTracing.Proofs.Telemetry.Edits

/-! # What a span has from its start on

The provider of a span, its tracer, its name and kind, its context and its parent are settled
when it starts. Whatever its holders do afterwards leaves them alone, for this span and for all
others; no span is started by it, no identifier is made, and the global provider stays in force.
-/
namespace DatabaseTracing

namespace Telemetry
variable {t u v : Telemetry}

/-- From one store to the other, only holders have been at work. -/
structure SameBirths (t u : Telemetry) : Prop where
  births : u.records.map SpanRecord.birth = t.records.map SpanRecord.birth
  globalProvider : u.globalProvider = t.globalProvider
  nextIdent : u.nextIdent = t.nextIdent

theorem SameBirths.refl (t : Telemetry) : SameBirths t t := ⟨rfl, rfl, rfl⟩

theorem SameBirths.trans (h : SameBirths t u) (h' : SameBirths u v) : SameBirths t v :=
  ⟨h'.births.trans h.births, h'.globalProvider.trans h.globalProvider,
    h'.nextIdent.trans h.nextIdent⟩

theorem SameBirths.map_records {α : Type} (h : SameBirths t u)
    (f : SpanBirth → α) :
    u.records.map (f ∘ SpanRecord.birth) = t.records.map (f ∘ SpanRecord.birth) := by
  rw [← List.map_map, ← List.map_map, h.births]

theorem modify_sameBirths {f : SpanRecord → SpanRecord} (hf : ∀ r, (f r).birth = r.birth)
    (t : Telemetry) (i : Nat) (exports : List Nat) :
    SameBirths t { t with records := t.records.modify i f, exports } :=
  ⟨by rw [map_modify (h := id) hf, List.modify_id], rfl, rfl⟩

theorem editRecord_sameBirths (t : Telemetry) (i : Nat) (e : SpanEdit) :
    SameBirths t (t.editRecord i e) := by
  unfold editRecord
  split
  · exact modify_sameBirths (fun r => (r.fixed_apply e).1) t i _
  · exact .refl t

theorem edit_sameBirths (t : Telemetry) (c : Context) (e : SpanEdit) :
    SameBirths t (t.edit c e) := by
  unfold edit
  split
  · exact .refl t
  · exact editRecord_sameBirths t _ e

theorem editAll_sameBirths (t : Telemetry) (c : Context) (es : List SpanEdit) :
    SameBirths t (t.editAll c es) := by
  induction es generalizing t with
  | nil => exact .refl t
  | cons e es ih => exact (edit_sameBirths t c e).trans (ih (t.edit c e))

theorem retain_sameBirths (t : Telemetry) (c : Context) : SameBirths t (t.retain c) := by
  unfold retain
  split
  · exact .refl t
  · exact modify_sameBirths (f := fun r => { r with holders := r.holders + 1 }) (fun _ => rfl) t _
      t.exports

theorem release_sameBirths (t : Telemetry) (c : Context) : SameBirths t (t.release c) := by
  unfold release
  split
  · exact .refl t
  · rename_i i _
    have hholders := modify_sameBirths (f := fun r => { r with holders := r.holders - 1 })
      (fun _ => rfl) t i t.exports
    dsimp only
    split
    · exact hholders.trans (editRecord_sameBirths _ i .finish)
    · exact hholders

theorem releaseAll_sameBirths (t : Telemetry) (cs : List Context) :
    SameBirths t (t.releaseAll cs) := by
  induction cs generalizing t with
  | nil => exact .refl t
  | cons c cs ih => exact (release_sameBirths t c).trans (ih (t.release c))

end Telemetry
end DatabaseTracing
