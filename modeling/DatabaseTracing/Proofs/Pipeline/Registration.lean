import DatabaseTracing.Proofs.Pipeline.Kinds

/-! # Registering a hook and taking it back

Registering puts one step into one pipeline, or it is refused and nothing changes. The
name is looked at before the anchor. Where the step goes is told by the steps alone:
directly ahead of the anchor, or behind the anchor and the run of its followers. To
remove the hook again gives back the pipelines there were, with the anchors that the
steps remember.
-/
namespace DatabaseTracing
variable {H : Type}

/-- The two refusals differ in their wording, whatever the names are. -/
theorem RegisterError.toError_taken_ne (name anchor : String) (o o' : Operation) :
    (taken name o).toError ≠ (anchorMissing anchor o').toError := by
  intro h
  have hmessage : "callback " ++ name ++ " already registered for " ++ o.name =
      "insertion point " ++ anchor ++ " not found for " ++ o'.name :=
    DatabaseError.registration.inj h
  have hchars := congrArg String.toList hmessage
  simp at hchars

namespace Pipeline
variable {p p' : Pipeline H} {position : Position} {name : String} {body : H}

/-- The second pipeline is the first with the new step where the position tells. -/
inductive Inserted (new : Step H) : Position → Pipeline H → Pipeline H → Prop
  | before {x : Step H} {l r : Pipeline H} (first : x.name ∉ names l) :
      Inserted new (.before x.name) (l ++ x :: r) (l ++ new :: x :: r)
  | after {x : Step H} {l run r : Pipeline H} (first : x.name ∉ names l)
      (followers : ∀ s ∈ run, s.follows x.name) (last : ∀ s ∈ r.head?, ¬ s.follows x.name) :
      Inserted new (.after x.name) (l ++ x :: (run ++ r)) (l ++ x :: (run ++ new :: r))

theorem inserted_of_insert (h : p.insert position name body = some p') :
    Inserted (newStep position name body) position p p' := by
  cases position with
  | before anchor =>
    have ha : anchor ∈ p.names := anchor_mem h
    obtain ⟨l, x, r, rfl, rfl, hl⟩ := exists_split ha
    rw [insert, insertBefore_append hl rfl] at h
    obtain rfl := Option.some.inj h
    exact .before hl
  | after anchor =>
    obtain ⟨l, x, r, rfl, rfl, hl, rfl⟩ := insert_after_eq_some h
    have hrun : ∀ s ∈ r.takeWhile (Step.follows x.name), s.follows x.name := by
      intro s hs
      exact List.all_eq_true.mp List.all_takeWhile s hs
    have hlast : ∀ s ∈ (r.dropWhile (Step.follows x.name)).head?, ¬ s.follows x.name := by
      intro s hs
      have hnot := List.head?_dropWhile_not (Step.follows x.name) r
      rw [Option.mem_def.mp hs] at hnot
      simpa using hnot
    have hinserted : Inserted (newStep (.after x.name) name body) _ _ _ := .after hl hrun hlast
    rwa [List.takeWhile_append_dropWhile] at hinserted

/-- The hook goes out as it came in. -/
theorem erase_insert (hn : name ∉ p.names) (h : p.insert position name body = some p') :
    p'.hasHook name = true ∧ p'.erase name = p := by
  obtain ⟨l, r, rfl, rfl⟩ := insert_eq_some h
  have hnew := isBuiltin_newStep position name body
  have hname := newStep_name position name body
  have hhas := hasHook_split (l := l) (r := r) hnew
  have hgone := erase_split (l := l) (r := r) hnew (by rwa [hname])
  rw [hname] at hhas hgone
  exact ⟨hhas, hgone⟩

end Pipeline

namespace Pipelines
variable {ps : Pipelines H} {o : Operation} {position : Position} {name : String} {body : H}

theorem remove_inserted {p : Pipeline H} (hn : name ∉ ps.stepNames o)
    (hp : (ps o).insert position name body = some p) : (ps.set o p).remove o name = (true, ps) := by
  obtain ⟨hhook, herase⟩ := Pipeline.erase_insert hn hp
  rw [remove, set_same, hhook, herase, set_set, set_self]

/-- All that a registration can come to, and what removing the hook directly behind it leaves. -/
theorem register_all_or_nothing (ps : Pipelines H) (o : Operation) (position : Position)
    (name : String) (body : H) :
    let r := ps.register o position name body
    (r.1 = .error (RegisterError.taken name o).toError ↔ name ∈ ps.stepNames o) ∧
      (r.1 = .error (RegisterError.anchorMissing position.anchor o).toError ↔
        name ∉ ps.stepNames o ∧ position.anchor ∉ ps.stepNames o) ∧
      (r.1 = .ok () ↔ name ∉ ps.stepNames o ∧ position.anchor ∈ ps.stepNames o) ∧
      (r.1 ≠ .ok () → r.2 = ps) ∧
      (r.1 = .ok () →
        (∃ p, Pipeline.Inserted (Pipeline.newStep position name body) position (ps o) p ∧
          r.2 = ps.set o p) ∧
        -- With the steps come the anchors they remember, so later hooks go where they would have.
        r.2.remove o name = (true, ps)) := by
  intro r
  by_cases hn : name ∈ ps.stepNames o
  · have hr : r = (.error (RegisterError.taken name o).toError, ps) :=
      register_of_error (Pipeline.register_of_taken hn)
    simp [hr, hn, RegisterError.toError_taken_ne]
  · by_cases ha : position.anchor ∈ ps.stepNames o
    · obtain ⟨p, hp, hregister⟩ := Pipeline.register_of_free o body hn ha
      have hr : r = (.ok (), ps.set o p) := register_of_ok hregister
      have hback : r.2.remove o name = (true, ps) := by
        rw [hr]
        exact remove_inserted hn hp
      refine ⟨by simp [hr, hn], by simp [hr, ha], by simp [hr, hn, ha], by simp [hr], fun _ => ?_⟩
      exact ⟨⟨p, Pipeline.inserted_of_insert hp, congrArg Prod.snd hr⟩, hback⟩
    · have hr : r = (.error (RegisterError.anchorMissing position.anchor o).toError, ps) :=
        register_of_error (Pipeline.register_of_missing hn ha)
      have hne := RegisterError.toError_taken_ne name position.anchor o o
      simp [hr, hn, ha, hne.symm]

end Pipelines
end DatabaseTracing
