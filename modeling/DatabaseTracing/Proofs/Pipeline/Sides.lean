import DatabaseTracing.Proofs.Pipeline.AfterOrder

/-! # Hooks on their side of their anchor

Calls on the pipelines never change the order of the steps that stay. A hook
therefore remains on the side of its anchor on which it was registered, until one of
the two is removed, and hooks registered before one anchor stand in the order of
their registration. A step that is removed and a later one of the same name are two
steps.
-/
namespace DatabaseTracing
variable {H : Type}

/-- The hook of that name is on its side of the anchor. -/
def Position.Holds (position : Position) (name : String) (p : Pipeline H) : Prop :=
  match position with
  | .before anchor => p.Ahead name anchor
  | .after anchor => p.Ahead anchor name

namespace Pipeline
variable {p p' : Pipeline H} {o : Operation} {a anchor name : String} {position : Position}
  {body : H}

/-- A new hook stands ahead of its anchor. -/
theorem ahead_insert_before (h : p.insert (.before anchor) name body = some p') :
    p'.Ahead name anchor := by
  have ha : anchor ∈ p.names := anchor_mem h
  obtain ⟨l, x, r, rfl, hx, hl⟩ := exists_split ha
  rw [insert, insertBefore_append hl hx] at h
  obtain rfl := Option.some.inj h
  exact ahead_append_cons l (.hook name none body) (mem_names.mpr ⟨x, List.mem_cons_self, hx⟩)

theorem holds_insert (h : p.insert position name body = some p') : position.Holds name p' := by
  cases position with
  | before anchor => exact ahead_insert_before h
  | after anchor => exact ahead_insert_after h

/-- What is ahead of the anchor is ahead of a hook that is put before the anchor. -/
theorem Sound.ahead_insert_before_of_ahead (hs : p.Sound o) (ha : p.Ahead a anchor)
    (h : p.insert (.before anchor) name body = some p') : p'.Ahead a name := by
  obtain ⟨l, x, r, rfl, rfl, hl⟩ := exists_split ha.mem.2
  rw [Pipeline.insert, insertBefore_append hl rfl] at h
  obtain rfl := Option.some.inj h
  have hplace : a ∈ names l ∨ a = x.name ∨ a ∈ names r := by
    simpa [names] using ha.mem.1
  have hback : ¬ Ahead x.name a (l ++ x :: r) := hs.not_ahead ha
  rcases hplace with hal | rfl | har
  · exact ahead_append hal (mem_names.mpr ⟨_, List.mem_cons_self, rfl⟩)
  · exact absurd ha hback
  · exact absurd (ahead_append_cons l x har) hback

end Pipeline

namespace Pipelines
variable {ps : Pipelines H} {o : Operation} {position : Position} {anchor name : String} {body : H}

instance (c : Call H) (o : Operation) (s : Step H) : Decidable (c.Removes o s) :=
  match c with
  | .register .. => isFalse fun h => nomatch h.1
  | .remove o' name => decidable_of_iff (o' = o ∧ name = s.name ∧ s.isBuiltin = false) (by
      rw [Call.Removes, Call.remove.injEq, and_assoc])

/-- The steps of a pipeline that none of the calls takes out. -/
def kept (ps : Pipelines H) (cs : List (Call H)) (o : Operation) : Pipeline H :=
  (ps o).filter fun s => ∀ c ∈ cs, ¬ c.Removes o s

theorem erase_eq_filter (p : Pipeline H) (o : Operation) (name : String) :
    p.erase name = p.filter fun s => ¬ Call.Removes (.remove o name) o s := by
  refine List.filter_congr fun s _ => ?_
  rw [Bool.eq_iff_iff, decide_eq_true_iff, kept_iff]
  cases hb : s.isBuiltin <;> simp [Pipeline.isHookNamed, hb]

theorem kept_call_sublist (ps : Pipelines H) (c : Call H) (o : Operation) :
    ((ps o).filter fun s => ¬ c.Removes o s).Sublist (ps.call c o) := by
  rcases call_cases ps c o with h | ⟨position, name, body, _, _, h⟩ | ⟨name, rfl, h⟩
  · rw [h]
    exact List.filter_sublist
  · obtain ⟨l, r, hl, hr⟩ := Pipeline.insert_eq_some h
    rw [hl, hr]
    exact List.filter_sublist.trans ((List.Sublist.refl l).append (List.sublist_cons_self _ r))
  · rw [h, erase_eq_filter]

/-- The steps that stay stand in the order in which they stood. -/
theorem kept_sublist (ps : Pipelines H) (cs : List (Call H)) (o : Operation) :
    (ps.kept cs o).Sublist (ps.calls cs o) := by
  induction cs generalizing ps with
  | nil => exact List.filter_sublist
  | cons c cs ih =>
    have hsplit : ps.kept (c :: cs) o =
        ((ps o).filter fun s => ¬ c.Removes o s).filter fun s => ∀ d ∈ cs, ¬ d.Removes o s := by
      rw [kept, List.filter_filter]
      refine List.filter_congr fun s _ => ?_
      simp [Bool.and_comm]
    rw [hsplit]
    exact ((kept_call_sublist ps c o).filter _).trans (ih (ps.call c))

theorem holds_register (h : (ps.register o position name body).1 = .ok ()) :
    position.Holds name (ps.call (.register o position name body) o) := by
  obtain ⟨hn, p', hp⟩ := register_eq_ok h
  rw [call_register_of_insert hn hp]
  exact Pipeline.holds_insert hp

/-- A hook is registered at the end of a history, and the calls that follow remove neither the hook
nor its anchor. -/
structure Lasting (cs : List (Call H)) (o : Operation) (position : Position) (name : String)
    (body : H) (ds : List (Call H)) : Prop where
  registered : ((initial.calls cs).register o position name body).1 = .ok ()
  kept : .remove o name ∉ ds
  anchor_kept : .remove o position.anchor ∈ ds → position.anchor = o.builtinStep

theorem Lasting.holds {cs ds : List (Call H)} (h : Lasting cs o position name body ds) :
    position.Holds name (initial.calls (cs ++ .register o position name body :: ds) o) := by
  have hs : ((initial.calls cs : Pipelines H).call (.register o position name body)).Sound :=
    (sound_initial.calls cs).call _
  have hname : .remove o name ∈ ds → name = o.builtinStep := fun hr => absurd hr h.kept
  have hholds := holds_register h.registered
  rw [calls_append, calls_cons]
  cases position with
  | before anchor => exact hs.ahead_calls_of_names hholds hname h.anchor_kept
  | after anchor => exact hs.ahead_calls_of_names hholds h.anchor_kept hname

/-- Two hooks registered before one anchor in the course of a history. -/
theorem Lasting.ahead_later {cs ds es : List (Call H)} {later : String} {body' : H}
    (h : Lasting cs o (.before anchor) name body ds)
    (hl : ((initial.calls (cs ++ .register o (.before anchor) name body :: ds)).register o
      (.before anchor) later body').1 = .ok ())
    (hke : .remove o name ∉ es) (hkl : .remove o later ∉ es) :
    (initial.calls (cs ++ .register o (.before anchor) name body ::
      (ds ++ .register o (.before anchor) later body' :: es)) o).Ahead name later := by
  set ps : Pipelines H :=
    initial.calls (cs ++ .register o (.before anchor) name body :: ds) with hps
  have hs : ps.Sound := sound_initial.calls _
  have hahead : (ps o).Ahead name anchor := h.holds
  obtain ⟨hn, p', hp⟩ := register_eq_ok hl
  have hnext : (ps.call (.register o (.before anchor) later body') o).Ahead name later := by
    rw [call_register_of_insert hn hp]
    exact (hs o).ahead_insert_before_of_ahead hahead hp
  have hwhole : (initial.calls (cs ++ .register o (.before anchor) name body ::
      (ds ++ .register o (.before anchor) later body' :: es)) : Pipelines H) =
      (ps.call (.register o (.before anchor) later body')).calls es := by
    rw [hps, ← calls_cons, ← calls_append, List.append_assoc, List.cons_append]
  rw [hwhole]
  exact (hs.call _).ahead_calls_of_names hnext (absurd · hke) (absurd · hkl)

theorem hooks_keep_sides :
    (∀ (cs ds : List (Call H)) (o : Operation),
      ((initial.calls cs).kept ds o).Sublist (initial.calls (cs ++ ds) o)) ∧
    (∀ (cs ds : List (Call H)) (o : Operation) (position : Position) (name : String) (body : H),
      Lasting cs o position name body ds →
      position.Holds name (initial.calls (cs ++ .register o position name body :: ds) o)) ∧
    ∀ (cs ds es : List (Call H)) (o : Operation) (anchor earlier later : String) (body body' : H),
      Lasting cs o (.before anchor) earlier body ds →
      ((initial.calls (cs ++ .register o (.before anchor) earlier body :: ds)).register o
        (.before anchor) later body').1 = .ok () →
      .remove o earlier ∉ es → .remove o later ∉ es →
      [earlier, later].Sublist ((initial.calls (cs ++ .register o (.before anchor) earlier body ::
        (ds ++ .register o (.before anchor) later body' :: es))).stepNames o) := by
  refine ⟨fun cs ds o => ?_, fun _ _ _ _ _ _ h => h.holds, ?_⟩
  · rw [calls_append]
    exact kept_sublist _ ds o
  · intro cs ds es o anchor earlier later body body' h hl hke hkl
    exact h.ahead_later hl hke hkl

/-- A hook comes and goes and comes again elsewhere under the same name, ahead of a hook that stays;
the anchor goes in the end. -/
theorem hooks_keep_sides_reused :
    let b : Call Nat := .register .query (.before "a") "b" 1
    let ds : List (Call Nat) := [.register .query (.after "db:query") "c" 2, .remove .query "c"]
    let c : Call Nat := .register .query (.before "a") "c" 3
    Lasting [.register .query (.before "db:query") "a" 0] .query (.before "a") "b" 1 ds ∧
      (Position.before "a").Holds "b"
        (initial.calls ([.register .query (.before "db:query") "a" 0] ++ b :: ds) .query) ∧
      ["b", "c"].Sublist ((initial.calls ([.register .query (.before "db:query") "a" 0] ++
        b :: (ds ++ c :: [.remove .query "a"]))).stepNames .query) := by
  intro b ds c
  have h : Lasting [.register .query (.before "db:query") "a" 0] .query (.before "a") "b" 1 ds := by
    constructor <;> decide
  refine ⟨h, hooks_keep_sides.2.1 _ _ _ _ _ _ h, ?_⟩
  exact hooks_keep_sides.2.2 _ ds _ .query "a" "b" "c" 1 3 h (by decide) (by decide) (by decide)

end Pipelines
end DatabaseTracing
