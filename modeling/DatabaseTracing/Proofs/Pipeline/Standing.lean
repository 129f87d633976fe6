import DatabaseTracing.Proofs.Pipeline.Sides
import DatabaseTracing.Proofs.Pipeline.Kinds
import Mathlib.Data.List.Induction
import Mathlib.Data.List.TakeWhile

/-! # Hooks around the built-in step

If all hooks of an operation are registered before or after its built-in step, the
pipeline can be told from the history without going through the pipelines in between.
Those registrations stand that found their name free and have no removal of it behind
them. On either side of the built-in step their hooks are in the order of the
registrations.
-/
namespace DatabaseTracing
variable {H : Type}

/-- The side of the anchor. -/
def Position.phase : Position → Phase
  | before _ => .before
  | after _ => .after

namespace Pipelines

/-- The hook that the call is about. -/
def Call.name : Call H → String
  | .register _ _ name _ => name
  | .remove _ name => name

def Call.isRemoval : Call H → Bool
  | .register .. => false
  | .remove .. => true

/-- A registration goes before or after the built-in step of its operation. -/
def Call.AtBuiltin : Call H → Prop
  | .register o position _ _ => position.anchor = o.builtinStep
  | .remove .. => True

instance (c : Call H) : Decidable c.AtBuiltin :=
  match c with
  | .register o position _ _ => inferInstanceAs (Decidable (position.anchor = o.builtinStep))
  | .remove .. => isTrue trivial

/-- The calls about hooks of that name in the operation's pipeline, in order. -/
def about (o : Operation) (name : String) (cs : List (Call H)) : List (Call H) :=
  cs.filter fun c => c.operation = o ∧ c.name = name

/-- A hook can have the name: it is not that of the built-in step, and the latest call about it, if
there is one, is a removal. -/
def Free (o : Operation) (name : String) (cs : List (Call H)) : Prop :=
  name ≠ o.builtinStep ∧ ∀ c ∈ (about o name cs).getLast?, c.isRemoval

instance (o : Operation) (name : String) (cs : List (Call H)) : Decidable (Free o name cs) :=
  inferInstanceAs (Decidable (_ ∧ ∀ c ∈ (about o name cs).getLast?, c.isRemoval))

/-- The hook that a call registers on that side. -/
def Call.hook? (o : Operation) (side : Phase) : Call H → Option (Step H)
  | .register o' position name body =>
    if o' = o ∧ position.phase = side then some (Pipeline.newStep position name body) else none
  | .remove .. => none

/-- The hook of the `i`-th call is there at the end: its name was free, and nothing behind the call
takes it out. -/
def Stands (o : Operation) (cs : List (Call H)) (i : Nat) (s : Step H) : Prop :=
  Free o s.name (cs.take i) ∧ ∀ c ∈ cs.drop (i + 1), ¬ c.Removes o s

instance (o : Operation) (cs : List (Call H)) (i : Nat) (s : Step H) :
    Decidable (Stands o cs i s) :=
  inferInstanceAs (Decidable (_ ∧ _))

/-- The hooks on one side that are there at the end, in the order of their registrations. -/
def standing (o : Operation) (side : Phase) (cs : List (Call H)) : Pipeline H :=
  (List.range cs.length).filterMap fun i => (cs[i]?.bind (Call.hook? o side)).filter (Stands o cs i)

variable {o : Operation} {side : Phase} {cs : List (Call H)} {c : Call H} {name : String}
  {s : Step H}

/-! ### One call more -/

theorem free_concat (o : Operation) (name : String) (cs : List (Call H)) (c : Call H) :
    Free o name (cs ++ [c]) ↔ if c.operation = o ∧ c.name = name then
      name ≠ o.builtinStep ∧ c.isRemoval = true else Free o name cs := by
  by_cases hc : c.operation = o ∧ c.name = name
  · simp [Free, about, List.filter_append, hc]
  · simp [Free, about, List.filter_append, hc]

theorem stands_concat {i : Nat} (hi : i < cs.length) :
    Stands o (cs ++ [c]) i s ↔ Stands o cs i s ∧ ¬ c.Removes o s := by
  rw [Stands, Stands, List.take_append_of_le_length (by omega),
    List.drop_append_of_le_length (by omega), List.forall_mem_append, List.forall_mem_singleton,
    and_assoc]

/-- A call takes hooks out, and may add one at the end. -/
theorem standing_concat (o : Operation) (side : Phase) (cs : List (Call H)) (c : Call H) :
    standing o side (cs ++ [c]) = ((standing o side cs).filter fun s => ¬ c.Removes o s) ++
      ((c.hook? o side).filter fun s => Free o s.name cs).toList := by
  have hearlier : ∀ i ∈ List.range cs.length,
      ((cs ++ [c])[i]?.bind (Call.hook? o side)).filter (Stands o (cs ++ [c]) i) =
        ((cs[i]?.bind (Call.hook? o side)).filter (Stands o cs i)).filter
          fun s => ¬ c.Removes o s := by
    intro i hi
    have hi : i < cs.length := List.mem_range.mp hi
    rw [List.getElem?_append_left hi, Option.filter_filter]
    simp only [stands_concat hi, Bool.decide_and]
  have hlast : ((cs ++ [c])[cs.length]?.bind (Call.hook? o side)).filter
      (Stands o (cs ++ [c]) cs.length) = (c.hook? o side).filter fun s => Free o s.name cs := by
    simp [Stands]
  rw [standing, List.length_append, List.length_singleton, List.range_succ, List.filterMap_append,
    List.filterMap_congr hearlier, ← List.filter_filterMap, standing]
  congr 1
  cases hnew : (c.hook? o side).filter fun s => Free o s.name cs <;>
    simp only [List.filterMap_cons, List.filterMap_nil, hlast, hnew, Option.toList]

theorem mem_standing (h : s ∈ standing o side cs) :
    ∃ position name body, .register o position name body ∈ cs ∧ position.phase = side ∧
      s = Pipeline.newStep position name body := by
  obtain ⟨i, -, hs⟩ := List.mem_filterMap.mp h
  obtain ⟨c, hc, hhook⟩ := Option.bind_eq_some_iff.mp (Option.filter_eq_some_iff.mp hs).1
  cases c with
  | remove => cases hhook
  | register o' position name body =>
    rw [Call.hook?, Option.ite_none_right_eq_some, Option.some.injEq] at hhook
    obtain ⟨⟨rfl, hside⟩, rfl⟩ := hhook
    exact ⟨position, name, body, List.mem_of_getElem? hc, hside, rfl⟩

/-- A registration takes nothing out. -/
theorem standing_concat_register (position : Position) (name : String) (body : H) :
    standing o side (cs ++ [.register o position name body]) = standing o side cs ++
      if position.phase = side ∧ Free o name cs then [Pipeline.newStep position name body]
      else [] := by
  have hkept : ((standing o side cs).filter fun s =>
      ¬ (Call.register o position name body).Removes o s) = standing o side cs :=
    List.filter_eq_self.mpr fun s _ => by simp [Call.Removes]
  rw [standing_concat, hkept]
  by_cases hside : position.phase = side <;> by_cases hfree : Free o name cs <;>
    simp [Call.hook?, hside, hfree, Pipeline.newStep_name, Option.filter]

theorem standing_concat_other (h : c.operation ≠ o) :
    standing o side (cs ++ [c]) = standing o side cs := by
  have hkept : ((standing o side cs).filter fun s => ¬ c.Removes o s) = standing o side cs := by
    refine List.filter_eq_self.mpr fun s _ => decide_eq_true ?_
    rintro ⟨rfl, -⟩
    exact h rfl
  have hnone : c.hook? o side = none := by
    cases c with
    | remove => rfl
    | register o' position name body => exact if_neg fun ho => h ho.1
  rw [standing_concat, hkept, hnone]
  exact List.append_nil _

theorem follows_of_standing (h : ∀ c ∈ cs, c.operation = o → c.AtBuiltin) :
    ∀ s ∈ standing o .after cs, s.follows o.builtinStep := by
  intro s hs
  obtain ⟨position, name, body, hc, hside, rfl⟩ := mem_standing hs
  have hanchor : position.anchor = o.builtinStep := h _ hc rfl
  cases position with
  | before anchor => cases hside
  | after anchor =>
    obtain rfl : anchor = o.builtinStep := hanchor
    simp [Pipeline.newStep, Step.follows]

/-! ### The pipeline and the history -/

variable {p p' l r : Pipeline H} {position : Position} {body : H} {ps : Pipelines H}

theorem mem_names_insert {new : String} (h : p.insert position new body = some p') :
    name ∈ p'.names ↔ name = new ∨ name ∈ p.names := by
  obtain ⟨l, r, rfl, rfl⟩ := Pipeline.insert_eq_some h
  simp only [Pipeline.names, List.map_append, List.map_cons, Pipeline.newStep_name, List.mem_append,
    List.mem_cons]
  tauto

theorem mem_names_erase_self (hp : p.filter Step.isBuiltin = [.builtin o]) :
    name ∈ (p.erase name).names ↔ name = o.builtinStep := by
  have hbuiltin : ∀ s, s ∈ p ∧ s.isBuiltin = true ↔ s = .builtin o := by
    intro s
    rw [← List.mem_filter, hp, List.mem_singleton]
  rw [Pipeline.mem_names]
  constructor
  · rintro ⟨s, hs, rfl⟩
    obtain ⟨hs, hkept⟩ := List.mem_filter.mp hs
    have hs : s = .builtin o := (hbuiltin s).mp ⟨hs, by simpa [Pipeline.isHookNamed] using hkept⟩
    rw [hs]
    rfl
  · rintro rfl
    obtain ⟨hmem, hb⟩ := (hbuiltin (.builtin o)).mpr rfl
    exact ⟨_, Pipeline.mem_erase hmem (.inr hb), rfl⟩

theorem mem_names_erase_other {gone : String} (h : name ≠ gone) :
    name ∈ (p.erase gone).names ↔ name ∈ p.names := by
  rw [Pipeline.mem_names, Pipeline.mem_names]
  constructor
  · rintro ⟨s, hs, hn⟩
    exact ⟨s, (List.mem_filter.mp hs).1, hn⟩
  · rintro ⟨s, hs, rfl⟩
    exact ⟨s, Pipeline.mem_erase hs (.inl h), rfl⟩

/-- At the built-in step a hook always finds its place, if its name is free. -/
theorem Sound.insert_at_builtin (hs : ps.Sound) (body : H) (hn : name ∉ ps.stepNames o)
    (hp : position.anchor = o.builtinStep) :
    (ps o).insert position name body = some (ps.call (.register o position name body) o) := by
  have hanchor : position.anchor ∈ (ps o).names :=
    hp ▸ Pipeline.mem_names.mpr ⟨_, (hs o).builtin, rfl⟩
  obtain ⟨p', hinsert, -⟩ := Pipeline.register_of_free o body hn hanchor
  rw [call_register_of_insert hn hinsert, hinsert]

/-- A registration makes its name one in use, a removal makes it free; other names are as before. -/
theorem mem_stepNames_call (cs : List (Call H)) (hc : c.AtBuiltin) :
    name ∈ ((initial.calls cs).call c).stepNames c.operation ↔
      if c.name = name then c.isRemoval = false ∨ name = c.operation.builtinStep
      else name ∈ (initial.calls cs).stepNames c.operation := by
  set ps : Pipelines H := initial.calls cs with hps
  have hs : ps.Sound := sound_initial.calls cs
  cases c with
  | register o position new body =>
    by_cases hn : new ∈ ps.stepNames o
    · have hsame : ps.call (.register o position new body) o = ps o := by
        rw [call_register]
        exact if_pos hn
      rw [stepNames, Call.operation, hsame]
      by_cases hname : new = name
      · subst hname
        simpa [Call.name, Call.isRemoval, stepNames] using hn
      · simp [Call.name, hname, stepNames]
    · rw [stepNames, Call.operation, mem_names_insert (hs.insert_at_builtin body hn hc)]
      by_cases hname : new = name
      · simp [Call.name, Call.isRemoval, hname]
      · simp [Call.name, hname, Ne.symm hname, stepNames]
  | remove o gone =>
    have herase : ps.call (.remove o gone) o = (ps o).erase gone := set_same ..
    rw [stepNames, Call.operation, herase]
    by_cases hname : gone = name
    · subst hname
      rw [mem_names_erase_self (filter_isBuiltin_calls initial cs o)]
      simp [Call.name, Call.isRemoval]
    · rw [mem_names_erase_other (Ne.symm hname)]
      simp [Call.name, hname, stepNames]

/-- The name is in use exactly if the history says that it is not free. -/
theorem free_iff (h : ∀ c ∈ cs, c.operation = o → c.AtBuiltin) :
    Free o name cs ↔ name ∉ (initial.calls cs : Pipelines H).stepNames o := by
  induction cs using List.reverseRecOn with
  | nil => simp [Free, about, calls, initial, Pipeline.initial, stepNames, Pipeline.names, Step.name]
  | append_singleton cs c ih =>
    obtain ⟨hcs, hc⟩ := List.forall_mem_append.mp h
    have hc := hc c (List.mem_singleton_self c)
    have ih := ih hcs
    have hcalls : (initial.calls (cs ++ [c]) : Pipelines H) = (initial.calls cs).call c :=
      calls_append ..
    rw [free_concat, hcalls]
    by_cases ho : c.operation = o
    · subst ho
      rw [mem_stepNames_call cs (hc rfl)]
      by_cases hname : c.name = name
      · cases hremoval : c.isRemoval <;> simp [hname]
      · simp [hname, ih]
    · rw [if_neg (ho ·.1), ih, stepNames, stepNames, call_other _ ho]

/-- The hooks behind the built-in step are one run of its followers, so both sides are queues. -/
theorem insert_between (hl : o.builtinStep ∉ Pipeline.names l)
    (hr : ∀ s ∈ r, s.follows o.builtinStep) (hp : position.anchor = o.builtinStep) :
    Pipeline.insert position name body (l ++ .builtin o :: r) = some
      ((l ++ if position.phase = .before then [Pipeline.newStep position name body] else []) ++
        .builtin o :: (r ++
          if position.phase = .after then [Pipeline.newStep position name body] else [])) := by
  cases position with
  | before anchor =>
    obtain rfl : anchor = o.builtinStep := hp
    rw [Pipeline.insert, Pipeline.insertBefore_append hl rfl]
    simp [Position.phase, Pipeline.newStep]
  | after anchor =>
    obtain rfl : anchor = o.builtinStep := hp
    rw [Pipeline.insert, Pipeline.insertAfter_append hl rfl, List.takeWhile_eq_self_iff.mpr hr,
      List.dropWhile_eq_nil_iff.mpr hr]
    simp [Position.phase, Pipeline.newStep]

theorem standing_erase (o : Operation) (cs : List (Call H)) (name : String) :
    Pipeline.erase name (standing o .before cs ++ .builtin o :: standing o .after cs) =
      standing o .before (cs ++ [.remove o name]) ++
        .builtin o :: standing o .after (cs ++ [.remove o name]) := by
  have hbuiltin : ¬ (Call.remove o name : Call H).Removes o (.builtin o) := fun h => by cases h.2
  have hkept (side : Phase) : standing o side (cs ++ [.remove o name]) =
      (standing o side cs).filter fun s => ¬ Call.Removes (.remove o name) o s := by
    rw [standing_concat]
    exact List.append_nil _
  rw [erase_eq_filter _ o, List.filter_append, List.filter_cons_of_pos (by simpa using hbuiltin),
    hkept, hkept]

/-- The pipeline of an operation is what stands of its hooks, around the built-in step. -/
theorem hooks_around_builtin (h : ∀ c ∈ cs, c.operation = o → c.AtBuiltin) :
    (initial.calls cs : Pipelines H) o =
      standing o .before cs ++ .builtin o :: standing o .after cs := by
  induction cs using List.reverseRecOn with
  | nil => rfl
  | append_singleton cs c ih =>
    obtain ⟨hcs, hc⟩ := List.forall_mem_append.mp h
    have hc := hc c (List.mem_singleton_self c)
    have ih := ih hcs
    have hs : (initial.calls cs : Pipelines H).Sound := sound_initial.calls cs
    have hcalls : (initial.calls (cs ++ [c]) : Pipelines H) = (initial.calls cs).call c :=
      calls_append ..
    rw [hcalls]
    by_cases ho : c.operation = o
    · cases c with
      | remove o' name =>
        obtain rfl : o' = o := ho
        have herase : (initial.calls cs : Pipelines H).call (.remove o' name) o' =
            ((initial.calls cs : Pipelines H) o').erase name := set_same ..
        rw [herase, ih, standing_erase]
      | register o' position name body =>
        obtain rfl : o' = o := ho
        have hanchor : position.anchor = o'.builtinStep := hc rfl
        by_cases hfree : Free o' name cs
        · have hinsert := hs.insert_at_builtin body ((free_iff hcs).mp hfree) hanchor
          have hl : o'.builtinStep ∉ Pipeline.names (standing o' .before cs) := by
            intro hl
            obtain ⟨s, hmem, hn⟩ := Pipeline.mem_names.mp hl
            exact (hs o').name_ne ih (List.mem_append_left _ hmem) hn
          rw [ih, insert_between hl (follows_of_standing hcs) hanchor] at hinsert
          rw [← Option.some.inj hinsert, standing_concat_register, standing_concat_register]
          simp only [hfree, and_true]
        · have hn : name ∈ ((initial.calls cs : Pipelines H) o').names :=
            not_not.mp ((free_iff hcs).not.mp hfree)
          rw [call_register, if_pos hn, ih, standing_concat_register, standing_concat_register]
          simp only [hfree, and_false, if_false, List.append_nil]
    · rw [call_other _ ho, ih, standing_concat_other ho, standing_concat_other ho]

/-- A name that is taken, one that comes back behind a later one, and one on the other side. -/
theorem hooks_around_builtin_returning :
    let cs : List (Call Nat) :=
      [.register .query (.before "db:query") "a" 0, .register .query (.before "db:query") "b" 1,
        .register .query (.after "db:query") "c" 2, .register .query (.after "db:query") "a" 3,
        .remove .query "a", .register .query (.after "db:query") "d" 4,
        .register .query (.before "db:query") "a" 5, .remove .query "c",
        .register .query (.before "db:query") "c" 6, .remove .query "db:query"]
    (∀ c ∈ cs, c.operation = .query → c.AtBuiltin) ∧
      initial.calls cs .query =
        standing .query .before cs ++ .builtin .query :: standing .query .after cs ∧
      standing .query .before cs =
        [.hook "b" none 1, .hook "a" none 5, .hook "c" none 6] ∧
      standing .query .after cs = [.hook "d" (some "db:query") 4] := by
  intro cs
  have h : ∀ c ∈ cs, c.operation = .query → c.AtBuiltin := by decide
  exact ⟨h, hooks_around_builtin h, by decide, by decide⟩

end Pipelines
end DatabaseTracing
