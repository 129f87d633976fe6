import DatabaseTracing.Proofs.Pipeline.History

/-! # One pipeline for each operation

In every state that calls lead to, the pipeline of an operation has the operation's
own built-in step, no other, and names that differ. Removing takes out the one hook of
the name, or nothing. A call acts on the pipeline of its operation and looks at no
other, so calls for different operations can change places.
-/
namespace DatabaseTracing
variable {H : Type}

namespace Pipeline
variable {p p' l r : Pipeline H} {o : Operation} {name : String} {position : Position} {body : H}
  {x : Step H}

theorem isBuiltin_newStep (position : Position) (name : String) (body : H) :
    (newStep position name body).isBuiltin = false := by
  cases position <;> rfl

theorem filter_isBuiltin_insert (h : p.insert position name body = some p') :
    p'.filter Step.isBuiltin = p.filter Step.isBuiltin := by
  obtain ⟨l, r, rfl, rfl⟩ := insert_eq_some h
  have hnew : ¬ (newStep position name body).isBuiltin = true := by
    rw [isBuiltin_newStep]
    exact Bool.false_ne_true
  rw [List.filter_append, List.filter_append, List.filter_cons_of_neg hnew]

theorem filter_isBuiltin_erase (p : Pipeline H) (name : String) :
    (p.erase name).filter Step.isBuiltin = p.filter Step.isBuiltin := by
  rw [erase, List.filter_filter]
  refine List.filter_congr fun s _ => ?_
  cases hb : s.isBuiltin <;> simp [isHookNamed, hb]

theorem isHookNamed_eq_false {s : Step H} :
    isHookNamed name s = false ↔ (s.name = name → s.isBuiltin = true) := by
  cases hb : s.isBuiltin <;> simp [isHookNamed, hb]

theorem erase_eq_self (h : ∀ s ∈ p, s.name = name → s.isBuiltin = true) : p.erase name = p := by
  refine List.filter_eq_self.mpr fun s hs => ?_
  rw [isHookNamed_eq_false.mpr (h s hs)]
  rfl

/-- Taking a hook out closes the gap that it leaves. -/
theorem erase_split (hx : x.isBuiltin = false) (hn : x.name ∉ names (l ++ r)) :
    erase x.name (l ++ x :: r) = l ++ r := by
  have hothers : ∀ s ∈ l ++ r, s.name = x.name → s.isBuiltin = true := fun s hm hs =>
    absurd (mem_names.mpr ⟨s, hm, hs⟩) hn
  have hhook : isHookNamed x.name x = true := by simp [isHookNamed, hx]
  have hself := erase_eq_self hothers
  rw [erase, List.filter_append] at hself
  rw [erase, List.filter_append, List.filter_cons_of_neg (by simp [hhook])]
  exact hself

theorem hasHook_split (hx : x.isBuiltin = false) : hasHook x.name (l ++ x :: r) = true :=
  List.any_eq_true.mpr ⟨x, by simp, by simp [isHookNamed, hx]⟩

end Pipeline

namespace Pipelines
variable {ps qs : Pipelines H} {o : Operation} {c d : Call H} {name : String}

/-- What removing a name comes to. -/
inductive Removal (ps : Pipelines H) (o : Operation) (name : String) : Bool × Pipelines H → Prop
  /-- There is one hook of the name, and it alone goes. -/
  | hook {l r : Pipeline H} {anchor : Option String} {body : H}
      (found : ps o = l ++ .hook name anchor body :: r) (once : name ∉ Pipeline.names (l ++ r)) :
      Removal ps o name (true, ps.set o (l ++ r))
  /-- No hook has the name, and all steps stay. -/
  | nothing (absent : ∀ s ∈ ps o, s.name = name → s.isBuiltin = true) :
      Removal ps o name (false, ps)

theorem set_self (ps : Pipelines H) (o : Operation) : ps.set o (ps o) = ps := by
  funext o'
  by_cases ho : o' = o
  · subst ho
    exact set_same ..
  · exact set_other ps ho _

theorem set_set (ps : Pipelines H) (o : Operation) (p q : Pipeline H) :
    (ps.set o p).set o q = ps.set o q := by
  funext o'
  by_cases ho : o' = o
  · subst ho
    rw [set_same, set_same]
  · rw [set_other _ ho, set_other _ ho, set_other _ ho]

theorem Sound.removal (hs : ps.Sound) (o : Operation) (name : String) :
    Removal ps o name (ps.remove o name) := by
  by_cases h : ∀ s ∈ ps o, s.name = name → s.isBuiltin = true
  · have hnone : (ps o).hasHook name = false := by
      refine List.any_eq_false.mpr fun s hm => ?_
      rw [Pipeline.isHookNamed_eq_false.mpr (h s hm)]
      exact Bool.false_ne_true
    rw [remove, hnone, Pipeline.erase_eq_self h, set_self]
    exact .nothing h
  · push Not at h
    obtain ⟨s, hm, rfl, hhook⟩ := h
    have hhook : s.isBuiltin = false := Bool.eq_false_iff.mpr hhook
    obtain ⟨l, r, hp⟩ := List.append_of_mem hm
    have honce : s.name ∉ Pipeline.names (l ++ r) := by
      intro hn
      obtain ⟨t, ht, htn⟩ := Pipeline.mem_names.mp hn
      exact (hs o).name_ne hp ht htn
    rw [remove, hp, Pipeline.hasHook_split hhook, Pipeline.erase_split hhook honce]
    cases s with
    | builtin o' => cases hhook
    | hook name anchor body => exact .hook hp honce

/-- The operation whose pipeline the call acts on. -/
def Call.operation : Call H → Operation
  | .register o _ _ _ => o
  | .remove o _ => o

/-- What the call answers: how a registration went, or whether there was a hook to remove. -/
def answer (ps : Pipelines H) : Call H → Outcome ⊕ Bool
  | .register o position name body => .inl (ps.register o position name body).1
  | .remove o name => .inr (ps.remove o name).1

theorem call_other (ps : Pipelines H) (h : c.operation ≠ o) : ps.call c o = ps o := by
  rcases call_cases ps c o with hc | ⟨_, _, _, rfl, _⟩ | ⟨_, rfl, _⟩
  · exact hc
  · exact absurd rfl h
  · exact absurd rfl h

/-- A call looks at no other pipeline than that of its operation. -/
theorem call_congr (h : ps c.operation = qs c.operation) :
    ps.call c c.operation = qs.call c c.operation ∧ ps.answer c = qs.answer c := by
  cases c with
  | register o position name body =>
    have h : ps o = qs o := h
    refine ⟨by rw [Call.operation, call_register, call_register, h], congrArg Sum.inl ?_⟩
    rw [Pipelines.register, Pipelines.register, h]
    cases (qs o).register o position name body <;> rfl
  | remove o name =>
    have h : ps o = qs o := h
    refine ⟨?_, ?_⟩
    · simp only [Call.operation, call, remove, set_same, h]
    · simp only [answer, remove, h]

theorem answer_call (ps : Pipelines H) (h : c.operation ≠ d.operation) :
    (ps.call c).answer d = ps.answer d :=
  (call_congr (call_other ps h)).2

theorem call_comm (ps : Pipelines H) (h : c.operation ≠ d.operation) :
    (ps.call c).call d = (ps.call d).call c := by
  funext o
  by_cases hc : c.operation = o
  · subst hc
    rw [call_other _ h.symm]
    exact (call_congr (call_other ps h.symm)).1.symm
  · by_cases hd : d.operation = o
    · subst hd
      rw [call_other _ h]
      exact (call_congr (call_other ps h)).1
    · rw [call_other _ hd, call_other _ hc, call_other _ hc, call_other _ hd]

/-- The pipeline of an operation is what the calls for this operation make of it. -/
theorem calls_own (h : ps o = qs o) (cs : List (Call H)) :
    ps.calls cs o = qs.calls (cs.filter (·.operation = o)) o := by
  induction cs generalizing ps qs with
  | nil => exact h
  | cons c cs ih =>
    rw [calls_cons]
    by_cases hc : c.operation = o
    · subst hc
      rw [List.filter_cons_of_pos (by simp), calls_cons]
      exact ih (call_congr h).1
    · rw [List.filter_cons_of_neg (by simpa using hc)]
      exact ih ((call_other ps hc).trans h)

structure WellFormed (ps : Pipelines H) : Prop where
  builtins : ∀ o, (ps o).filter Step.isBuiltin = [.builtin o]
  builtin_once : ∀ o, (ps.stepNames o).count o.builtinStep = 1
  distinct : ∀ o, (ps.stepNames o).Nodup

theorem filter_isBuiltin_call (ps : Pipelines H) (c : Call H) (o : Operation) :
    (ps.call c o).filter Step.isBuiltin = (ps o).filter Step.isBuiltin := by
  rcases call_cases ps c o with h | ⟨_, _, _, _, _, h⟩ | ⟨name, _, h⟩
  · rw [h]
  · exact Pipeline.filter_isBuiltin_insert h
  · rw [h]
    exact Pipeline.filter_isBuiltin_erase _ _

theorem filter_isBuiltin_calls (ps : Pipelines H) (cs : List (Call H)) (o : Operation) :
    (ps.calls cs o).filter Step.isBuiltin = (ps o).filter Step.isBuiltin := by
  induction cs generalizing ps with
  | nil => rfl
  | cons c cs ih => rw [calls_cons, ih, filter_isBuiltin_call]

theorem wellFormed_calls (cs : List (Call H)) : (initial.calls cs : Pipelines H).WellFormed where
  builtins o := filter_isBuiltin_calls initial cs o
  builtin_once o := by
    have hs := sound_initial.calls cs o
    have hname : o.builtinStep ∈ (initial.calls cs : Pipelines H).stepNames o :=
      Pipeline.mem_names.mpr ⟨_, hs.builtin, rfl⟩
    exact List.count_eq_one_of_mem hs.nodup hname
  distinct o := (sound_initial.calls cs o).nodup

end Pipelines
end DatabaseTracing
