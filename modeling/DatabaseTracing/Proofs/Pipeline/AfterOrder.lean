import DatabaseTracing.Proofs.Pipeline.History

/-! # The order of hooks behind one anchor

A hook that is registered after a step goes behind the run of hooks that follow
the same step. An earlier hook of that kind is in the run, and so stays ahead of
the new one, exactly if all that stands between the step and the earlier hook
follows the step as well. Hooks that are anchored at a member of the run can break
it, and what comes later then goes ahead of what was there.
-/
namespace DatabaseTracing
variable {H : Type}

namespace Pipeline
variable {p p' : Pipeline H} {o : Operation} {anchor name : String} {body : H}

/-- The steps behind the one of that name. -/
def behind (anchor : String) (p : Pipeline H) : Pipeline H :=
  (p.dropWhile (·.name ≠ anchor)).tail

def between (a b : String) (p : Pipeline H) : Pipeline H := (p.behind a).takeWhile (·.name ≠ b)

theorem behind_append {l r : Pipeline H} {x : Step H} (hl : anchor ∉ names l)
    (hx : x.name = anchor) : behind anchor (l ++ x :: r) = r := by
  have hdrop : ∀ s ∈ l, (decide (s.name ≠ anchor)) = true := by
    intro s hs
    refine decide_eq_true fun hn => hl ?_
    exact mem_names.mpr ⟨s, hs, hn⟩
  rw [behind, List.dropWhile_append_of_pos hdrop, List.dropWhile_cons_of_neg (by simp [hx]),
    List.tail_cons]

/-- Of two names the first of which splits a list, the second is in the rest. -/
theorem mem_of_sublist_append {a b : String} {l r : List String} (hl : a ∉ l)
    (h : [a, b].Sublist (l ++ a :: r)) : b ∈ r := by
  induction l with
  | nil =>
    rw [List.nil_append, List.cons_sublist_cons'] at h
    rcases h with h | ⟨_, h⟩
    · exact h.subset (by simp)
    · exact List.singleton_sublist.mp h
  | cons x l ih =>
    obtain ⟨hx, hl⟩ := not_or.mp (List.mem_cons.not.mp hl)
    rw [List.cons_append, List.cons_sublist_cons'] at h
    rcases h with h | ⟨rfl, _⟩
    · exact ih hl h
    · exact absurd rfl hx

theorem ahead_of_rest {a b : String} {r : Pipeline H} (l : Pipeline H) (x : Step H)
    (h : r.Ahead a b) : Ahead a b (l ++ x :: r) := by
  have hr : r.Sublist (l ++ x :: r) :=
    (List.sublist_cons_self x r).trans (List.sublist_append_right l _)
  exact h.trans (hr.map _)

/-- A follower of the anchor is in the run if nothing ahead of it breaks the run. -/
theorem mem_run_iff {r : Pipeline H} (hn : name ∈ r.names)
    (hf : ∀ s ∈ r, s.name = name → s.follows anchor) :
    name ∈ names (r.takeWhile (Step.follows anchor)) ↔
      ∀ s ∈ r.takeWhile (·.name ≠ name), s.follows anchor := by
  induction r with
  | nil => cases hn
  | cons s r ih =>
    obtain ⟨hs, hf⟩ := List.forall_mem_cons.mp hf
    by_cases hsn : s.name = name
    · rw [List.takeWhile_cons_of_pos (hs hsn), List.takeWhile_cons_of_neg (by simp [hsn])]
      simp [names, hsn]
    · have hn' : name ∈ names r := (List.mem_cons.mp hn).resolve_left (Ne.symm hsn)
      have hkeep : (s :: r).takeWhile (·.name ≠ name) = s :: r.takeWhile (·.name ≠ name) :=
        List.takeWhile_cons_of_pos (decide_eq_true hsn)
      rw [hkeep, List.forall_mem_cons, ← ih hn' hf]
      by_cases hfs : s.follows anchor
      · rw [List.takeWhile_cons_of_pos hfs]
        simp [names, hfs, Ne.symm hsn]
      · rw [List.takeWhile_cons_of_neg hfs]
        simp [names, hfs]

/-- Where a hook comes to stand beside one that was put behind the same anchor before. -/
theorem Sound.insert_after {later : String} {s : Step H} (hs : p.Sound o) (hm : s ∈ p)
    (hf : s.follows anchor) (ha : p.Ahead anchor s.name)
    (h : p.insert (.after anchor) later body = some p') :
    ((∀ t ∈ p.between anchor s.name, t.follows anchor) ∧ p'.Ahead s.name later) ∨
      ((¬ ∀ t ∈ p.between anchor s.name, t.follows anchor) ∧ p'.Ahead later s.name) := by
  obtain ⟨l, x, r, rfl, hx, hl, rfl⟩ := insert_after_eq_some h
  have hr : s.name ∈ names r := by
    refine mem_of_sublist_append hl ?_
    simpa [Ahead, names, hx] using ha
  have hrf : ∀ t ∈ r, t.name = s.name → t.follows anchor := by
    intro t ht hn
    have hts : t = s := hs.eq_of_name (by simp [ht]) hm hn
    rw [hts]
    exact hf
  rw [between, behind_append hl hx, ← mem_run_iff hr hrf]
  by_cases hrun : s.name ∈ names (r.takeWhile (Step.follows anchor))
  · refine .inl ⟨hrun, ahead_of_rest l x ?_⟩
    exact ahead_append hrun List.mem_cons_self
  · refine .inr ⟨hrun, ahead_of_rest l x ?_⟩
    have hsplit : s.name ∈ names (r.takeWhile (Step.follows anchor)) ++
        names (r.dropWhile (Step.follows anchor)) := by
      rwa [names, names, ← List.map_append, List.takeWhile_append_dropWhile]
    have hrest := (List.mem_append.mp hsplit).resolve_left hrun
    exact ahead_append_cons _ (.hook later (some anchor) body) hrest

/-- A new hook stands behind its anchor. -/
theorem ahead_insert_after (h : p.insert (.after anchor) name body = some p') :
    p'.Ahead anchor name := by
  obtain ⟨l, x, r, rfl, rfl, _, rfl⟩ := insert_after_eq_some h
  have hname : name ∈ names (r.takeWhile (Step.follows x.name) ++
      .hook name (some x.name) body :: r.dropWhile (Step.follows x.name)) :=
    mem_names.mpr ⟨_, List.mem_append_right _ List.mem_cons_self, rfl⟩
  exact ahead_append_cons l x hname

end Pipeline

namespace Pipelines

/-- The call that puts a named hook after the anchor. -/
def Call.after (o : Operation) (anchor : String) (hook : String × H) : Call H :=
  .register o (.after anchor) hook.1 hook.2

/-- The hook that comes of it. -/
def afterHook (anchor : String) (hook : String × H) : Step H :=
  .hook hook.1 (some anchor) hook.2

variable {ps : Pipelines H} {o : Operation} {anchor : String} {hook : String × H}

theorem call_after (h : (ps.register o (.after anchor) hook.1 hook.2).1 = .ok ()) :
    (ps o).insert (.after anchor) hook.1 hook.2 = some (ps.call (.after o anchor hook) o) := by
  obtain ⟨hn, p', hp⟩ := register_eq_ok h
  rw [Call.after, call_register_of_insert hn hp, hp]

/-- Where a hook that was put after the anchor comes to stand. -/
theorem anchored_call_after (h : (ps.register o (.after anchor) hook.1 hook.2).1 = .ok ()) :
    afterHook anchor hook ∈ ps.call (.after o anchor hook) o ∧
      (ps.call (.after o anchor hook) o).Ahead anchor hook.1 :=
  ⟨Pipeline.newStep_mem_insert (call_after h), Pipeline.ahead_insert_after (call_after h)⟩

/-- A call takes a hook out only by its name. -/
theorem not_removes {s : Step H} {cs : List (Call H)} (h : .remove o s.name ∉ cs) :
    ∀ c ∈ cs, ¬ c.Removes o s := by
  rintro c hc ⟨rfl, _⟩
  exact h hc

/-- The hook stays behind its anchor while neither is removed. -/
theorem Sound.anchored_calls {cs : List (Call H)} (hs : ps.Sound)
    (hm : afterHook anchor hook ∈ ps o) (ha : (ps o).Ahead anchor hook.1)
    (hk : .remove o hook.1 ∉ cs) (hka : .remove o anchor ∈ cs → anchor = o.builtinStep) :
    afterHook anchor hook ∈ ps.calls cs o ∧ (ps.calls cs o).Ahead anchor hook.1 := by
  exact ⟨mem_calls hm (not_removes hk), hs.ahead_calls_of_names ha hka fun h => absurd h hk⟩

/-- What becomes of two hooks behind one anchor is settled when the later one is registered. -/
theorem Sound.ahead_calls_iff {earlier later : String × H} {cs : List (Call H)} (hs : ps.Sound)
    (hm : afterHook anchor earlier ∈ ps o) (ha : (ps o).Ahead anchor earlier.1)
    (hl : (ps.register o (.after anchor) later.1 later.2).1 = .ok ())
    (hke : .remove o earlier.1 ∉ cs) (hkl : .remove o later.1 ∉ cs) :
    ((ps.call (.after o anchor later)).calls cs o).Ahead earlier.1 later.1 ↔
      ∀ s ∈ (ps o).between anchor earlier.1, s.follows anchor := by
  have hs' : (ps.call (.after o anchor later)).Sound := hs.call _
  have hme := Pipeline.mem_insert hm (call_after hl)
  have hml := (anchored_call_after hl).1
  have hkeep : ∀ c ∈ cs, ¬ c.Removes o (afterHook anchor earlier) ∧
      ¬ c.Removes o (afterHook anchor later) := fun c hc =>
    ⟨not_removes hke c hc, not_removes hkl c hc⟩
  have hf : (afterHook anchor earlier).follows anchor := by simp [afterHook, Step.follows]
  rcases (hs o).insert_after hm hf ha (call_after hl) with ⟨hrun, hel⟩ | ⟨hrun, hle⟩
  · refine iff_of_true ?_ hrun
    exact hs'.ahead_calls hme hml hel hkeep
  · refine iff_of_false ?_ hrun
    have hkeep' : ∀ c ∈ cs, ¬ c.Removes o (afterHook anchor later) ∧
        ¬ c.Removes o (afterHook anchor earlier) := fun c hc => (hkeep c hc).symm
    exact (hs'.calls cs o).not_ahead (hs'.ahead_calls hml hme hle hkeep')

/-- Two hooks registered after one anchor in the course of a history and still there at its end.
The anchor may be removed once both are registered. -/
structure BothAfter (o : Operation) (anchor : String) (earlier later : String × H)
    (cs₁ cs₂ cs₃ : List (Call H)) : Prop where
  earlier_ok : ((initial.calls cs₁).register o (.after anchor) earlier.1 earlier.2).1 = .ok ()
  later_ok : ((initial.calls (cs₁ ++ .after o anchor earlier :: cs₂)).register o (.after anchor)
    later.1 later.2).1 = .ok ()
  earlier_kept : .remove o earlier.1 ∉ cs₂ ++ cs₃
  later_kept : .remove o later.1 ∉ cs₃
  anchor_kept : .remove o anchor ∈ cs₂ → anchor = o.builtinStep

theorem after_hooks_in_order_iff {o : Operation} {anchor : String} {earlier later : String × H}
    {cs₁ cs₂ cs₃ : List (Call H)} (h : BothAfter o anchor earlier later cs₁ cs₂ cs₃) :
    [earlier.1, later.1].Sublist
        ((initial.calls (cs₁ ++ .after o anchor earlier ::
          (cs₂ ++ .after o anchor later :: cs₃))).stepNames o) ↔
      ∀ s ∈ (initial.calls (cs₁ ++ .after o anchor earlier :: cs₂) o).between anchor earlier.1,
        s.follows anchor := by
  obtain ⟨he, hl, hke, hkl, hka⟩ := h
  have hs₁ : (initial.calls cs₁ : Pipelines H).Sound := sound_initial.calls cs₁
  have hs : ((initial.calls cs₁).call (.after o anchor earlier)).Sound := hs₁.call _
  obtain ⟨hmem, hahead⟩ := anchored_call_after he
  have hke₂ : .remove o earlier.1 ∉ cs₂ := fun h => hke (List.mem_append_left _ h)
  have hke₃ : .remove o earlier.1 ∉ cs₃ := fun h => hke (List.mem_append_right _ h)
  obtain ⟨hmem₂, hahead₂⟩ := hs.anchored_calls hmem hahead hke₂ hka
  have hhistory : (initial.calls (cs₁ ++ .after o anchor earlier :: cs₂) : Pipelines H) =
      ((initial.calls cs₁).call (.after o anchor earlier)).calls cs₂ := calls_append ..
  have hwhole : (initial.calls (cs₁ ++ .after o anchor earlier ::
      (cs₂ ++ .after o anchor later :: cs₃)) : Pipelines H) =
      ((((initial.calls cs₁).call (.after o anchor earlier)).calls cs₂).call
        (.after o anchor later)).calls cs₃ := by
    rw [calls_append, calls_cons, calls_append, calls_cons]
  rw [hhistory] at hl ⊢
  rw [hwhole]
  exact (hs.calls cs₂).ahead_calls_iff hmem₂ hahead₂ hl hke₃ hkl

theorem after_hooks_in_order_iff_chained :
    BothAfter .query "db:query" ("a", 0) ("c", 2) [] [.register .query (.after "a") "b" 1] [] ∧
      (["a", "c"].Sublist
          (Pipelines.stepNames (initial.calls [.after .query "db:query" ("a", 0),
            .register .query (.after "a") "b" 1, .after .query "db:query" ("c", 2)]) .query) ↔
        ∀ s ∈ (initial.calls [.after .query "db:query" ("a", 0),
          .register .query (.after "a") "b" 1] .query).between "db:query" "a",
          s.follows "db:query") := by
  have h : BothAfter .query "db:query" ("a", 0) ("c", 2) []
      [.register .query (.after "a") "b" 1] [] := by
    constructor <;> decide
  exact ⟨h, after_hooks_in_order_iff h⟩

/-- A hook put before the earlier one breaks the run, and the later one goes ahead of both. -/
theorem after_hooks_out_of_order :
    ¬ ∀ (o : Operation) (anchor : String) (earlier later : String × Nat)
      (cs₁ cs₂ cs₃ : List (Call Nat)), BothAfter o anchor earlier later cs₁ cs₂ cs₃ →
      [earlier.1, later.1].Sublist
        ((initial.calls (cs₁ ++ .after o anchor earlier ::
          (cs₂ ++ .after o anchor later :: cs₃))).stepNames o) := by
  intro h
  have hb : BothAfter .query "db:query" ("a", 0) ("c", 2) []
      [.register .query (.before "a") "b" 1] [] := by
    constructor <;> decide
  have hnames := h _ _ _ _ _ _ _ hb
  have hactual : Pipelines.stepNames (initial.calls ([] ++ .after .query "db:query" ("a", 0) ::
      ([.register .query (.before "a") "b" 1] ++ .after .query "db:query" ("c", 2) :: []))) .query =
      ["db:query", "c", "b", "a"] := by decide
  rw [hactual] at hnames
  revert hnames
  decide

end Pipelines
end DatabaseTracing
