import DatabaseTracing.Proofs.Plugin.Upkeep

/-! # Free and taken stages

Setting the tracing plugin up goes through the stages in order. A stage whose name is in
use in its own pipeline is taken: it is reported, and its pipeline stays as it is. The
hook of a free stage is added on its side of the built-in step, which is always there.
No stage gets in the way of another, so what is free and what is taken can be told
before the setup.
-/
namespace DatabaseTracing
variable {C σ : Type}

namespace Stage

theorem name_inj {s t : Stage} (ho : s.operation = t.operation) (h : s.name = t.name) : s = t := by
  obtain ⟨o, p⟩ := s
  obtain ⟨o', p'⟩ := t
  obtain rfl : o = o' := ho
  revert h
  cases o <;> cases p <;> cases p' <;> simp [name]

theorem nodup_all : Stage.all.Nodup := by decide

/-- The entry under which a taken stage is reported. -/
def takenEntry (s : Stage) : String :=
  s.name ++ ":" ++ ("callback " ++ s.name ++ " already registered for " ++ s.operation.name)

theorem semicolon_not_mem_takenEntry (s : Stage) : ';' ∉ s.takenEntry.toList := by
  have hname : ';' ∉ s.name.toList := by
    obtain ⟨o, p⟩ := s
    cases o <;> cases p <;> simp [name]
  have hoperation : ';' ∉ s.operation.name.toList := by
    cases s.operation <;> simp [Operation.name]
  simp [takenEntry, hname, hoperation]

end Stage

namespace Pipelines
variable {ps : Pipelines (Hook C)} {opts : Options} {s t : Stage} {o : Operation}

/-- The stages whose names are in use in their own pipelines. -/
def taken (ps : Pipelines (Hook C)) (ss : List Stage) : List Stage :=
  ss.filter fun s => s.name ∈ ps.stepNames s.operation

def free (ps : Pipelines (Hook C)) (ss : List Stage) : List Stage :=
  ss.filter fun s => s.name ∉ ps.stepNames s.operation

/-- A stage is refused for nothing but its name. -/
theorem Sound.register_of_free (hs : ps.Sound) (opts : Options)
    (h : s.name ∉ ps.stepNames s.operation) : ∃ p,
      (ps s.operation).insert s.position s.name (s.hook opts) = some p ∧
        (ps s.operation).register s.operation s.position s.name (s.hook opts) = .ok p := by
  obtain ⟨p, hp⟩ := hs.insert_stage opts s
  refine ⟨p, hp, (if_neg h).trans ?_⟩
  rw [hp]

theorem call_of_taken (opts : Options) (h : s.name ∈ ps.stepNames s.operation) :
    ps.call (Tracing.stageCall opts s) = ps := by
  simp only [Tracing.stageCall, call, register_of_error (Pipeline.register_of_taken h)]

/-- The failure of a stage is that of its name, and a free stage has none. -/
theorem Sound.add_stage (hs : ps.Sound) (opts : Options) (s : Stage) (failures : Failures) :
    failures.add s (ps.register s.operation s.position s.name (s.hook opts)).1 =
      ⟨failures.entries ++ (ps.taken [s]).map Stage.takenEntry⟩ := by
  by_cases h : s.name ∈ ps.stepNames s.operation
  · have htaken : ps.taken [s] = [s] := List.filter_cons_of_pos (by simpa using h)
    rw [register_of_error (Pipeline.register_of_taken h), htaken]
    rfl
  · obtain ⟨p, -, hp⟩ := hs.register_of_free opts h
    have htaken : ps.taken [s] = [] := List.filter_cons_of_neg (by simpa using h)
    rw [Pipelines.register, hp, htaken, List.map_nil, List.append_nil]
    rfl

/-- Another stage's hook does not make the stage taken, as their names differ. -/
theorem taken_stageCall (opts : Options) (hst : s ≠ t) :
    t.name ∈ (ps.call (Tracing.stageCall opts s)).stepNames t.operation ↔
      t.name ∈ ps.stepNames t.operation := by
  refine ⟨fun h => ?_, fun h => name_mem_call h fun he => by cases he⟩
  obtain ⟨x, hx, hn⟩ := Pipeline.mem_names.mp h
  rcases mem_call_cases hx with hx | ⟨position, name, body, hc, rfl⟩
  · exact Pipeline.mem_names.mpr ⟨x, hx, hn⟩
  · obtain ⟨ho, -, rfl, -⟩ := Call.register.inj hc
    rw [Pipeline.newStep_name] at hn
    exact absurd (Stage.name_inj ho hn) hst

theorem filter_stageCall (opts : Options) {ss : List Stage} (hs : s ∉ ss) :
    (ps.call (Tracing.stageCall opts s)).taken ss = ps.taken ss ∧
      (ps.call (Tracing.stageCall opts s)).free ss = ps.free ss := by
  have hsame : ∀ t ∈ ss, (t.name ∈ (ps.call (Tracing.stageCall opts s)).stepNames t.operation ↔
      t.name ∈ ps.stepNames t.operation) :=
    fun t ht => taken_stageCall opts fun he => hs (he ▸ ht)
  exact ⟨List.filter_congr fun t ht => decide_eq_decide.mpr (hsame t ht),
    List.filter_congr fun t ht => decide_eq_decide.mpr (not_congr (hsame t ht))⟩

theorem taken_cons (ps : Pipelines (Hook C)) (s : Stage) (ss : List Stage) :
    ps.taken (s :: ss) = ps.taken [s] ++ ps.taken ss := List.filter_append [s] ss

theorem free_cons (ps : Pipelines (Hook C)) (s : Stage) (ss : List Stage) :
    ps.free (s :: ss) = ps.free [s] ++ ps.free ss := List.filter_append [s] ss

/-- The hooks of free stages for the operation. -/
def hooksFor (opts : Options) (o : Operation) (ss : List Stage) : Pipeline (Hook C) :=
  (ss.filter (·.operation = o)).map (Stage.step opts)

theorem Sound.stageCall_perm (hs : ps.Sound) (opts : Options) (s : Stage) (o : Operation) :
    (ps.call (Tracing.stageCall opts s) o).Perm (ps o ++ hooksFor opts o (ps.free [s])) := by
  by_cases h : s.name ∈ ps.stepNames s.operation
  · have hfree : ps.free [s] = [] := List.filter_cons_of_neg (by simpa using h)
    rw [call_of_taken opts h, hfree]
    simp [hooksFor]
  · obtain ⟨p, hp, -⟩ := hs.register_of_free opts h
    have hfree : ps.free [s] = [s] := List.filter_cons_of_pos (by simpa using h)
    by_cases ho : s.operation = o
    · subst ho
      obtain ⟨l, r, hl, rfl⟩ := Pipeline.insert_eq_some hp
      have hone : hooksFor opts s.operation [s] = [(s.step opts : Step (Hook C))] := by
        simp [hooksFor]
      rw [Tracing.stageCall, call_register_of_insert h hp, hl, hfree, hone]
      exact List.perm_middle.trans (List.perm_append_singleton _ _).symm
    · rw [Tracing.stageCall, call_register_other ps (Ne.symm ho), hfree]
      simp [hooksFor, ho]

/-- What is added is the hooks of the free stages, each in its own pipeline. -/
theorem Sound.stageCalls_perm (hs : ps.Sound) (opts : Options) {ss : List Stage} (hss : ss.Nodup)
    (o : Operation) : (ps.calls (ss.map (Tracing.stageCall opts)) o).Perm
      (ps o ++ hooksFor opts o (ps.free ss)) := by
  induction ss generalizing ps with
  | nil => exact .of_eq (List.append_nil _).symm
  | cons s ss ih =>
    obtain ⟨hnot, hss⟩ := List.nodup_cons.mp hss
    have hrest := ih (hs.call (Tracing.stageCall opts s)) hss
    rw [(filter_stageCall opts hnot).2] at hrest
    refine hrest.trans (((hs.stageCall_perm opts s o).append_right _).trans (.of_eq ?_))
    rw [free_cons ps s ss, List.append_assoc]
    simp only [hooksFor, List.filter_append, List.map_append]

theorem taken_stageCalls (opts : Options) {ss : List Stage} (ht : t ∉ ss) :
    t.name ∈ (ps.calls (ss.map (Tracing.stageCall opts))).stepNames t.operation ↔
      t.name ∈ ps.stepNames t.operation := by
  induction ss generalizing ps with
  | nil => exact .rfl
  | cons s ss ih =>
    obtain ⟨hne, ht⟩ := not_or.mp (List.mem_cons.not.mp ht)
    exact (ih ht).trans (taken_stageCall opts (Ne.symm hne))

theorem stageCalls_sublist (ps : Pipelines (Hook C)) (opts : Options) (ss : List Stage)
    (o : Operation) : (ps o).Sublist (ps.calls (ss.map (Tracing.stageCall opts)) o) := by
  induction ss generalizing ps with
  | nil => exact .refl _
  | cons s ss ih => exact (sublist_call_register ps _ _ _ _ o).trans (ih _)

theorem Sound.placed_stageCalls (hs : ps.Sound) (opts : Options) {ss : List Stage} (hss : ss.Nodup)
    (hmem : s ∈ ps.free ss) : s.Placed opts (ps.calls (ss.map (Tracing.stageCall opts))) := by
  obtain ⟨hin, hfree⟩ := List.mem_filter.mp hmem
  obtain ⟨as, bs, rfl⟩ := List.append_of_mem hin
  have hnot : s ∉ as := fun h => (List.nodup_append.mp hss).2.2 s h s List.mem_cons_self rfl
  -- The stages ahead of it have left it free.
  obtain ⟨p, -, hp⟩ := (hs.calls (as.map (Tracing.stageCall opts))).register_of_free opts
    (mt (taken_stageCalls opts hnot).mp (of_decide_eq_true hfree))
  have hok := congrArg Prod.fst (Pipelines.register_of_ok hp)
  rw [List.map_append, List.map_cons, calls_append, calls_cons]
  refine Tracing.placed_calls ((hs.calls _).call _) (Tracing.placed_of_register hok) fun c hc => ?_
  obtain ⟨t, -, rfl⟩ := List.mem_map.mp hc
  exact fun he => by cases he

end Pipelines

namespace Tracing
variable {opts : Options} {h : Host C σ}

/-- The failures of a setup are those of the taken stages, and it logs their number. -/
theorem setUp_registerStages (opts : Options) {ss : List Stage} (hss : ss.Nodup)
    (failures : Failures) (hs : h.database.pipelines.Sound) :
    let failed : Failures :=
      ⟨failures.entries ++ (h.database.pipelines.taken ss).map Stage.takenEntry⟩
    h.setUp (registerStages opts ss failures) = (failed.outcome,
      { h with
        database := { h.database with
          pipelines := h.database.pipelines.calls (ss.map (stageCall opts)) }
        log := h.log ++ [registeredEvent h.database.name failed.size] }) := by
  induction ss generalizing h failures with
  | nil =>
    dsimp only
    rw [Pipelines.taken, List.filter_nil, List.map_nil, List.append_nil]
    rfl
  | cons s ss ih =>
    obtain ⟨hnot, hss⟩ := List.nodup_cons.mp hss
    let k : Host C σ := { h with database := { h.database with
      pipelines := h.database.pipelines.call (stageCall opts s) } }
    have hk : k.database.pipelines.Sound := hs.call (stageCall opts s)
    have htaken : k.database.pipelines.taken ss = h.database.pipelines.taken ss :=
      (Pipelines.filter_stageCall opts hnot).1
    dsimp only
    rw [setUp_registerStages_cons, ih hss _ hk, hs.add_stage, htaken, Pipelines.taken_cons _ s ss,
      List.map_append, List.append_assoc]
    rfl

/-- The entries of a message that reports failures. -/
def reported (message : String) : List String := (message.split ';').toList.map (·.copy)

theorem reported_takenEntries {ss : List Stage} (hne : ss ≠ []) :
    reported (";".intercalate (ss.map Stage.takenEntry)) = ss.map Stage.takenEntry := by
  have hnone : ∀ e ∈ ss.map Stage.takenEntry, ';' ∉ e.toList :=
    List.forall_mem_map.mpr fun s _ => s.semicolon_not_mem_takenEntry
  have hsplit := String.toList_split_intercalate hnone
  rwa [if_neg (mt List.map_eq_nil_iff.mp hne)] at hsplit

/-- What setting the plugin up comes to: its outcome, and what it makes of the handle. -/
structure Filled (opts : Options) (h : Host C σ) (r : Outcome) (k : Host C σ) : Prop where
  /-- The steps that were there stand in the order in which they stood. -/
  kept : ∀ o, (h.database.pipelines o).Sublist (k.database.pipelines o)
  /-- There is nothing new but the hooks of the free stages. -/
  added : ∀ o, (k.database.pipelines o).Perm
    (h.database.pipelines o ++ Pipelines.hooksFor opts o (h.database.pipelines.free Stage.all))
  placed : ∀ s ∈ h.database.pipelines.free Stage.all, s.Placed opts k.database.pipelines
  once : ∀ s : Stage, (k.database.pipelines.stepNames s.operation).count s.name = 1
  ok_iff : r = .ok () ↔ h.database.pipelines.taken Stage.all = []
  /-- Otherwise the message has one entry for each taken stage, in order. -/
  failed : h.database.pipelines.taken Stage.all ≠ [] → ∃ message,
    r = .error (.registration message) ∧
      reported message = (h.database.pipelines.taken Stage.all).map Stage.takenEntry
  /-- At its turn a stage is refused for its name alone, never for its anchor. -/
  refused : ∀ as s bs, Stage.all = as ++ s :: bs → ∀ e,
    (h.database.pipelines.calls (as.map (stageCall opts)) s.operation).register s.operation
      s.position s.name (s.hook opts) = .error e → e = .taken s.name s.operation
  /-- Nothing else changes, but the number of failures is logged. -/
  rest : k = { h with
    database := { h.database with pipelines := k.database.pipelines }
    log := h.log ++
      [registeredEvent h.database.name (h.database.pipelines.taken Stage.all).length] }

/-- What the setup answers and what it leaves. -/
theorem setUp_setup (opts : Options) (hs : h.database.pipelines.Sound) :
    h.setUp (setup opts) =
      ((⟨(h.database.pipelines.taken Stage.all).map Stage.takenEntry⟩ : Failures).outcome,
        { h with
          database := { h.database with
            pipelines := h.database.pipelines.calls (Stage.all.map (stageCall opts)) }
          log := h.log ++
            [registeredEvent h.database.name (h.database.pipelines.taken Stage.all).length] }) := by
  rw [setup, setUp_registerStages opts Stage.nodup_all .empty hs]
  simp only [Failures.empty, List.nil_append, Failures.size, List.length_map]

theorem setUp_filled (opts : Options) (hs : h.database.pipelines.Sound) :
    Filled opts h (h.setUp (setup opts)).1 (h.setUp (setup opts)).2 := by
  have htraced := Host.traced_setUp opts hs
  have hpipelines := registerStages_pipelines opts Stage.all .empty h
  rw [← setup] at hpipelines
  have hsetUp := setUp_setup opts hs
  generalize h.setUp (setup opts) = x at htraced hpipelines hsetUp ⊢
  refine ⟨fun o => ?_, fun o => ?_, fun s hfree => ?_, fun s => ?_, ?_, fun hne => ?_,
    fun as s bs _ e he => ?_, ?_⟩
  · rw [hpipelines]
    exact Pipelines.stageCalls_sublist _ opts _ o
  · rw [hpipelines]
    exact hs.stageCalls_perm opts Stage.nodup_all o
  · rw [hpipelines]
    exact hs.placed_stageCalls opts Stage.nodup_all hfree
  · exact htraced.count_eq_one (hpipelines ▸ hs.calls _) s
  · rw [hsetUp]
    simp [Failures.outcome, Failures.isEmpty]
  · refine ⟨_, ?_, reported_takenEntries hne⟩
    rw [hsetUp]
    simp [Failures.outcome, Failures.isEmpty, hne]
  · by_cases hname : s.name ∈
        (h.database.pipelines.calls (as.map (stageCall opts))).stepNames s.operation
    · rw [Pipeline.register_of_taken hname] at he
      exact (Except.error.inj he).symm
    · obtain ⟨p, -, hp⟩ := (hs.calls _).register_of_free opts hname
      rw [hp] at he
      cases he
  · rw [hpipelines, hsetUp]

/-- When every stage is taken, a setup fails and leaves nothing but its event in the log. -/
theorem setUp_of_traced (opts : Options) (hs : h.database.pipelines.Sound)
    (ht : h.database.pipelines.Traced) : ∃ message,
      h.setUp (setup opts) =
          (.error (.registration message), h.logged (registeredEvent h.database.name 12)) ∧
        reported message = Stage.all.map Stage.takenEntry := by
  have htaken : h.database.pipelines.taken Stage.all = Stage.all :=
    List.filter_eq_self.mpr fun s _ => decide_eq_true (ht s)
  have hcalls : ∀ ss : List Stage,
      h.database.pipelines.calls (ss.map (stageCall opts)) = h.database.pipelines := by
    intro ss
    induction ss with
    | nil => rfl
    | cons s ss ih => rw [List.map_cons, Pipelines.calls_cons, Pipelines.call_of_taken opts (ht s), ih]
  refine ⟨_, ?_, reported_takenEntries (by decide : Stage.all ≠ [])⟩
  rw [setUp_setup opts hs, hcalls, htaken]
  rfl

/-- On every handle that calls lead to. A second setup, with whatever options, finds all stages
taken. -/
theorem setup_fills_stages (opts : Options) {cs : List (Pipelines.Call (Hook C))} {h : Host C σ}
    (hp : h.database.pipelines = Pipelines.initial.calls cs) :
    Filled opts h (h.setUp (setup opts)).1 (h.setUp (setup opts)).2 ∧
      ∀ opts', ∃ message, (h.setUp (setup opts)).2.setUp (setup opts') =
          (.error (.registration message),
            (h.setUp (setup opts)).2.logged (registeredEvent h.database.name 12)) ∧
        reported message = Stage.all.map Stage.takenEntry := by
  have hs : h.database.pipelines.Sound := hp ▸ Pipelines.sound_initial.calls cs
  have hfilled := setUp_filled opts hs
  refine ⟨hfilled, fun opts' => ?_⟩
  have hagain := setUp_of_traced opts' (h := (h.setUp (setup opts)).2) ?_ (Host.traced_setUp opts hs)
  · have hname : (h.setUp (setup opts)).2.database.name = h.database.name := by rw [hfilled.rest]
    rwa [hname] at hagain
  · rw [setup, registerStages_pipelines]
    exact hs.calls _

/-- Two stages are taken in their own pipelines, another one's name is in use elsewhere only, and a
fourth has been removed. -/
theorem setup_fills_stages_taken :
    let cs : List (Pipelines.Call (Hook Nat)) :=
      [.register .create (.before "db:create") "otel:before_create" (.custom 0),
        .register .query (.before "db:query") "otel:after_query" (.custom 1),
        .register .row (.after "db:row") "otel:after_raw" (.custom 2),
        .register .delete (.after "db:delete") "otel:after_delete" (.custom 3),
        .remove .delete "otel:after_delete"]
    let h : Host Nat Unit := ⟨⟨"db", .mysql, Pipelines.initial.calls cs, []⟩, .initial, [], ()⟩
    h.database.pipelines.taken Stage.all = [⟨.create, .before⟩, ⟨.query, .after⟩] ∧
      Filled .default h (h.setUp (setup .default)).1 (h.setUp (setup .default)).2 := by
  intro cs h
  have hcalls : h.database.pipelines = Pipelines.initial.calls cs := rfl
  exact ⟨by decide, (setup_fills_stages .default hcalls).1⟩

end Tracing
end DatabaseTracing
