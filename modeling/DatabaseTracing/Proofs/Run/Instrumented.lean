import DatabaseTracing.Proofs.Pipeline.Sides
import DatabaseTracing.Proofs.Pipeline.TracingHooks
import DatabaseTracing.Proofs.Run.Transparency

/-! # Instrumented handles

A handle is instrumented once the tracing plugin has been set up on it without a
failure. Whatever hooks its users register and remove before and after that, each
of its pipelines has one hook of the plugin ahead of the built-in step and one
behind it, and all other hooks are the users' own.
-/
namespace DatabaseTracing
variable {C σ : Type}

namespace Pipelines

/-- A call by which users register code of their own or remove a hook. -/
inductive Call.ByUser : Call (Hook C) → Prop
  | register (o : Operation) (position : Position) (name : String) (code : C) :
      ByUser (.register o position name (.custom code))
  | remove (o : Operation) (name : String) : ByUser (.remove o name)

def Call.SparesTracing (c : Call (Hook C)) : Prop :=
  ∀ stage : Stage, c ≠ .remove stage.operation stage.name

/-- The pipelines of a handle after calls of its users, with one successful setup of the plugin
among them. -/
inductive Instrumented (σ : Type) (opts : Options) : Pipelines (Hook C) → Prop
  | setUp {cs ds : List (Call (Hook C))} {h : Host C σ} (hcs : ∀ c ∈ cs, c.ByUser)
      (hp : h.database.pipelines = initial.calls cs)
      (hok : (h.setUp (Tracing.setup opts)).1 = .ok ())
      (hds : ∀ d ∈ ds, d.ByUser ∧ d.SparesTracing) :
      Instrumented σ opts ((h.setUp (Tracing.setup opts)).2.database.pipelines.calls ds)

/-- A call that users make, or one that comes of setting a plugin up, with whatever options. -/
def Call.Usual (c : Call (Hook C)) : Prop :=
  c.ByUser ∨ ∃ (opts : Options) (stage : Stage), c = Tracing.stageCall opts stage

/-- The pipelines of a handle on which the plugin has been set up without a failure and from which
none of its hooks has been removed since. It may have been set up at other times as well, and its
hooks may have been removed before. -/
inductive Equipped (σ : Type) (opts : Options) : Pipelines (Hook C) → Prop
  | setUp {cs ds : List (Call (Hook C))} {h : Host C σ} (hcs : ∀ c ∈ cs, c.Usual)
      (hp : h.database.pipelines = initial.calls cs)
      (hok : (h.setUp (Tracing.setup opts)).1 = .ok ())
      (hds : ∀ d ∈ ds, d.Usual ∧ d.SparesTracing) :
      Equipped σ opts ((h.setUp (Tracing.setup opts)).2.database.pipelines.calls ds)

theorem Instrumented.equipped {opts : Options} {ps : Pipelines (Hook C)}
    (h : Instrumented σ opts ps) : Equipped σ opts ps := by
  cases h with
  | setUp hcs hp hok hds =>
    exact .setUp (fun c hc => .inl (hcs c hc)) hp hok fun d hd => ⟨.inl (hds d hd).1, (hds d hd).2⟩

/-- A step is there from before, or the call has inserted it. -/
theorem mem_call_cases {H : Type} {ps : Pipelines H} {c : Call H} {o : Operation} {s : Step H}
    (h : s ∈ ps.call c o) : s ∈ ps o ∨ ∃ position name body,
      c = .register o position name body ∧ s = Pipeline.newStep position name body := by
  rcases call_cases ps c o with he | ⟨position, name, body, hc, _, hp⟩ | ⟨name, _, he⟩
  · exact .inl (he ▸ h)
  · obtain ⟨l, r, hl, hr⟩ := Pipeline.insert_eq_some hp
    rw [hr] at h
    rw [hl]
    rcases List.mem_append.mp h with h | h
    · exact .inl (List.mem_append_left _ h)
    · rcases List.mem_cons.mp h with h | h
      · exact .inr ⟨position, name, body, hc, h⟩
      · exact .inl (List.mem_append_right _ h)
  · rw [he] at h
    exact .inl (List.mem_filter.mp h).1

/-- The hooks of the plugin bear the names of its stages. -/
def StagesNamed (ps : Pipelines (Hook C)) : Prop :=
  ∀ o, ∀ s ∈ ps o, s.isTracing = true → ∃ phase, s.name = Stage.name ⟨o, phase⟩

variable {ps : Pipelines (Hook C)}

theorem stagesNamed_initial : StagesNamed (initial : Pipelines (Hook C)) := by
  intro o s hs ht
  obtain rfl := List.mem_singleton.mp hs
  cases ht

theorem StagesNamed.call (h : ps.StagesNamed) {c : Call (Hook C)} (hc : c.Usual) :
    (ps.call c).StagesNamed := by
  intro o s hs ht
  rcases mem_call_cases hs with hs | ⟨position, name, body, rfl, rfl⟩
  · exact h o s hs ht
  · rcases hc with hc | ⟨opts, stage, hc⟩
    · cases hc
      cases position <;> cases ht
    · cases hc
      exact ⟨stage.phase, Pipeline.newStep_name ..⟩

theorem StagesNamed.calls (h : ps.StagesNamed) {cs : List (Call (Hook C))}
    (hcs : ∀ c ∈ cs, c.Usual) : (ps.calls cs).StagesNamed := by
  induction cs generalizing ps with
  | nil => exact h
  | cons c cs ih =>
    obtain ⟨hc, hcs⟩ := List.forall_mem_cons.mp hcs
    exact ih (h.call hc) hcs

end Pipelines

theorem Stage.mem_all (stage : Stage) : stage ∈ Stage.all := by
  obtain ⟨o, phase⟩ := stage
  cases o <;> cases phase <;> decide

def Stage.step (opts : Options) (stage : Stage) : Step (Hook C) :=
  Pipeline.newStep stage.position stage.name (stage.hook opts)

theorem Stage.step_name (opts : Options) (stage : Stage) :
    (stage.step opts : Step (Hook C)).name = stage.name := Pipeline.newStep_name ..

/-- The stage's name is on its side of the built-in step. -/
def Stage.Beside (stage : Stage) (p : Pipeline (Hook C)) : Prop :=
  match stage.phase with
  | .before => p.Ahead stage.name stage.operation.builtinStep
  | .after => p.Ahead stage.operation.builtinStep stage.name

structure Stage.Placed (opts : Options) (stage : Stage) (ps : Pipelines (Hook C)) : Prop where
  mem : stage.step opts ∈ ps stage.operation
  beside : stage.Beside (ps stage.operation)

namespace Tracing
variable {ps : Pipelines (Hook C)} {opts : Options} {stage : Stage}

theorem placed_of_register
    (h : (ps.register stage.operation stage.position stage.name (stage.hook opts)).1 = .ok ()) :
    stage.Placed opts (ps.call (stageCall opts stage)) := by
  obtain ⟨hn, p', hp⟩ := Pipelines.register_eq_ok h
  have hcall : ps.call (stageCall opts stage) stage.operation = p' :=
    Pipelines.call_register_of_insert hn hp
  refine ⟨hcall ▸ Pipeline.newStep_mem_insert hp, ?_⟩
  rw [hcall]
  obtain ⟨o, phase⟩ := stage
  cases phase with
  | before => exact Pipeline.ahead_insert_before hp
  | after => exact Pipeline.ahead_insert_after hp

theorem placed_call (hs : ps.Sound) (h : stage.Placed opts ps) {c : Pipelines.Call (Hook C)}
    (hc : c ≠ .remove stage.operation stage.name) : stage.Placed opts (ps.call c) := by
  have hkept : ¬ c.Removes stage.operation (stage.step opts) := by
    rintro ⟨he, _⟩
    rw [Stage.step_name] at he
    exact hc he
  have hfixed : ¬ c.Removes stage.operation (.builtin stage.operation) := by
    rintro ⟨_, he⟩
    cases he
  refine ⟨Pipelines.mem_call h.mem hkept, ?_⟩
  obtain ⟨o, phase⟩ := stage
  cases phase with
  | before => exact hs.ahead_call h.mem (hs o).builtin h.beside hkept hfixed
  | after => exact hs.ahead_call (hs o).builtin h.mem h.beside hfixed hkept

theorem placed_calls (hs : ps.Sound) (h : stage.Placed opts ps)
    {cs : List (Pipelines.Call (Hook C))}
    (hcs : ∀ c ∈ cs, c ≠ .remove stage.operation stage.name) :
    stage.Placed opts (ps.calls cs) := by
  induction cs generalizing ps with
  | nil => exact h
  | cons c cs ih =>
    obtain ⟨hc, hcs⟩ := List.forall_mem_cons.mp hcs
    exact ih (hs.call c) (placed_call hs h hc) hcs

theorem setUp_registerStages_cons (opts : Options) (s : Stage) (ss : List Stage)
    (failures : Failures) (h : Host C σ) :
    h.setUp (registerStages opts (s :: ss) failures) =
      Host.setUp (registerStages opts ss (failures.add s
          (h.database.pipelines.register s.operation s.position s.name (s.hook opts)).1))
        { h with database := { h.database with
          pipelines := h.database.pipelines.call (stageCall opts s) } } := rfl

/-- The setup succeeds only if each of its registrations does. -/
theorem register_of_setUp_ok {ss : List Stage} {failures : Failures} {h : Host C σ}
    (hok : (h.setUp (registerStages opts ss failures)).1 = .ok ()) : failures.isEmpty = true ∧
      ∀ as s bs, ss = as ++ s :: bs →
        ((h.database.pipelines.calls (as.map (stageCall opts))).register
          s.operation s.position s.name (s.hook opts)).1 = .ok () := by
  induction ss generalizing h failures with
  | nil =>
    refine ⟨?_, by simp⟩
    by_contra hf
    simp [registerStages, Host.setUp, Failures.outcome, hf] at hok
  | cons s ss ih =>
    rw [setUp_registerStages_cons] at hok
    obtain ⟨hempty, hrest⟩ := ih hok
    cases hr : (h.database.pipelines.register s.operation s.position s.name (s.hook opts)).1 with
    | error e =>
      rw [hr] at hempty
      simp [Failures.add, Failures.isEmpty] at hempty
    | ok u =>
      rw [hr] at hempty
      refine ⟨hempty, ?_⟩
      intro as s' bs has
      rcases as with _ | ⟨a, as⟩
      · obtain ⟨rfl, _⟩ := List.cons.inj has
        exact hr
      · obtain ⟨rfl, htail⟩ := List.cons.inj has
        exact hrest as s' bs htail

end Tracing

namespace Pipelines
variable {ps : Pipelines (Hook C)} {opts : Options}

/-- All that has been done to the pipelines is calls of users and of setups. -/
theorem Equipped.eq_calls (h : Equipped σ opts ps) :
    ∃ cs, (∀ c ∈ cs, c.Usual) ∧ ps = initial.calls cs := by
  cases h with
  | @setUp cs ds h hcs hp _ hds =>
    refine ⟨cs ++ Stage.all.map (Tracing.stageCall opts) ++ ds, ?_, ?_⟩
    · intro c hc
      rcases List.mem_append.mp hc with hc | hc
      · rcases List.mem_append.mp hc with hc | hc
        · exact hcs c hc
        · obtain ⟨stage, _, rfl⟩ := List.mem_map.mp hc
          exact .inr ⟨opts, stage, rfl⟩
      · exact (hds c hc).1
    · rw [Tracing.setup, Tracing.registerStages_pipelines, hp, calls_append, calls_append]

theorem Equipped.sound (h : Equipped σ opts ps) : ps.Sound := by
  obtain ⟨cs, _, rfl⟩ := h.eq_calls
  exact sound_initial.calls cs

theorem Equipped.stagesNamed (h : Equipped σ opts ps) : ps.StagesNamed := by
  obtain ⟨cs, hcs, rfl⟩ := h.eq_calls
  exact stagesNamed_initial.calls hcs

theorem Equipped.placed (h : Equipped σ opts ps) (stage : Stage) :
    stage.Placed opts ps := by
  cases h with
  | @setUp cs ds h hcs hp hok hds =>
    obtain ⟨-, hregister⟩ := Tracing.register_of_setUp_ok hok
    obtain ⟨as, bs, hall⟩ := List.append_of_mem stage.mem_all
    have hsound : h.database.pipelines.Sound := hp ▸ sound_initial.calls cs
    have hplaced := Tracing.placed_of_register (hregister as stage bs hall)
    have hkept : ∀ c ∈ bs.map (Tracing.stageCall opts) ++ ds,
        c ≠ .remove stage.operation stage.name := by
      intro c hc
      rcases List.mem_append.mp hc with hc | hc
      · obtain ⟨s, _, rfl⟩ := List.mem_map.mp hc
        exact fun he => by cases he
      · exact (hds c hc).2 stage
    have hrest := Tracing.placed_calls ((hsound.calls _).call _) hplaced hkept
    rw [Tracing.setup, Tracing.registerStages_pipelines, hall, List.map_append, List.map_cons,
      calls_append, calls_cons, ← calls_append]
    exact hrest

end Pipelines

namespace Pipeline
variable {p l r : Pipeline (Hook C)} {o : Operation} {x : Step (Hook C)} {name : String}

/-- A name that comes after that of a step is found behind the step. -/
theorem Sound.mem_behind (hs : p.Sound o) (hp : p = l ++ x :: r) (h : p.Ahead x.name name) :
    name ∈ names r := by
  subst hp
  have hname : name ∈ names l ∨ name = x.name ∨ name ∈ names r := by
    simpa [names] using h.mem.2
  rcases hname with hl | rfl | hr
  · exact absurd (ahead_append hl List.mem_cons_self) (hs.not_ahead h)
  · exact absurd h (hs.not_ahead h)
  · exact hr

theorem Sound.split_behind {y : Step (Hook C)} (hs : p.Sound o) (hy : y ∈ p)
    (hp : p = l ++ x :: r) (h : p.Ahead x.name y.name) : ∃ m r', r = m ++ y :: r' := by
  obtain ⟨m, z, r', hr, hz, -⟩ := exists_split (hs.mem_behind hp h)
  have hmem : z ∈ p := by simp [hp, hr]
  obtain rfl := hs.eq_of_name hmem hy hz
  exact ⟨m, r', hr⟩

end Pipeline

/-- A pipeline with the plugin's hooks around the built-in step, and users' hooks elsewhere. -/
structure Layout (opts : Options) (o : Operation) (p l m r : Pipeline (Hook C)) : Prop where
  steps : p = l ++ Stage.step opts ⟨o, .before⟩ :: (m ++ Stage.step opts ⟨o, .after⟩ :: r)
  builtin : .builtin o ∈ m
  untraced : ∀ s ∈ l ++ m ++ r, s.isTracing = false

theorem Layout.steps_after {opts : Options} {o : Operation} {p l m r : Pipeline (Hook C)}
    (h : Layout opts o p l m r) :
    p = (l ++ Stage.step opts ⟨o, .before⟩ :: m) ++ Stage.step opts ⟨o, .after⟩ :: r := by
  rw [h.steps, List.append_assoc, List.cons_append]

theorem Layout.subset {opts : Options} {o : Operation} {p l m r : Pipeline (Hook C)}
    (h : Layout opts o p l m r) : l ++ m ++ r ⊆ p := by
  intro s hs
  have hparts : s ∈ l ∨ s ∈ m ∨ s ∈ r := by simpa [or_assoc] using hs
  rw [h.steps]
  rcases hparts with hl | hm | hr <;> simp [*]

theorem Pipelines.Equipped.layout {ps : Pipelines (Hook C)} {opts : Options}
    (h : Equipped σ opts ps) (o : Operation) : ∃ l m r, Layout opts o (ps o) l m r := by
  have hs := h.sound o
  have hbefore := h.placed ⟨o, .before⟩
  have hafter := h.placed ⟨o, .after⟩
  -- The pipeline is split at the before hook, then at the built-in step, then at the after hook.
  obtain ⟨l, r₁, h₁⟩ := List.append_of_mem hbefore.mem
  obtain ⟨m, r₂, rfl⟩ := hs.split_behind hs.builtin h₁ hbefore.beside
  have h₂ : ps o = (l ++ Stage.step opts ⟨o, .before⟩ :: m) ++ .builtin o :: r₂ := by
    rw [h₁, List.append_assoc, List.cons_append]
  obtain ⟨n, r, rfl⟩ := hs.split_behind hafter.mem h₂ hafter.beside
  have h₃ : ps o = (l ++ Stage.step opts ⟨o, .before⟩ :: (m ++ .builtin o :: n)) ++
      Stage.step opts ⟨o, .after⟩ :: r := by
    rw [h₁]
    simp only [List.append_assoc, List.cons_append]
  have hsteps : ps o = l ++ Stage.step opts ⟨o, .before⟩ ::
      ((m ++ .builtin o :: n) ++ Stage.step opts ⟨o, .after⟩ :: r) := by
    rw [h₃, List.append_assoc, List.cons_append]
  refine ⟨l, m ++ .builtin o :: n, r, hsteps, by simp, ?_⟩
  intro s hmem
  have hparts : s ∈ l ∨ s ∈ m ++ .builtin o :: n ∨ s ∈ r := by
    simpa only [List.mem_append, or_assoc] using hmem
  have hin : s ∈ ps o := by
    rw [hsteps]
    rcases hparts with hl | hm | hr <;>
      simp only [List.mem_append, List.mem_cons, true_or, or_true, *]
  by_contra htracing
  obtain ⟨phase, hname⟩ := h.stagesNamed o s hin (by simpa using htracing)
  rw [← Stage.step_name (C := C) opts] at hname
  cases phase with
  | before =>
    refine hs.name_ne hsteps ?_ hname
    rcases hparts with hl | hm | hr <;>
      simp only [List.mem_append, List.mem_cons, true_or, or_true, *]
  | after =>
    refine hs.name_ne h₃ ?_ hname
    rcases hparts with hl | hm | hr <;>
      simp only [List.mem_append, List.mem_cons, true_or, or_true, *]

end DatabaseTracing
