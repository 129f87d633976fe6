import DatabaseTracing.Proofs.Plugin.Nesting
import DatabaseTracing.Proofs.Run.HookCalls
import DatabaseTracing.Proofs.Run.Instrumented

/-! # Handles that stay traced

A handle is traced when the name of every stage is in its pipeline. One attempt to
register each stage brings that about, whatever becomes of the attempt and whatever
is called in between, and it lasts as long as none of those hooks is removed. Where
the plugin's name is the tracing plugin's own, a handle that has it is traced.
-/
namespace DatabaseTracing
variable {C σ : Type}

namespace Pipelines
variable {ps : Pipelines (Hook C)} {o : Operation} {name : String} {stage : Stage}

/-- The name of every stage is in its pipeline. -/
def Traced (ps : Pipelines (Hook C)) : Prop :=
  ∀ stage : Stage, stage.name ∈ ps.stepNames stage.operation

theorem name_mem_call {c : Call (Hook C)} (hm : name ∈ ps.stepNames o) (hc : c ≠ .remove o name) :
    name ∈ (ps.call c).stepNames o := by
  obtain ⟨s, hs, rfl⟩ := Pipeline.mem_names.mp hm
  exact Pipeline.mem_names.mpr ⟨s, mem_call hs fun hr => hc hr.1, rfl⟩

theorem name_mem_calls {cs : List (Call (Hook C))} (hm : name ∈ ps.stepNames o)
    (hcs : ∀ c ∈ cs, c ≠ .remove o name) : name ∈ (ps.calls cs).stepNames o := by
  induction cs generalizing ps with
  | nil => exact hm
  | cons c cs ih =>
    obtain ⟨hc, hcs⟩ := List.forall_mem_cons.mp hcs
    exact ih (name_mem_call hm hc) hcs

/-- The anchor of a stage is a built-in step, which is always there. -/
theorem Sound.insert_stage (hs : ps.Sound) (opts : Options) (stage : Stage) :
    ∃ p, (ps stage.operation).insert stage.position stage.name (stage.hook opts) = some p := by
  have hanchor : stage.position.anchor ∈ (ps stage.operation).names := by
    refine Pipeline.mem_names.mpr ⟨_, (hs stage.operation).builtin, ?_⟩
    rcases stage with ⟨o, _ | _⟩ <;> rfl
  exact Option.ne_none_iff_exists'.mp fun h => Pipeline.insert_eq_none_iff.mp h hanchor

/-- A stage's name is there once it has been tried to register its hook: the registration fails only
on a name that is taken. -/
theorem Sound.name_mem_stageCall (hs : ps.Sound) (opts : Options) (stage : Stage) :
    stage.name ∈ (ps.call (Tracing.stageCall opts stage)).stepNames stage.operation := by
  rw [stepNames, Tracing.stageCall, call_register]
  by_cases hn : stage.name ∈ (ps stage.operation).names
  · rwa [if_pos hn]
  · obtain ⟨p, hp⟩ := hs.insert_stage opts stage
    rw [if_neg hn, hp, Option.getD_some]
    exact Pipeline.mem_names.mpr
      ⟨_, Pipeline.newStep_mem_insert hp, Pipeline.newStep_name ..⟩

/-- The order of the attempts and what else is called do not matter. -/
theorem Sound.traced_calls (hs : ps.Sound) {cs : List (Call (Hook C))}
    (hall : ∀ stage, ∃ opts, Tracing.stageCall opts stage ∈ cs) (hcs : ∀ c ∈ cs, c.SparesTracing) :
    (ps.calls cs).Traced := by
  intro stage
  obtain ⟨opts, hstage⟩ := hall stage
  obtain ⟨as, bs, rfl⟩ := List.append_of_mem hstage
  rw [calls_append, calls_cons]
  exact name_mem_calls ((hs.calls as).name_mem_stageCall opts stage) fun c hc =>
    hcs c (List.mem_append_right _ (List.mem_cons_of_mem _ hc)) stage

theorem Traced.call (h : ps.Traced) {c : Call (Hook C)} (hc : c.SparesTracing) :
    (ps.call c).Traced := fun stage => name_mem_call (h stage) (hc stage)

theorem Traced.count_eq_one (h : ps.Traced) (hs : ps.Sound) (stage : Stage) :
    (ps.stepNames stage.operation).count stage.name = 1 :=
  List.count_eq_one_of_mem (hs stage.operation).nodup (h stage)

end Pipelines

/-- The pipelines are in order, and the plugin is not there without its hooks. -/
structure Database.Ready (db : Database C) : Prop where
  sound : db.pipelines.Sound
  traced : db.hasPlugin Tracing.pluginName = true → db.pipelines.Traced

theorem Database.ready_create (name : String) (dialect : Dialect) :
    (create name dialect : Database C).Ready :=
  ⟨Pipelines.sound_initial, by simp [create, hasPlugin]⟩

/-- All plugins that the setup installs under the tracing plugin's name are tracing plugins. -/
def Setup.Genuine : Setup C σ → Prop
  | .done _ => True
  | .register _ _ _ _ next => ∀ r, (next r).Genuine
  | .install name setup next =>
    (name = Tracing.pluginName → ∃ opts, setup = Tracing.setup opts) ∧ setup.Genuine ∧
      ∀ r, (next r).Genuine
  | .consult next => ∀ db, (next db).Genuine
  | .log _ next => next.Genuine
  | .note _ next => next.Genuine

namespace Host

/-- What the handle is ready for it stays ready for, and the stages whose names are there stay. -/
structure Keeps (h k : Host C σ) : Prop where
  ready : h.database.Ready → k.database.Ready
  stages : ∀ s : Stage, s.name ∈ h.database.pipelines.stepNames s.operation →
    s.name ∈ k.database.pipelines.stepNames s.operation

theorem Keeps.of_eq {h k : Host C σ} (hd : k.database = h.database) : h.Keeps k :=
  ⟨fun hr => hd ▸ hr, fun _ hs => hd ▸ hs⟩

theorem Keeps.trans {h k l : Host C σ} (hk : h.Keeps k) (kl : k.Keeps l) : h.Keeps l :=
  ⟨kl.ready ∘ hk.ready, fun s => kl.stages s ∘ hk.stages s⟩

theorem Keeps.call {h k : Host C σ} {c : Pipelines.Call (Hook C)} (hc : c.SparesTracing)
    (hp : k.database.pipelines = h.database.pipelines.call c)
    (hn : k.database.plugins = h.database.plugins) : h.Keeps k where
  ready hr := by
    refine ⟨hp ▸ hr.sound.call c, fun hplugin => hp ▸ (hr.traced ?_).call hc⟩
    rwa [Database.hasPlugin, hn] at hplugin
  stages s hs := hp ▸ Pipelines.name_mem_call hs (hc s)

theorem Keeps.register (h : Host C σ) (o : Operation) (position : Position) (name : String)
    (hook : Hook C) :
    h.Keeps { h with database := (h.database.register o position name hook).2 } :=
  .call (c := .register o position name hook) (fun _ he => by cases he) rfl rfl

theorem enter_pipelines (h : Host C σ) (name : String) (r : Outcome) :
    (h.enter name r).2.database.pipelines = h.database.pipelines := by
  unfold enter
  split
  · rfl
  · split <;> rfl

theorem enter_log (h : Host C σ) (name : String) (r : Outcome) :
    (h.enter name r).2.log = h.log := by
  unfold enter
  split
  · rfl
  · split <;> rfl

theorem enter_plugins (h : Host C σ) (name : String) (r : Outcome) :
    (h.enter name r).2.database.plugins = h.database.plugins ∨
      (h.enter name r).2.database.plugins = h.database.plugins ++ [name] := by
  unfold enter
  split
  · exact .inl rfl
  · split
    · exact .inl rfl
    · exact .inr rfl

/-- A name is entered that is another plugin's, or on a handle that is traced. -/
theorem Keeps.enter {h : Host C σ} {name : String} (r : Outcome)
    (hn : name = Tracing.pluginName → h.database.pipelines.Traced) :
    h.Keeps (h.enter name r).2 := by
  have hp := h.enter_pipelines name r
  refine ⟨fun hr => ⟨hp ▸ hr.sound, fun hplugin => ?_⟩, fun _ hs => hp ▸ hs⟩
  rw [hp]
  by_cases hname : name = Tracing.pluginName
  · exact hn hname
  · obtain hplugins | hplugins := h.enter_plugins name r
    · rw [Database.hasPlugin, hplugins] at hplugin
      exact hr.traced hplugin
    · refine hr.traced ?_
      rw [Database.hasPlugin, hplugins] at hplugin
      simpa [Database.hasPlugin, Ne.symm hname] using hplugin

theorem traced_setUp (opts : Options) {h : Host C σ} (hs : h.database.pipelines.Sound) :
    (h.setUp (Tracing.setup opts)).2.database.pipelines.Traced := by
  rw [Tracing.setup, Tracing.registerStages_pipelines]
  refine hs.traced_calls (fun stage => ⟨opts, List.mem_map_of_mem stage.mem_all⟩) ?_
  intro c hc stage
  obtain ⟨s, -, rfl⟩ := List.mem_map.mp hc
  exact fun he => by cases he

/-- A setup in which the tracing plugin's name is that plugin's own. -/
theorem Keeps.setUp {setup : Setup C σ} (hg : setup.Genuine) {h : Host C σ}
    (hr : h.database.Ready) : h.Keeps (h.setUp setup).2 := by
  induction setup generalizing h with
  | done r => exact .of_eq rfl
  | register o position name hook next ih =>
    have hk := Keeps.register h o position name hook
    exact hk.trans (ih _ (hg _) (hk.ready hr))
  | install name setup next ihSetup ihNext =>
    obtain ⟨hname, hsetup, hnext⟩ := hg
    have hk : h.Keeps (h.install ⟨name, setup⟩).2 := by
      by_cases hp : h.database.hasPlugin name = true
      · rw [install_eq_of_hasPlugin hp]
        exact .of_eq rfl
      · rw [install_eq_of_not_hasPlugin hp]
        refine (ihSetup hsetup hr).trans (.enter _ fun he => ?_)
        obtain ⟨opts, rfl⟩ := hname he
        exact traced_setUp opts hr.sound
    rw [setUp_install]
    exact hk.trans (ihNext _ (hnext _) (hk.ready hr))
  | consult next ih => exact ih h.database (hg _) hr
  | log e next ih =>
    have hk : h.Keeps (h.logged e) := .of_eq rfl
    exact hk.trans (ih hg hr)
  | note f next ih =>
    have hk : h.Keeps { h with user := f h.user } := .of_eq rfl
    exact hk.trans (ih hg hr)

/-- What users do with a handle: they register hooks and install plugins, none but tracing plugins
under that plugin's name; they remove hooks, but none of a stage's name; all else that is reached
through the handle they may change as they like. -/
inductive Tended : Host C σ → Host C σ → Prop
  | aside {h k : Host C σ} (hd : k.database = h.database) : Tended h k
  | setUp (h : Host C σ) {setup : Setup C σ} (hg : setup.Genuine) : Tended h (h.setUp setup).2
  | remove (h : Host C σ) (o : Operation) (name : String)
      (hc : Pipelines.Call.SparesTracing (.remove o name : Pipelines.Call (Hook C))) :
      Tended h { h with database := (h.database.remove o name).2 }
  | trans {h k l : Host C σ} (hk : Tended h k) (kl : Tended k l) : Tended h l

theorem Tended.keeps {h k : Host C σ} (hk : h.Tended k) (hr : h.database.Ready) : h.Keeps k := by
  induction hk with
  | aside hd => exact .of_eq hd
  | setUp h hg => exact .setUp hg hr
  | remove h o name hc => exact .call hc rfl rfl
  | trans hk kl ihk ihl => exact (ihk hr).trans (ihl ((ihk hr).ready hr))

end Host

namespace UserCode
variable {u : UserCode C σ}

/-- The users' hooks do no more with a handle than tend it. -/
def Tends (u : UserCode C σ) : Prop :=
  ∀ (code : C) (h : Host C σ) (s : Statement), h.Tended (u.hook code h s).1

theorem Tends.runStep (hu : u.Tends) (o : Operation) (x : Host C σ × Statement)
    (step : Step (Hook C)) : x.1.Tended (u.runStep o x step).1 := by
  cases step with
  | builtin o' => exact .aside (runBuiltin_database u o x.1 x.2)
  | hook name anchor hook =>
    cases hook with
    | spanBefore opts spanName => exact .aside (runHook_spanBefore_database u opts spanName x.1 x.2)
    | spanAfter opts => exact .aside (runHook_spanAfter_database u opts x.1 x.2)
    | custom code => exact hu code x.1 x.2

theorem Tends.runSteps (hu : u.Tends) (o : Operation) (p : Pipeline (Hook C))
    (x : Host C σ × Statement) : x.1.Tended (p.foldl (u.runStep o) x).1 := by
  induction p generalizing x with
  | nil => exact .aside rfl
  | cons step p ih => exact (hu.runStep o x step).trans (ih _)

/-- A handle is tended by running statements on it. -/
theorem Tends.run (hu : u.Tends) (o : Operation) (h : Host C σ) (s : Statement) :
    h.Tended (u.run o h s).2.1 := hu.runSteps o (h.database.pipelines o) (h, s)

end UserCode
end DatabaseTracing
