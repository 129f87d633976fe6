import DatabaseTracing.Installation
import DatabaseTracing.Proofs.Plugin.Upkeep

/-! # Steps of an installation

Each step brings an installation nearer to its end, and if nothing comes in between the
steps make up one installation. A stage that an installation has tried to register has
its name in its pipeline from then on, whatever others do to the handle meanwhile, so a
handle is traced when the installation is over, whatever has come of it.
-/
namespace DatabaseTracing.Tracing.Installation
variable {C σ : Type} {o : Options} {p : Installation} {h k : Host C σ}
  {ps ps' : Pipelines (Hook C)}

theorem outcome?_eq_some {r : Outcome} : p.outcome? = some r ↔ p = finished r := by
  cases p <;> simp [outcome?]

theorem step_begun (o : Options) (h : Host C σ) : begun.step o h =
    if h.database.hasPlugin pluginName then
      (finished (.error (.pluginRegistered pluginName)), h)
    else (registering Stage.all .empty, h) := rfl

theorem left_step (o : Options) (h : Host C σ) (hp : p.outcome? = none) :
    (p.step o h).1.left < p.left := by
  cases p with
  | begun =>
    rw [step_begun]
    split <;> simp [left]
  | registering rest failures =>
    cases rest with
    | nil => simp [step, left]
    | cons s rest => simp [step, left]
  | entering r => simp [step, left]
  | finished r => cases hp

/-- What comes of the installation if nothing comes in between. -/
def remainder (o : Options) : Installation → Host C σ → Outcome × Host C σ
  | begun, h => h.install (plugin o)
  | registering rest failures, h =>
    let (r, h) := h.setUp (registerStages o rest failures)
    h.enter pluginName r
  | entering r, h => h.enter pluginName r
  | finished r, h => (r, h)

/-- The steps of an installation make up one installation. -/
theorem remainder_step (o : Options) (p : Installation) (h : Host C σ) :
    (p.step o h).1.remainder o (p.step o h).2 = p.remainder o h := by
  cases p with
  | begun =>
    by_cases hp : h.database.hasPlugin pluginName = true
    · rw [remainder, Host.install_eq_of_hasPlugin (p := plugin o) hp, step_begun, if_pos hp]
      rfl
    · rw [remainder, Host.install_eq_of_not_hasPlugin (p := plugin o) hp, step_begun, if_neg hp]
      simp only [remainder, plugin, setup]
  | registering rest failures =>
    cases rest with
    | nil => rfl
    | cons s rest => rfl
  | entering r => rfl
  | finished r => rfl

/-- What a step does to a handle does not depend on what the handle shares with others. -/
theorem step_congr {o' : Options} (ho : o = o') (p : Installation)
    (hdb : h.database = k.database) :
    (p.step o h).1 = (p.step o' k).1 ∧ (p.step o h).2.database = (p.step o' k).2.database := by
  subst ho
  cases p with
  | begun =>
    rw [step_begun, step_begun, hdb]
    split
    · exact ⟨rfl, hdb⟩
    · exact ⟨rfl, hdb⟩
  | registering rest failures =>
    cases rest with
    | nil => exact ⟨rfl, hdb⟩
    | cons s rest => constructor <;> simp only [step, hdb]
  | entering r =>
    rcases r with e | _
    · exact ⟨rfl, hdb⟩
    · simp only [step, Host.enter, hdb]
      split
      · exact ⟨rfl, hdb⟩
      · exact ⟨rfl, rfl⟩
  | finished r => exact ⟨rfl, hdb⟩

/-- What comes of an installation depends on nothing that the handle shares with others. -/
theorem remainder_congr (o : Options) (p : Installation) (hdb : h.database = k.database) :
    (p.remainder o h).1 = (p.remainder o k).1 := by
  induction hn : p.left using Nat.strong_induction_on generalizing p h k with
  | _ n ih =>
    subst hn
    cases hp : p.outcome? with
    | some r =>
      obtain rfl := outcome?_eq_some.mp hp
      rfl
    | none =>
      obtain ⟨hstep, hdb'⟩ := step_congr rfl p hdb
      rw [← remainder_step o p h, ← remainder_step o p k, ← hstep]
      exact ih _ (left_step o h hp) _ hdb' rfl

/-- A step logs nothing, or how many stages have failed. -/
theorem step_log (o : Options) (p : Installation) (h : Host C σ) :
    (p.step o h).2.log = h.log ∨
      ∃ n, (p.step o h).2.log = h.log ++ [registeredEvent h.database.name n] := by
  cases p with
  | begun =>
    refine .inl ?_
    rw [step_begun]
    split <;> rfl
  | registering rest failures =>
    cases rest with
    | nil => exact .inr ⟨failures.size, rfl⟩
    | cons s rest => exact .inl rfl
  | entering r => exact .inl (h.enter_log pluginName r)
  | finished r => exact .inl rfl

/-- The pipelines have the names of the stages that the installation has gone through. -/
def Reached (ps : Pipelines (Hook C)) : Installation → Prop
  | begun => True
  | registering rest _ => ∀ s : Stage, s ∉ rest → s.name ∈ ps.stepNames s.operation
  | entering _ => ps.Traced
  | finished _ => ps.Traced

theorem Reached.mono (hp : p.Reached ps)
    (hps : ∀ s : Stage, s.name ∈ ps.stepNames s.operation → s.name ∈ ps'.stepNames s.operation) :
    p.Reached ps' := by
  cases p with
  | begun => trivial
  | registering rest failures => exact fun s hs => hps s (hp s hs)
  | entering r => exact fun s => hps s (hp s)
  | finished r => exact fun s => hps s (hp s)

/-- A stage's name is there once the stage has been tried. -/
theorem Reached.step (hp : p.Reached h.database.pipelines) (o : Options) (hr : h.database.Ready) :
    (p.step o h).1.Reached (p.step o h).2.database.pipelines := by
  cases p with
  | begun =>
    rw [step_begun]
    split
    · rename_i hplugin
      exact hr.traced hplugin
    · exact fun s hs => absurd s.mem_all hs
  | registering rest failures =>
    cases rest with
    | nil => exact fun s => hp s List.not_mem_nil
    | cons s rest =>
      intro t ht
      by_cases hts : t = s
      · subst hts
        exact hr.sound.name_mem_stageCall o t
      · exact Pipelines.name_mem_call (c := stageCall o s)
          (hp t (List.mem_cons.not.mpr (not_or.mpr ⟨hts, ht⟩))) fun he => by cases he
  | entering r =>
    change (h.enter pluginName r).2.database.pipelines.Traced
    rw [h.enter_pipelines]
    exact hp
  | finished r => exact hp

theorem Reached.keeps (hp : p.Reached h.database.pipelines) (o : Options) :
    h.Keeps (p.step o h).2 := by
  cases p with
  | begun =>
    rw [step_begun]
    split <;> exact .of_eq rfl
  | registering rest failures =>
    cases rest with
    | nil => exact .of_eq rfl
    | cons s rest => exact .register h s.operation s.position s.name (s.hook o)
  | entering r => exact .enter r fun _ => hp
  | finished r => exact .of_eq rfl

end DatabaseTracing.Tracing.Installation
