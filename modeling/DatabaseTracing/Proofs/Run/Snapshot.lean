import DatabaseTracing.Proofs.Run.HookCalls

/-! # A run goes through the pipeline as it stood at its start

Hooks may register and remove hooks while a statement runs. To see which steps come to
their turn, every hook is put into users' code that notes the name of its step and the
calls it makes, and goes on as the hook does. A run over such hooks is the run over the
plain ones. Its notes name the steps that the pipeline had at the start, in order and
each once, whatever becomes of the pipelines meanwhile; and the pipelines at its end
come of the noted calls.
-/
namespace DatabaseTracing
variable {C σ H K : Type}

/-- The step with the body of its hook replaced. -/
def Step.mapBody (f : String → H → K) : Step H → Step K
  | .builtin o => .builtin o
  | .hook name anchor body => .hook name anchor (f name body)

/-- What is noted of a turn: whose it was, and the calls that were made in it. -/
structure Turn (C : Type) where
  step : String
  calls : List (Pipelines.Call (Hook C))

/-- A hook as code that knows the name of its step. -/
abbrev NotedHook (C : Type) := String × Hook C

namespace Hook

def noted (name : String) (hook : Hook C) : Hook (NotedHook C) := .custom (name, hook)

def plain : Hook (NotedHook C) → Hook C
  | .spanBefore o spanName => .spanBefore o spanName
  | .spanAfter o => .spanAfter o
  | .custom code => code.2

end Hook

namespace Host

/-- The host with hooks that are noted, and the notes so far. -/
def noted (h : Host C σ) (turns : List (Turn C)) : Host (NotedHook C) (σ × List (Turn C)) :=
  ⟨⟨h.database.name, h.database.dialect,
      fun o => (h.database.pipelines o).map (Step.mapBody Hook.noted), h.database.plugins⟩,
    h.telemetry, h.log, (h.user, turns)⟩

def plain (h : Host (NotedHook C) (σ × List (Turn C))) : Host C σ :=
  ⟨⟨h.database.name, h.database.dialect,
      fun o => (h.database.pipelines o).map (Step.mapBody fun _ => Hook.plain), h.database.plugins⟩,
    h.telemetry, h.log, h.user.1⟩

theorem plain_noted (h : Host C σ) (turns : List (Turn C)) : (h.noted turns).plain = h := by
  have hstep : ∀ s : Step (Hook C), (s.mapBody Hook.noted).mapBody (fun _ => Hook.plain) = s := by
    rintro (_ | ⟨_, _, _⟩) <;> rfl
  have hpipelines : (fun o => ((h.database.pipelines o).map (Step.mapBody Hook.noted)).map
      (Step.mapBody fun _ => Hook.plain)) = h.database.pipelines := by
    funext o
    rw [List.map_map]
    exact List.map_id'' hstep _
  simp only [plain, noted, hpipelines]

end Host

namespace UserCode
variable {u : UserCode C σ} {calls : HookCalls C σ} {o : Operation} {p : Pipeline (Hook C)}

/-- Code that notes the turns of the hooks and those of the driver. -/
def noting (u : UserCode C σ) (calls : HookCalls C σ) :
    UserCode (NotedHook C) (σ × List (Turn C)) where
  hook code h s :=
    let x := u.runHook code.2 h.plain s
    (x.1.noted (h.user.2 ++ [⟨code.1, callsOf calls code.2 h.plain s⟩]), x.2)
  driver o s y :=
    let x := u.driver o s y.1
    (x.1, x.2, y.2 ++ [⟨o.builtinStep, []⟩])

/-- The turns that are noted in a run. -/
def turns (u : UserCode C σ) (calls : HookCalls C σ) (o : Operation) (h : Host C σ)
    (s : Statement) : List (Turn C) :=
  ((u.noting calls).run o (h.noted []) s).2.1.user.2

/-- The note of one step. The driver does not get its turn if an error is set. -/
def turnOf (calls : HookCalls C σ) (o : Operation) (x : Host C σ × Statement) :
    Step (Hook C) → List (Turn C)
  | .builtin _ => if x.2.error.isSome then [] else [⟨o.builtinStep, []⟩]
  | .hook name _ hook => [⟨name, callsOf calls hook x.1 x.2⟩]

def turnsAlong (u : UserCode C σ) (calls : HookCalls C σ) (o : Operation) :
    Pipeline (Hook C) → Host C σ × Statement → List (Turn C)
  | [], _ => []
  | step :: p, x => turnOf calls o x step ++ turnsAlong u calls o p (u.runStep o x step)

theorem turnsAlong_append (u : UserCode C σ) (calls : HookCalls C σ) (o : Operation)
    (p q : Pipeline (Hook C)) (x : Host C σ × Statement) :
    u.turnsAlong calls o (p ++ q) x =
      u.turnsAlong calls o p x ++ u.turnsAlong calls o q (p.foldl (u.runStep o) x) := by
  induction p generalizing x with
  | nil => rfl
  | cons step p ih =>
    have hrest := ih (u.runStep o x step)
    simp only [List.cons_append, turnsAlong, hrest, List.append_assoc, List.foldl_cons]

theorem noting_driver (u : UserCode C σ) (calls : HookCalls C σ) (o : Operation) (s : Statement)
    (y : σ × List (Turn C)) : (u.noting calls).driver o s y =
      ((u.driver o s y.1).1, (u.driver o s y.1).2, y.2 ++ [⟨o.builtinStep, []⟩]) := rfl

theorem noting_runStep (u : UserCode C σ) (calls : HookCalls C σ) (o : Operation)
    (x : Host C σ × Statement) (turns : List (Turn C)) (step : Step (Hook C)) :
    (u.noting calls).runStep o (x.1.noted turns, x.2) (step.mapBody Hook.noted) =
      ((u.runStep o x step).1.noted (turns ++ turnOf calls o x step), (u.runStep o x step).2) := by
  cases step with
  | builtin o' =>
    cases he : x.2.error with
    | some e => simp [Step.mapBody, runStep, runBuiltin, turnOf, he]
    | none =>
      simp only [Step.mapBody, runStep, runBuiltin, turnOf, noting_driver, he, Host.noted]
      cases (u.driver o x.2 x.1.user).1 <;> rfl
  | hook name anchor hook =>
    have hhook : (u.noting calls).runStep o (x.1.noted turns, x.2)
        (Step.mapBody Hook.noted (.hook name anchor hook)) =
          (u.noting calls).hook (name, hook) (x.1.noted turns) x.2 := rfl
    rw [hhook]
    simp only [noting, Host.plain_noted]
    rfl

/-- Taking notes changes nothing about a run. -/
theorem noting_runSteps (u : UserCode C σ) (calls : HookCalls C σ) (o : Operation)
    (p : Pipeline (Hook C)) (x : Host C σ × Statement) (turns : List (Turn C)) :
    (p.map (Step.mapBody Hook.noted)).foldl ((u.noting calls).runStep o) (x.1.noted turns, x.2) =
      ((p.foldl (u.runStep o) x).1.noted (turns ++ u.turnsAlong calls o p x),
        (p.foldl (u.runStep o) x).2) := by
  induction p generalizing x turns with
  | nil => simp [turnsAlong]
  | cons step p ih =>
    rw [List.map_cons, List.foldl_cons, noting_runStep, ih, List.append_assoc]
    rfl

theorem noting_run (u : UserCode C σ) (calls : HookCalls C σ) (o : Operation) (h : Host C σ)
    (s : Statement) : (u.noting calls).run o (h.noted []) s =
      ((u.run o h s).1,
        (u.run o h s).2.1.noted (u.turnsAlong calls o (h.database.pipelines o) (h, s)),
        (u.run o h s).2.2) := by
  have hsteps := u.noting_runSteps calls o (h.database.pipelines o) (h, s) []
  have hrun := congrArg (fun x : Host (NotedHook C) (σ × List (Turn C)) × Statement =>
    (x.2.result, x)) hsteps
  exact hrun

theorem turns_eq (u : UserCode C σ) (calls : HookCalls C σ) (o : Operation) (h : Host C σ)
    (s : Statement) :
    u.turns calls o h s = u.turnsAlong calls o (h.database.pipelines o) (h, s) := by
  rw [turns, noting_run]
  rfl

/-- Every hook has its turn. -/
theorem map_step_turnsAlong (hp : ∀ step ∈ p, step.isBuiltin = false)
    (x : Host C σ × Statement) : (u.turnsAlong calls o p x).map Turn.step = p.names := by
  induction p generalizing x with
  | nil => rfl
  | cons step p ih =>
    obtain ⟨hstep, hp⟩ := List.forall_mem_cons.mp hp
    have hrest := ih hp (u.runStep o x step)
    cases step with
    | builtin o' => cases hstep
    | hook name anchor hook =>
      rw [turnsAlong, List.map_append, hrest]
      rfl

theorem Makes.turnOf (hu : u.Makes calls) (o : Operation) (x : Host C σ × Statement)
    (step : Step (Hook C)) : (u.runStep o x step).1.database.pipelines =
      x.1.database.pipelines.calls ((turnOf calls o x step).flatMap Turn.calls) := by
  cases step with
  | builtin o' =>
    have hnone : (UserCode.turnOf calls o x (.builtin o')).flatMap Turn.calls = [] := by
      rw [UserCode.turnOf]
      split <;> rfl
    rw [hnone]
    exact congrArg Database.pipelines (runBuiltin_database u o x.1 x.2)
  | hook name anchor hook =>
    have hone : (UserCode.turnOf calls o x (.hook name anchor hook)).flatMap Turn.calls =
        callsOf calls hook x.1 x.2 := List.append_nil _
    rw [hone]
    exact hu.runHook hook x.1 x.2

theorem Makes.turnsAlong (hu : u.Makes calls) (o : Operation) (p : Pipeline (Hook C))
    (x : Host C σ × Statement) : (p.foldl (u.runStep o) x).1.database.pipelines =
      x.1.database.pipelines.calls ((u.turnsAlong calls o p x).flatMap Turn.calls) := by
  induction p generalizing x with
  | nil => rfl
  | cons step p ih =>
    rw [List.foldl_cons, ih, hu.turnOf o x step, UserCode.turnsAlong, List.flatMap_append,
      Pipelines.calls_append]

/-- A well-formed pipeline is its hooks around the built-in step. -/
theorem exists_split_builtin {ps : Pipelines (Hook C)} (hps : ps.WellFormed) (o : Operation) :
    ∃ l r : Pipeline (Hook C), ps o = l ++ .builtin o :: r ∧
      ∀ step ∈ l ++ r, step.isBuiltin = false := by
  have hmem : .builtin o ∈ (ps o).filter Step.isBuiltin := by
    rw [hps.builtins o]
    exact List.mem_singleton_self _
  obtain ⟨l, r, hp⟩ := List.append_of_mem (List.mem_filter.mp hmem).1
  refine ⟨l, r, hp, ?_⟩
  have hlength := congrArg List.length (hps.builtins o)
  rw [hp, List.filter_append, List.filter_cons_of_pos rfl, List.length_append, List.length_cons,
    List.length_singleton] at hlength
  have hnone : (l ++ r).filter Step.isBuiltin = [] := by
    rw [List.filter_append, ← List.length_eq_zero_iff, List.length_append]
    omega
  intro step hstep
  exact Bool.eq_false_iff.mpr (List.filter_eq_nil_iff.mp hnone step hstep)

theorem run_as_it_stood (hu : u.Makes calls) {h : Host C σ} (hh : Reached u h) (o : Operation)
    (s : Statement) :
    (u.noting calls).run o (h.noted []) s =
        ((u.run o h s).1, (u.run o h s).2.1.noted (u.turns calls o h s), (u.run o h s).2.2) ∧
      (∃ l r : Pipeline (Hook C), h.database.pipelines o = l ++ .builtin o :: r ∧
        (u.turns calls o h s).map Turn.step = l.names ++
          ((if (u.runSteps o l h s).2.error.isSome then [] else [o.builtinStep]) ++ r.names)) ∧
      ((u.turns calls o h s).map Turn.step).Nodup ∧
      (u.run o h s).2.1.database.pipelines =
        h.database.pipelines.calls ((u.turns calls o h s).flatMap Turn.calls) := by
  rw [turns_eq]
  obtain ⟨l, r, hp, hhooks⟩ := exists_split_builtin (hh.wellFormed hu) o
  obtain ⟨hl, hr⟩ := List.forall_mem_append.mp hhooks
  have hdriver : ∀ x : Host C σ × Statement, (turnOf calls o x (.builtin o)).map Turn.step =
      if x.2.error.isSome then [] else [o.builtinStep] := by
    intro x
    rw [turnOf]
    split <;> rfl
  have hturns : (u.turnsAlong calls o (h.database.pipelines o) (h, s)).map Turn.step = l.names ++
      ((if (u.runSteps o l h s).2.error.isSome then [] else [o.builtinStep]) ++ r.names) := by
    rw [hp, turnsAlong_append, turnsAlong, List.map_append, List.map_append,
      map_step_turnsAlong hl, map_step_turnsAlong hr, hdriver]
    rfl
  refine ⟨u.noting_run calls o h s, ⟨l, r, hp, hturns⟩, ?_, hu.turnsAlong o _ (h, s)⟩
  have hnames : (h.database.pipelines.stepNames o) = l.names ++ ([o.builtinStep] ++ r.names) := by
    rw [Pipelines.stepNames, hp, Pipeline.names, List.map_append, List.map_cons]
    rfl
  have hsublist : ((u.turnsAlong calls o (h.database.pipelines o) (h, s)).map Turn.step).Sublist
      (h.database.pipelines.stepNames o) := by
    rw [hturns, hnames]
    refine (List.Sublist.refl _).append (List.Sublist.append ?_ (List.Sublist.refl _))
    split
    · exact List.nil_sublist _
    · exact List.Sublist.refl _
  exact hsublist.nodup ((hh.wellFormed hu).distinct o)

/-- The hook `self` replaces itself and removes `next`, which has its turn all the same; its
replacement does not. -/
theorem run_as_it_stood_unruly :
    unruly.Makes unrulyCalls ∧ Reached unruly unrulyHost ∧
      (unruly.turns unrulyCalls .query unrulyHost (.make none "SELECT 1" [])).map Turn.step =
        ["self", "db:query", "next"] ∧
      (unruly.run .query unrulyHost (.make none "SELECT 1" [])).2.1.database.pipelines =
        unrulyHost.database.pipelines.calls
          ((unruly.turns unrulyCalls .query unrulyHost (.make none "SELECT 1" [])).flatMap
            Turn.calls) := by
  obtain ⟨-, -, -, hpipelines⟩ :=
    run_as_it_stood unruly_makes unrulyHost_reached .query (.make none "SELECT 1" [])
  exact ⟨unruly_makes, unrulyHost_reached, by rfl, hpipelines⟩

example : (unruly.run .query unrulyHost (.make none "SELECT 1" [])).2.1.database.pipelines.stepNames
    .query = ["self", "db:query"] := by rfl

end UserCode
end DatabaseTracing
