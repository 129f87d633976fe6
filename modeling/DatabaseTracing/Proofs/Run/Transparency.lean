import DatabaseTracing.Run

/-! # Runs with and without tracing

The tracing hooks of a pipeline change the call state of a statement, the spans
and the log, and nothing that the other steps depend on. Leaving them out of a run
gives the same answer and the same calls of the driver, and the statement ends up
the same but for its call state.
-/
namespace DatabaseTracing
variable {C σ : Type}

namespace Statement

/-- The statements agree in all but the call state. -/
structure Alike (s t : Statement) : Prop where
  context : s.context = t.context
  sql : s.sql = t.sql
  vars : s.vars = t.vars
  rowsAffected : s.rowsAffected = t.rowsAffected
  error : s.error = t.error

theorem Alike.refl (s : Statement) : s.Alike s := ⟨rfl, rfl, rfl, rfl, rfl⟩

theorem Alike.trans {r s t : Statement} (h : r.Alike s) (h' : s.Alike t) : r.Alike t :=
  ⟨h.context.trans h'.context, h.sql.trans h'.sql, h.vars.trans h'.vars,
    h.rowsAffected.trans h'.rowsAffected, h.error.trans h'.error⟩

theorem Alike.result_eq {s t : Statement} (h : s.Alike t) : s.result = t.result := by
  rw [result, result, h.error, h.rowsAffected]

end Statement

namespace Host

/-- The hosts agree in all but the pipelines, the spans and the log. -/
structure Alike (h k : Host C σ) : Prop where
  name : h.database.name = k.database.name
  dialect : h.database.dialect = k.database.dialect
  plugins : h.database.plugins = k.database.plugins
  user : h.user = k.user

theorem Alike.refl (h : Host C σ) : h.Alike h := ⟨rfl, rfl, rfl, rfl⟩

theorem Alike.trans {h k l : Host C σ} (hk : h.Alike k) (kl : k.Alike l) : h.Alike l :=
  ⟨hk.name.trans kl.name, hk.dialect.trans kl.dialect, hk.plugins.trans kl.plugins,
    hk.user.trans kl.user⟩

theorem before_alike {o : Options} {spanName : String} {h h' : Host C σ} {s s' : Statement}
    (hb : h.before o spanName s = some (h', s')) : h'.Alike h ∧ s'.Alike s := by
  obtain ⟨parent, _, he⟩ := Option.map_eq_some_iff.mp hb
  cases he
  exact ⟨⟨rfl, rfl, rfl, rfl⟩, ⟨rfl, rfl, rfl, rfl, rfl⟩⟩

theorem closeSpan_alike (o : Options) (h : Host C σ) (s : Statement) :
    (h.closeSpan o s).Alike h := by
  unfold closeSpan
  split
  · exact .refl h
  · exact ⟨rfl, rfl, rfl, rfl⟩

theorem after_alike {o : Options} {h h' : Host C σ} {s s' : Statement} {r : CallReport}
    (ha : h.after o s = some (r, h', s')) : h'.Alike h ∧ s'.Alike s := by
  obtain ⟨_, _, he⟩ := Option.map_eq_some_iff.mp ha
  cases he
  have hclose := closeSpan_alike o h s
  exact ⟨⟨hclose.name, hclose.dialect, hclose.plugins, hclose.user⟩, ⟨rfl, rfl, rfl, rfl, rfl⟩⟩

end Host

/-- Whether the step runs one of the tracing hooks. -/
def Step.isTracing : Step (Hook C) → Bool
  | .hook _ _ (.spanBefore _ _) => true
  | .hook _ _ (.spanAfter _) => true
  | _ => false

/-- The pipeline with the steps left out that run tracing hooks, whatever their names. -/
def Pipeline.untraced (p : Pipeline (Hook C)) : Pipeline (Hook C) := p.filter fun s => !s.isTracing

/-- The host with tracing hooks left out of the pipeline of one operation. -/
def Host.untraced (h : Host C σ) (o : Operation) : Host C σ :=
  { h with
    database := { h.database with
      pipelines := h.database.pipelines.set o (h.database.pipelines o).untraced } }

namespace UserCode
variable {u : UserCode C σ}

/-- The users' code does not look at what tracing changes: the call state and the spans that are
reached by it, the pipelines, and the log. What it does to them is its own affair. -/
structure Unaware (u : UserCode C σ) : Prop where
  hook : ∀ (c : C) {h k : Host C σ} {s t : Statement}, h.Alike k → s.Alike t →
    (u.hook c h s).1.Alike (u.hook c k t).1 ∧ (u.hook c h s).2.Alike (u.hook c k t).2
  driver : ∀ (o : Operation) {s t : Statement} (x : σ), s.Alike t → u.driver o s x = u.driver o t x

/-- Two states of a run that agree in all but what tracing changes. -/
structure Alike (x y : Host C σ × Statement) : Prop where
  host : x.1.Alike y.1
  statement : x.2.Alike y.2

theorem Alike.trans {x y z : Host C σ × Statement} (h : Alike x y) (h' : Alike y z) : Alike x z :=
  ⟨h.host.trans h'.host, h.statement.trans h'.statement⟩

theorem runStep_tracing_alike (u : UserCode C σ) (o : Operation) (x : Host C σ × Statement)
    {step : Step (Hook C)} (ht : step.isTracing = true) : Alike (u.runStep o x step) x := by
  cases step with
  | builtin o' => cases ht
  | hook name anchor hook =>
    cases hook with
    | spanBefore opts spanName =>
      cases hb : x.1.before opts spanName x.2 with
      | none =>
        simp only [runStep, runHook, hb, Option.getD_none]
        exact ⟨.refl _, .refl _⟩
      | some y =>
        simp only [runStep, runHook, hb, Option.getD_some]
        obtain ⟨hh, hs⟩ := Host.before_alike hb
        exact ⟨hh, hs⟩
    | spanAfter opts =>
      cases ha : x.1.after opts x.2 with
      | none =>
        simp only [runStep, runHook, ha, Option.map_none, Option.getD_none]
        exact ⟨.refl _, .refl _⟩
      | some y =>
        simp only [runStep, runHook, ha, Option.map_some, Option.getD_some]
        obtain ⟨hh, hs⟩ := Host.after_alike ha
        exact ⟨hh, hs⟩
    | custom code => cases ht

theorem Unaware.runBuiltin_alike (hu : u.Unaware) (o : Operation) {h k : Host C σ}
    {s t : Statement} (hh : h.Alike k) (hs : s.Alike t) :
    Alike (u.runBuiltin o h s) (u.runBuiltin o k t) := by
  have hcall : u.driver o s h.user = u.driver o t k.user := by rw [hh.user, hu.driver o _ hs]
  unfold runBuiltin
  rw [hs.error, hcall]
  cases t.error with
  | some e => exact ⟨hh, hs⟩
  | none =>
    rcases u.driver o t k.user with ⟨r | n, x⟩
    · exact ⟨⟨hh.name, hh.dialect, hh.plugins, rfl⟩,
        ⟨hs.context, hs.sql, hs.vars, hs.rowsAffected, rfl⟩⟩
    · exact ⟨⟨hh.name, hh.dialect, hh.plugins, rfl⟩, ⟨hs.context, hs.sql, hs.vars, rfl, rfl⟩⟩

/-- Any other step keeps alike what is alike. -/
theorem Unaware.runStep_alike (hu : u.Unaware) (o : Operation) {x y : Host C σ × Statement}
    (h : Alike x y) {step : Step (Hook C)} (ht : step.isTracing = false) :
    Alike (u.runStep o x step) (u.runStep o y step) := by
  cases step with
  | builtin o' => exact hu.runBuiltin_alike o h.host h.statement
  | hook name anchor hook =>
    cases hook with
    | spanBefore opts spanName => cases ht
    | spanAfter opts => cases ht
    | custom code =>
      obtain ⟨hh, hs⟩ := hu.hook code h.host h.statement
      exact ⟨hh, hs⟩

theorem Unaware.runSteps_alike (hu : u.Unaware) (o : Operation) (p : Pipeline (Hook C))
    {x y : Host C σ × Statement} (h : Alike x y) :
    Alike (p.foldl (u.runStep o) x) (p.untraced.foldl (u.runStep o) y) := by
  induction p generalizing x y with
  | nil => exact h
  | cons step p ih =>
    cases ht : step.isTracing with
    | true =>
      have hskip : Pipeline.untraced (step :: p) = Pipeline.untraced p :=
        List.filter_cons_of_neg (by rw [ht]; decide)
      rw [hskip, List.foldl_cons]
      exact ih ((runStep_tracing_alike u o x ht).trans h)
    | false =>
      have hkeep : Pipeline.untraced (step :: p) = step :: Pipeline.untraced p :=
        List.filter_cons_of_pos (by rw [ht]; rfl)
      rw [hkeep, List.foldl_cons, List.foldl_cons]
      exact ih (hu.runStep_alike o h ht)

theorem Unaware.run_alike (hu : u.Unaware) (o : Operation) (h : Host C σ) (s : Statement) :
    (u.run o h s).1 = (u.run o (h.untraced o) s).1 ∧
      Alike (u.run o h s).2 (u.run o (h.untraced o) s).2 := by
  have hstart : Alike (h, s) (h.untraced o, s) := ⟨⟨rfl, rfl, rfl, rfl⟩, .refl s⟩
  have hp : (h.untraced o).database.pipelines o = (h.database.pipelines o).untraced :=
    Pipelines.set_same ..
  have hsteps := hu.runSteps_alike o (h.database.pipelines o) hstart
  rw [← hp] at hsteps
  exact ⟨hsteps.statement.result_eq, hsteps⟩

end UserCode

/-- The host with its users' state replaced. -/
def Host.mapUser {τ : Type} (f : σ → τ) (h : Host C σ) : Host C τ :=
  ⟨h.database, h.telemetry, h.log, f h.user⟩

namespace Host
variable {τ : Type} (f : σ → τ) (h : Host C σ) (s : Statement)

theorem before_mapUser (o : Options) (spanName : String) :
    (h.mapUser f).before o spanName s = (h.before o spanName s).map (Prod.map (mapUser f) id) := by
  unfold before
  cases s.context <;> rfl

theorem closeSpan_mapUser (o : Options) :
    (h.mapUser f).closeSpan o s = (h.closeSpan o s).mapUser f := by
  unfold closeSpan
  cases s.callState.span <;> rfl

theorem after_mapUser (o : Options) : (h.mapUser f).after o s =
    (h.after o s).map (Prod.map id (Prod.map (mapUser f) id)) := by
  unfold after
  cases s.context with
  | none => rfl
  | some c =>
    simp only [Option.map_some, closeSpan_mapUser]
    rfl

end Host

/-- What a driver is called with. -/
structure DriverCall where
  operation : Operation
  sql : String
  vars : List Json

namespace UserCode

/-- The same code, with a driver that notes its calls. -/
def recording (u : UserCode C σ) : UserCode C (σ × List DriverCall) where
  hook c h s :=
    let (h', s') := u.hook c (h.mapUser (·.1)) s
    (h'.mapUser fun x => (x, h.user.2), s')
  driver o s x :=
    let (r, y) := u.driver o s x.1
    (r, y, x.2 ++ [⟨o, s.sql, s.vars⟩])

/-- The calls that the driver gets during a run, in order. -/
def driverCalls (u : UserCode C σ) (o : Operation) (h : Host C σ) (s : Statement) :
    List DriverCall :=
  (u.recording.run o (h.mapUser fun x => (x, [])) s).2.1.user.2

variable {u : UserCode C σ}

theorem recording_driver (u : UserCode C σ) (o : Operation) (s : Statement)
    (x : σ × List DriverCall) : u.recording.driver o s x =
      ((u.driver o s x.1).1, (u.driver o s x.1).2, x.2 ++ [⟨o, s.sql, s.vars⟩]) := rfl

theorem recording_runStep (u : UserCode C σ) (o : Operation)
    (x : Host C (σ × List DriverCall) × Statement) (step : Step (Hook C)) :
    (u.recording.runStep o x step).map (Host.mapUser (·.1)) id =
      u.runStep o (x.map (Host.mapUser (·.1)) id) step := by
  obtain ⟨h, s⟩ := x
  cases step with
  | builtin o' =>
    cases he : s.error with
    | some e => simp [runStep, runBuiltin, he]
    | none =>
      simp only [runStep, runBuiltin, recording_driver, Prod.map, id, he, Host.mapUser]
      cases (u.driver o s h.user.1).1 <;> rfl
  | hook name anchor hook =>
    cases hook with
    | spanBefore opts spanName =>
      simp only [runStep, runHook, Prod.map, id, Host.before_mapUser]
      cases h.before opts spanName s <;> rfl
    | spanAfter opts =>
      simp only [runStep, runHook, Prod.map, id, Host.after_mapUser]
      cases h.after opts s <;> rfl
    | custom code => rfl

theorem recording_runSteps (u : UserCode C σ) (o : Operation) (p : Pipeline (Hook C))
    (x : Host C (σ × List DriverCall) × Statement) :
    (p.foldl (u.recording.runStep o) x).map (Host.mapUser (·.1)) id =
      p.foldl (u.runStep o) (x.map (Host.mapUser (·.1)) id) := by
  induction p generalizing x with
  | nil => rfl
  | cons step p ih => rw [List.foldl_cons, List.foldl_cons, ih, recording_runStep]

/-- Noting the calls changes nothing about a run. -/
theorem recording_run (u : UserCode C σ) (o : Operation) (h : Host C (σ × List DriverCall))
    (s : Statement) : (u.recording.run o h s).map id (Prod.map (Host.mapUser (·.1)) id) =
      u.run o (h.mapUser (·.1)) s := by
  have hrun := u.recording_runSteps o (h.database.pipelines o) (h, s)
  have hresult := congrArg (fun y : Host C σ × Statement => (y.2.result, y)) hrun
  exact hresult

theorem Unaware.recording (hu : u.Unaware) : u.recording.Unaware where
  hook c h k s t hh hs := by
    have hh' : (h.mapUser (·.1)).Alike (k.mapUser (·.1)) :=
      ⟨hh.name, hh.dialect, hh.plugins, congrArg Prod.fst hh.user⟩
    obtain ⟨ha, hb⟩ := hu.hook c hh' hs
    have hcalls : h.user.2 = k.user.2 := congrArg Prod.snd hh.user
    exact ⟨⟨ha.name, ha.dialect, ha.plugins, Prod.ext ha.user hcalls⟩, hb⟩
  driver o s t x hs := by
    simp only [UserCode.recording, hu.driver o x.1 hs, hs.sql, hs.vars]

theorem run_untraced (hu : u.Unaware) (o : Operation) (h : Host C σ) (s : Statement) :
    (u.run o h s).1 = (u.run o (h.untraced o) s).1 ∧
      u.driverCalls o h s = u.driverCalls o (h.untraced o) s ∧
      (u.run o h s).2.2.Alike (u.run o (h.untraced o) s).2.2 := by
  obtain ⟨hresult, halike⟩ := hu.run_alike o h s
  obtain ⟨-, hcalls⟩ := hu.recording.run_alike o (h.mapUser fun x => (x, [])) s
  exact ⟨hresult, congrArg Prod.snd hcalls.host.user, halike.statement⟩

/-- Hooks that refuse a statement or rewrite it, and a driver that counts its calls. -/
def screening : UserCode Bool Nat where
  hook refuse h s :=
    (h, if refuse then { s with error := some .recordNotFound }
      else { s with sql := h.database.name, error := none })
  driver _ s n := (.ok (UInt64.ofNat s.vars.length), n + 1)

theorem screening_unaware : screening.Unaware where
  hook c h k s t hh hs := by
    cases c with
    | true => exact ⟨hh, ⟨hs.context, hs.sql, hs.vars, hs.rowsAffected, rfl⟩⟩
    | false => exact ⟨hh, ⟨hs.context, hh.name, hs.vars, hs.rowsAffected, rfl⟩⟩
  driver o s t x hs := by
    simp only [screening, hs.vars]

def screenedPipeline : Pipeline (Hook Bool) :=
  [.hook "otel:before_query" none (.spanBefore .default "query"),
    .hook "rewrite" none (.custom false), .builtin .query, .hook "refuse" none (.custom true),
    .hook "otel:after_query" (some "db:query") (.spanAfter .default)]

def screenedHost : Host Bool Nat :=
  ⟨⟨"db", .mysql, Pipelines.initial.set .query screenedPipeline, ["otel"]⟩, .initial, [], 0⟩

theorem run_untraced_screening :
    screening.Unaware ∧
      (screening.run .query screenedHost (.make (some ⟨none⟩) "SELECT ?" [.null])).1 =
        (screening.run .query (screenedHost.untraced .query)
          (.make (some ⟨none⟩) "SELECT ?" [.null])).1 ∧
      screening.driverCalls .query screenedHost (.make (some ⟨none⟩) "SELECT ?" [.null]) =
        screening.driverCalls .query (screenedHost.untraced .query)
          (.make (some ⟨none⟩) "SELECT ?" [.null]) ∧
      (screening.run .query screenedHost (.make (some ⟨none⟩) "SELECT ?" [.null])).2.2.Alike
        (screening.run .query (screenedHost.untraced .query)
          (.make (some ⟨none⟩) "SELECT ?" [.null])).2.2 :=
  ⟨screening_unaware, run_untraced screening_unaware .query screenedHost _⟩

end UserCode
end DatabaseTracing
