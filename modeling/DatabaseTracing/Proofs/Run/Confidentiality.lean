import DatabaseTracing.Proofs.Run.Instrumented

/-! # What is not to be recorded is not observable

Options can keep the bound values or the row counts out of spans and logs. Two runs of
statements that differ in nothing else then leave the same spans and the same log, if
neither the driver's outcome nor the users' hooks give the difference away.
-/
namespace DatabaseTracing
variable {C σ : Type}

/-- What an observer is not to learn about a statement. -/
structure Veil where
  /-- The values bound to it, and their number. -/
  vars : Bool
  /-- The number of rows it affects. -/
  rows : Bool

/-- The options keep behind the veil what is behind it. -/
structure Options.Keeps (o : Options) (v : Veil) : Prop where
  vars : v.vars = true → o.logSqlParameters = false
  rows : v.rows = true → o.logResult = false

/-- The statements differ in nothing but what is behind the veil. -/
structure Statement.Veiled (v : Veil) (s t : Statement) : Prop where
  context : s.context = t.context
  sql : s.sql = t.sql
  vars : v.vars = false → s.vars = t.vars
  rowsAffected : v.rows = false → s.rowsAffected = t.rowsAffected
  error : s.error = t.error
  callState : s.callState = t.callState

/-- Two outcomes are both row counts, the same unless they are behind the veil, or the same error. -/
def Veil.Outcomes (v : Veil) : Except DatabaseError UInt64 → Except DatabaseError UInt64 → Prop
  | .ok m, .ok n => v.rows = false → m = n
  | .error e, .error e' => e = e'
  | _, _ => False

theorem Veil.Outcomes.eq {v : Veil} {x y : Except DatabaseError UInt64} (h : v.Outcomes x y)
    (hv : v.rows = false) : x = y := by
  rcases x with e | m <;> rcases y with e' | n
  · exact congrArg Except.error h
  · exact h.elim
  · exact h.elim
  · exact congrArg Except.ok (h hv)

theorem Statement.Veiled.result {v : Veil} {s t : Statement} (h : s.Veiled v t) :
    v.Outcomes s.result t.result := by
  unfold Statement.result
  rw [h.error]
  cases t.error with
  | none => exact h.rowsAffected
  | some e => exact rfl

section Options
variable {v : Veil} {o : Options} {s t : Statement}

theorem Options.Keeps.recordedSql (ho : o.Keeps v) (h : s.Veiled v t) (d : Dialect) :
    o.recordedSql d s = o.recordedSql d t := by
  unfold Options.recordedSql
  rw [h.sql]
  cases hv : v.vars with
  | true => rw [ho.vars hv, if_neg Bool.false_ne_true, if_neg Bool.false_ne_true]
  | false => rw [h.vars hv]

theorem Options.Keeps.recordedRows (ho : o.Keeps v) (h : s.Veiled v t) :
    o.recordedRows s = o.recordedRows t := by
  unfold Options.recordedRows
  cases hv : v.rows with
  | true => rw [ho.rows hv, if_neg Bool.false_ne_true, if_neg Bool.false_ne_true]
  | false => rw [h.rowsAffected hv]

theorem Options.Keeps.closingEdits (ho : o.Keeps v) (h : s.Veiled v t) (d : Dialect) :
    o.closingEdits d s = o.closingEdits d t := by
  rw [Options.closingEdits, Options.closingEdits, ho.recordedSql h, ho.recordedRows h,
    Options.errorEdits, Options.errorEdits, h.error]

end Options

namespace Host

/-- The hosts have the same handle, spans and log, and states of their users that `R` relates. -/
structure Agree (R : σ → σ → Prop) (h k : Host C σ) : Prop where
  database : h.database = k.database
  telemetry : h.telemetry = k.telemetry
  log : h.log = k.log
  user : R h.user k.user

variable {v : Veil} {o : Options} {R : σ → σ → Prop} {h k : Host C σ} {s t : Statement}

theorem Agree.report (hh : h.Agree R k) (ho : o.Keeps v) (hs : s.Veiled v t) :
    h.report o s = k.report o t := by
  rw [Host.report, Host.report, hh.database, ho.recordedSql hs, ho.recordedRows hs, hs.callState]

theorem Agree.closeSpan (hh : h.Agree R k) (ho : o.Keeps v) (hs : s.Veiled v t) :
    (h.closeSpan o s).Agree R (k.closeSpan o t) := by
  unfold Host.closeSpan
  rw [hs.callState]
  split
  · exact hh
  · refine ⟨hh.database, ?_, hh.log, hh.user⟩
    rw [hh.telemetry, hh.database, ho.closingEdits hs]

theorem Agree.logged (hh : h.Agree R k) (e : LogEvent) : (h.logged e).Agree R (k.logged e) :=
  ⟨hh.database, hh.telemetry, congrArg (· ++ [e]) hh.log, hh.user⟩

end Host

namespace UserCode

/-- Two states of a run that agree in all that is not behind the veil. -/
structure Agree (v : Veil) (R : σ → σ → Prop) (x y : Host C σ × Statement) : Prop where
  host : x.1.Agree R y.1
  statement : x.2.Veiled v y.2

/-- The users' code does not give away what is behind the veil: what its hooks do to spans and log
and how the driver's calls turn out depend on the rest only. Its own state may go astray within
`R`. -/
structure Blind (u : UserCode C σ) (v : Veil) (R : σ → σ → Prop) : Prop where
  hook : ∀ (c : C) {h k : Host C σ} {s t : Statement}, h.Agree R k → s.Veiled v t →
    Agree v R (u.hook c h s) (u.hook c k t)
  driver : ∀ (o : Operation) {s t : Statement} {x y : σ}, R x y → s.Veiled v t →
    v.Outcomes (u.driver o s x).1 (u.driver o t y).1 ∧ R (u.driver o s x).2 (u.driver o t y).2

end UserCode

/-- The step runs no tracing hook of other options. -/
def Step.TracedBy (opts : Options) : Step (Hook C) → Prop
  | .hook _ _ (.spanBefore o _) => o = opts
  | .hook _ _ (.spanAfter o) => o = opts
  | _ => True

/-- All tracing hooks of the pipelines are of these options. There may be any number of them. -/
def Pipelines.TracedBy (opts : Options) (ps : Pipelines (Hook C)) : Prop :=
  ∀ o, ∀ step ∈ ps o, step.TracedBy opts

namespace Pipelines
variable {opts : Options} {ps : Pipelines (Hook C)}

theorem tracedBy_initial (opts : Options) : TracedBy opts (initial : Pipelines (Hook C)) := by
  intro o step hs
  rw [List.mem_singleton.mp hs]
  trivial

/-- Users' calls and the plugin's own keep a handle instrumented with the options, wholly or in
part. -/
theorem TracedBy.calls (h : ps.TracedBy opts) {cs : List (Call (Hook C))}
    (hcs : ∀ c ∈ cs, c.ByUser ∨ ∃ stage, c = Tracing.stageCall opts stage) :
    (ps.calls cs).TracedBy opts := by
  induction cs generalizing ps with
  | nil => exact h
  | cons c cs ih =>
    obtain ⟨hc, hcs⟩ := List.forall_mem_cons.mp hcs
    refine ih (fun o step hs => ?_) hcs
    rcases mem_call_cases hs with hs | ⟨position, name, body, rfl, rfl⟩
    · exact h o step hs
    · rcases hc with hc | ⟨⟨o', phase⟩, hc⟩
      · cases hc
        cases position <;> trivial
      · cases hc
        cases phase <;> rfl

/-- So does setting up the plugin, whether or not it succeeds. -/
theorem TracedBy.setUp {h : Host C σ} (hp : h.database.pipelines.TracedBy opts) :
    (h.setUp (Tracing.setup opts)).2.database.pipelines.TracedBy opts := by
  rw [Tracing.setup, Tracing.registerStages_pipelines]
  refine hp.calls fun c hc => ?_
  obtain ⟨stage, -, rfl⟩ := List.mem_map.mp hc
  exact .inr ⟨stage, rfl⟩

end Pipelines

namespace UserCode
variable {v : Veil} {opts : Options} {R : σ → σ → Prop} {u : UserCode C σ}
  {x y : Host C σ × Statement}

theorem Agree.before (h : Agree v R x y) (spanName : String) :
    Agree v R ((x.1.before opts spanName x.2).getD x) ((y.1.before opts spanName y.2).getD y) := by
  unfold Host.before Host.spanAttributes
  rw [h.statement.context, h.statement.callState, h.host.telemetry, h.host.database]
  cases y.2.context with
  | none => exact h
  | some parent =>
    exact ⟨⟨rfl, rfl, h.host.log, h.host.user⟩,
      ⟨rfl, h.statement.sql, h.statement.vars, h.statement.rowsAffected, h.statement.error, rfl⟩⟩

theorem Agree.after (h : Agree v R x y) (ho : opts.Keeps v) :
    (x.1.after opts x.2).map (·.1) = (y.1.after opts y.2).map (·.1) ∧
      Agree v R (((x.1.after opts x.2).map (·.2)).getD x)
        (((y.1.after opts y.2).map (·.2)).getD y) := by
  have hreport := h.host.report ho h.statement
  have hclose := h.host.closeSpan ho h.statement
  unfold Host.after
  rw [h.statement.context, hreport, h.host.database]
  cases y.2.context with
  | none => exact ⟨rfl, h⟩
  | some parent =>
    exact ⟨rfl, hclose.logged _,
      ⟨rfl, h.statement.sql, h.statement.vars, h.statement.rowsAffected, h.statement.error, rfl⟩⟩

theorem Blind.runBuiltin (hu : u.Blind v R) (h : Agree v R x y) (o : Operation) :
    Agree v R (u.runBuiltin o x.1 x.2) (u.runBuiltin o y.1 y.2) := by
  have hcall := hu.driver o h.host.user h.statement
  unfold UserCode.runBuiltin
  rw [h.statement.error]
  cases y.2.error with
  | some e => exact h
  | none =>
    generalize u.driver o x.2 x.1.user = p at hcall ⊢
    generalize u.driver o y.2 y.1.user = q at hcall ⊢
    obtain ⟨hout, huser⟩ := hcall
    rcases p with ⟨e | m, a⟩ <;> rcases q with ⟨e' | n, b⟩
    · obtain rfl : e = e' := hout
      exact ⟨⟨h.host.database, h.host.telemetry, h.host.log, huser⟩,
        ⟨h.statement.context, h.statement.sql, h.statement.vars, h.statement.rowsAffected, rfl,
          h.statement.callState⟩⟩
    · exact hout.elim
    · exact hout.elim
    · exact ⟨⟨h.host.database, h.host.telemetry, h.host.log, huser⟩,
        ⟨h.statement.context, h.statement.sql, h.statement.vars, hout, rfl,
          h.statement.callState⟩⟩

theorem Blind.runStep (hu : u.Blind v R) (ho : opts.Keeps v) (h : Agree v R x y) (o : Operation)
    {step : Step (Hook C)} (hstep : step.TracedBy opts) :
    Agree v R (u.runStep o x step) (u.runStep o y step) := by
  cases step with
  | builtin o' => exact hu.runBuiltin h o
  | hook name anchor hook =>
    cases hook with
    | spanBefore opts' spanName =>
      obtain rfl : opts' = opts := hstep
      exact h.before spanName
    | spanAfter opts' =>
      obtain rfl : opts' = opts := hstep
      exact (h.after ho).2
    | custom code => exact hu.hook code h.host h.statement

theorem Blind.runSteps (hu : u.Blind v R) (ho : opts.Keeps v) (h : Agree v R x y) (o : Operation)
    {p : Pipeline (Hook C)} (hp : ∀ step ∈ p, step.TracedBy opts) :
    Agree v R (p.foldl (u.runStep o) x) (p.foldl (u.runStep o) y) := by
  induction p generalizing x y with
  | nil => exact h
  | cons step p ih =>
    obtain ⟨hstep, hrest⟩ := List.forall_mem_cons.mp hp
    exact ih (hu.runStep ho h o hstep) hrest

/-- What is behind the veil shows neither in the spans and the log of a run nor in the report of the
after hook, wherever that is called; and not in the answer either, but that it may be the row count
itself. -/
theorem veiled_unobservable (ho : opts.Keeps v) (hu : u.Blind v R) {h k : Host C σ}
    (hp : h.database.pipelines.TracedBy opts) (hh : h.Agree R k) {s t : Statement}
    (hs : s.Veiled v t) (o : Operation) :
    (v.rows = false → (u.run o h s).1 = (u.run o k t).1) ∧
      Agree v R (u.run o h s).2 (u.run o k t).2 ∧
      (u.run o h s).2.1.telemetry.exported = (u.run o k t).2.1.telemetry.exported ∧
      (u.run o h s).2.1.log = (u.run o k t).2.1.log ∧
      (h.after opts s).map (·.1) = (k.after opts t).map (·.1) ∧
      Agree v R (((h.after opts s).map (·.2)).getD (h, s))
        (((k.after opts t).map (·.2)).getD (k, t)) := by
  have hstart : Agree v R (h, s) (k, t) := ⟨hh, hs⟩
  have hrun : Agree v R (u.run o h s).2 (u.run o k t).2 := by
    have hsteps := hu.runSteps ho hstart o (hp o)
    rw [hh.database] at hsteps
    unfold UserCode.run
    rw [hh.database]
    exact hsteps
  obtain ⟨hreport, hafter⟩ := hstart.after ho
  exact ⟨fun hv => hrun.statement.result.eq hv, hrun,
    congrArg Telemetry.exported hrun.host.telemetry, hrun.host.log, hreport, hafter⟩

/-- A hook that binds a further value, and a driver that keeps all bound values and counts its
calls. -/
def hoarding : UserCode Unit (List (List Json)) where
  hook _ h s := (h, { s with sql := s.sql ++ " LIMIT ?", vars := s.vars ++ [.integer 1] })
  driver _ s kept := (.ok (UInt64.ofNat kept.length), kept ++ [s.vars])

theorem hoarding_blind : hoarding.Blind ⟨true, false⟩ (fun x y => x.length = y.length) where
  hook c h k s t hh hs :=
    ⟨hh, ⟨hs.context, congrArg (· ++ " LIMIT ?") hs.sql, nofun, hs.rowsAffected, hs.error,
      hs.callState⟩⟩
  driver o s t x y hxy hs := by
    refine ⟨fun _ => congrArg UInt64.ofNat hxy, ?_⟩
    simp [hoarding, hxy]

/-- The plugin finds the name of one of its hooks taken. -/
def hoardingHost : Host Unit (List (List Json)) :=
  ⟨⟨"db", .mysql, Pipelines.initial.calls
      [.register .query (.before "db:query") "otel:before_query" (.custom ())], []⟩,
    .initial, [], []⟩

theorem veiled_unobservable_hoarding :
    let opts : Options := { Options.default with logSqlParameters := false }
    let h := (hoardingHost.setUp (Tracing.setup opts)).2
    let s := Statement.make (some ⟨none⟩) "SELECT ?" [.string "secret"]
    let t := Statement.make (some ⟨none⟩) "SELECT ?" []
    (hoardingHost.setUp (Tracing.setup opts)).1 ≠ .ok () ∧
      (hoarding.run .query h s).1 = (hoarding.run .query h t).1 ∧
      (hoarding.run .query h s).2.1.telemetry.exported =
        (hoarding.run .query h t).2.1.telemetry.exported ∧
      (hoarding.run .query h s).2.1.log = (hoarding.run .query h t).2.1.log := by
  intro opts h s t
  have ho : opts.Keeps ⟨true, false⟩ := ⟨fun _ => rfl, nofun⟩
  have htaken : hoardingHost.database.pipelines.TracedBy opts := by
    refine (Pipelines.tracedBy_initial opts).calls fun c hc => ?_
    rw [List.mem_singleton.mp hc]
    exact .inl (.register ..)
  have hh : h.Agree (fun x y => x.length = y.length) h := ⟨rfl, rfl, rfl, rfl⟩
  have hs : s.Veiled ⟨true, false⟩ t := ⟨rfl, rfl, nofun, fun _ => rfl, rfl, rfl⟩
  obtain ⟨hresult, -, hspans, hlog, -⟩ :=
    veiled_unobservable ho hoarding_blind htaken.setUp hh hs .query
  exact ⟨nofun, hresult rfl, hspans, hlog⟩

end UserCode
end DatabaseTracing
