import DatabaseTracing.Proofs.Run.Instrumented
import DatabaseTracing.Proofs.Telemetry.Edits

/-! # One span for one run

A run on an instrumented handle starts one span and exports it, however many hooks
there are besides the plugin's, as long as these keep to themselves. The span bears
the name of the operation and tells what the after hook finds on the statement; the
log gets one report, and nothing is left in the call state.
-/
namespace DatabaseTracing
variable {C σ : Type}

/-- The event is a report of the after hook; no other code logs under its component. -/
def LogEvent.isReport (e : LogEvent) : Bool :=
  e.component == .hooks && e.message == "[db] statement finished"

/-- What the after hook has to say about a statement, apart from its error. -/
def Options.callAttributes (opts : Options) (d : Dialect) (s : Statement) : List Attribute :=
  ("db.statement", .text (opts.recordedSql d s)) ::
    (opts.recordedRows s).toList.map fun n => ("db.otel.rows_affected", .integer n.toInt64)

theorem Options.attributes_closingEdits (opts : Options) (d : Dialect) (s : Statement) :
    SpanEdit.attributes (opts.closingEdits d s) =
      opts.callAttributes d s ++ SpanEdit.attributes (opts.errorEdits s) := by
  have hrest := SpanEdit.attributes_append_finish (opts.errorEdits s)
  unfold closingEdits callAttributes
  rw [SpanEdit.attributes_cons (by simp)]
  cases opts.recordedRows s with
  | none => simp [SpanEdit.attribute?, hrest]
  | some n =>
    simp only [Option.toList_some, List.map_cons, List.map_nil, List.cons_append, List.nil_append]
    rw [rowsAttribute, SpanEdit.attributes_cons (by simp), hrest]
    rfl

theorem Options.finish_mem_closingEdits (opts : Options) (d : Dialect) (s : Statement) :
    .finish ∈ opts.closingEdits d s := by
  simp [closingEdits]

/-- The after hook's part in a span in progress: the span is edited, ended and let go of. -/
theorem Host.closeSpan_eq (opts : Options) {h : Host C σ} {s : Statement} {span : Context} {m : Nat}
    {r : SpanRecord} (hs : s.callState.span = some span) (hspan : span.record = some m)
    (hr : h.telemetry.records[m]? = some r) (hended : r.ended = false) :
    let r' := r.edited (opts.closingEdits h.database.dialect s)
    h.closeSpan opts s = { h with
      telemetry := { h.telemetry with
        records := h.telemetry.records.set m { r' with holders := r'.holders - 1 }
        exports := h.telemetry.exports ++ [m] } } := by
  intro r'
  have hm : m < h.telemetry.records.length := (List.getElem?_eq_some_iff.mp hr).1
  have hfinish := opts.finish_mem_closingEdits h.database.dialect s
  have hend : r'.ended = true := by
    simp [r', SpanRecord.ended_edited, hfinish]
  have hedit := Telemetry.editAll_eq hspan hr (opts.closingEdits h.database.dialect s)
  rw [if_pos ⟨hended, hfinish⟩] at hedit
  have hrelease := Telemetry.release_of_ended
    (t := { h.telemetry with
      records := h.telemetry.records.set m r'
      exports := h.telemetry.exports ++ [m] }) hspan (List.getElem?_set_self hm) hend
  simp only [closeSpan, hs, hedit, hrelease, List.set_set, r']

namespace UserCode

/-- From one state of a run to another, what belongs to tracing is left alone: the statement's
context and call state, the handle's name and dialect, the number of spans and all that is told of
those from position `m` on, the exports, and the reports of the after hook. -/
structure Leaves (m : Nat) (x y : Host C σ × Statement) : Prop where
  context : y.2.context = x.2.context
  callState : y.2.callState = x.2.callState
  name : y.1.database.name = x.1.database.name
  dialect : y.1.database.dialect = x.1.database.dialect
  count : y.1.telemetry.records.length = x.1.telemetry.records.length
  spans : y.1.telemetry.records.drop m = x.1.telemetry.records.drop m
  exports : y.1.telemetry.exports = x.1.telemetry.exports
  reports : y.1.log.filter LogEvent.isReport = x.1.log.filter LogEvent.isReport

theorem Leaves.refl (m : Nat) (x : Host C σ × Statement) : Leaves m x x :=
  ⟨rfl, rfl, rfl, rfl, rfl, rfl, rfl, rfl⟩

theorem Leaves.trans {m : Nat} {x y z : Host C σ × Statement} (h : Leaves m x y)
    (h' : Leaves m y z) : Leaves m x z where
  context := h'.context.trans h.context
  callState := h'.callState.trans h.callState
  name := h'.name.trans h.name
  dialect := h'.dialect.trans h.dialect
  count := h'.count.trans h.count
  spans := h'.spans.trans h.spans
  exports := h'.exports.trans h.exports
  reports := h'.reports.trans h.reports

/-- The users' hooks of the pipeline leave alone what belongs to tracing. -/
def Discreet (u : UserCode C σ) (m : Nat) (p : Pipeline (Hook C)) : Prop :=
  ∀ name anchor code, .hook name anchor (.custom code) ∈ p →
    ∀ h s, Leaves m (h, s) (u.hook code h s)

variable {u : UserCode C σ} {opts : Options} {o : Operation} {m : Nat}

theorem runBuiltin_leaves (u : UserCode C σ) (o : Operation) (m : Nat) (h : Host C σ)
    (s : Statement) : Leaves m (h, s) (u.runBuiltin o h s) := by
  obtain ⟨user, rows, error, heq⟩ := u.runBuiltin_eq o h s
  rw [heq]
  exact ⟨rfl, rfl, rfl, rfl, rfl, rfl, rfl, rfl⟩

theorem Discreet.runSteps_leaves {p q : Pipeline (Hook C)} (hu : u.Discreet m q)
    (hp : ∀ step ∈ p, step ∈ q ∧ step.isTracing = false) (o : Operation)
    (x : Host C σ × Statement) : Leaves m x (p.foldl (u.runStep o) x) := by
  induction p generalizing x with
  | nil => exact .refl m x
  | cons step p ih =>
    obtain ⟨⟨hmem, hstep⟩, hp⟩ := List.forall_mem_cons.mp hp
    refine Leaves.trans ?_ (ih hp (u.runStep o x step))
    cases step with
    | builtin o' => exact runBuiltin_leaves u o m x.1 x.2
    | hook name anchor hook =>
      cases hook with
      | spanBefore | spanAfter => cases hstep
      | custom code => exact hu name anchor code hmem x.1 x.2

theorem runStep_before (u : UserCode C σ) {x : Host C σ × Statement} {parent : Context}
    {label : String} (hc : x.2.context = some parent) (hp : parent.Sampling)
    (hl : opts.tracer.resolve x.1.telemetry = .recording label) :
    ∃ context outer ident, u.runStep o x (Stage.step opts ⟨o, .before⟩) =
      ({ x.1 with
          telemetry := Telemetry.releaseAll { x.1.telemetry with
            nextIdent := ident
            records := x.1.telemetry.records ++
              [⟨⟨label, tracerName, opts.spanName o, .client, context, outer⟩,
                x.1.spanAttributes, [], .unset, false, 1⟩] } x.2.callState.span.toList },
        { x.2 with
          callState := ⟨true, some ⟨some ⟨context, some x.1.telemetry.records.length⟩⟩⟩ }) := by
  obtain ⟨context, outer, hstart⟩ := x.1.telemetry.start_recording label hp (opts.spanName o)
    x.1.spanAttributes
  have hmap {β : Type} (f : Context → β) : x.2.context.map f = some (f parent) := by
    rw [hc, Option.map_some]
  refine ⟨context, outer, x.1.telemetry.nextIdent + 2, ?_⟩
  have hstep : u.runStep o x (Stage.step opts ⟨o, .before⟩) =
      (x.1.before opts (opts.spanName o) x.2).getD x := rfl
  rw [hstep, Host.before, hmap, Option.getD_some, hl, hstart]

theorem runStep_after (u : UserCode C σ) (opts : Options) (o : Operation)
    {x : Host C σ × Statement} {parent span : Context} {r : SpanRecord}
    (hc : x.2.context = some parent) (hs : x.2.callState = ⟨true, some span⟩)
    (hspan : span.record = some m) (hr : x.1.telemetry.records[m]? = some r)
    (hended : r.ended = false) :
    let r' := r.edited (opts.closingEdits x.1.database.dialect x.2)
    u.runStep o x (Stage.step opts ⟨o, .after⟩) =
      ({ x.1 with
          telemetry := { x.1.telemetry with
            records := x.1.telemetry.records.set m { r' with holders := r'.holders - 1 }
            exports := x.1.telemetry.exports ++ [m] }
          log := x.1.log ++ [(CallReport.mk .measured (opts.recordedSql x.1.database.dialect x.2)
            (opts.recordedRows x.2) true).event x.1.database.name] },
        { x.2 with callState := .empty }) := by
  intro r'
  have hstep : u.runStep o x (Stage.step opts ⟨o, .after⟩) =
      ((x.1.after opts x.2).map (·.2)).getD x := rfl
  have hmap {β : Type} (f : Context → β) : x.2.context.map f = some (f parent) := by
    rw [hc, Option.map_some]
  have hspan' : x.2.callState.span = some span := by rw [hs]
  rw [hstep, Host.after, hmap, Host.closeSpan_eq opts hspan' hspan hr hended]
  simp only [Option.map_some, Option.getD_some, Host.report, Host.logged, hs, Option.isSome_some,
    if_true, r']

/-- The state of a run in which the turn of the named step comes. -/
def reaching (u : UserCode C σ) (o : Operation) (name : String) (h : Host C σ) (s : Statement) :
    Host C σ × Statement :=
  u.runSteps o ((h.database.pipelines o).takeWhile (·.name ≠ name)) h s

theorem reaching_eq (u : UserCode C σ) {h : Host C σ} {l r : Pipeline (Hook C)}
    {step : Step (Hook C)} (hsound : (h.database.pipelines o).Sound o)
    (hp : h.database.pipelines o = l ++ step :: r) (s : Statement) :
    u.reaching o step.name h s = l.foldl (u.runStep o) (h, s) := by
  have hl : ∀ x ∈ l, decide (x.name ≠ step.name) = true := by
    intro x hx
    exact decide_eq_true (hsound.name_ne hp (List.mem_append_left r hx))
  rw [reaching, hp, List.takeWhile_append_of_pos hl, List.takeWhile_cons_of_neg (by simp),
    List.append_nil]
  rfl

theorem reaching_stage (u : UserCode C σ) {h : Host C σ} {l r : Pipeline (Hook C)} {stage : Stage}
    (hsound : (h.database.pipelines o).Sound o)
    (hp : h.database.pipelines o = l ++ stage.step opts :: r) (s : Statement) :
    u.reaching o stage.name h s = l.foldl (u.runStep o) (h, s) := by
  rw [← Stage.step_name (C := C) opts]
  exact reaching_eq u hsound hp s

/-- All there is to see of a run from `x` to `z`, if the after hook finds `y`: the record `r`. -/
structure OneSpan (opts : Options) (o : Operation) (label : String)
    (x y z : Host C σ × Statement) (r : SpanRecord) : Prop where
  started : z.1.telemetry.records.drop x.1.telemetry.records.length = [r]
  exported : z.1.telemetry.exports = x.1.telemetry.exports ++ [x.1.telemetry.records.length]
  ended : r.ended = true
  provider : r.provider = label
  client : r.scope = tracerName ∧ r.kind = .client
  name : r.name = opts.spanName o
  leading : (x.1.spanAttributes ++ opts.callAttributes x.1.database.dialect y.2) <+: r.attributes
  attributes : r.attributes = (x.1.spanAttributes ++ opts.callAttributes x.1.database.dialect y.2 ++
    SpanEdit.attributes (opts.errorEdits y.2)).take SpanRecord.attributeLimit
  reported : z.1.log.filter LogEvent.isReport = x.1.log.filter LogEvent.isReport ++
    [(CallReport.mk .measured (opts.recordedSql x.1.database.dialect y.2)
      (opts.recordedRows y.2) true).event x.1.database.name]
  cleared : z.2.callState = .empty

/-- In `y`, the span of the call that began in `x` is in progress, and `r` is its record. -/
structure InCall (opts : Options) (o : Operation) (label : String)
    (x y : Host C σ × Statement) (r : SpanRecord) : Prop where
  context : y.2.context = x.2.context
  callState : ∃ span, y.2.callState = ⟨true, some span⟩ ∧
    span.record = some x.1.telemetry.records.length
  databaseName : y.1.database.name = x.1.database.name
  dialect : y.1.database.dialect = x.1.database.dialect
  spans : y.1.telemetry.records.drop x.1.telemetry.records.length = [r]
  exports : y.1.telemetry.exports = x.1.telemetry.exports
  reports : y.1.log.filter LogEvent.isReport = x.1.log.filter LogEvent.isReport
  inProgress : r.ended = false
  provider : r.provider = label
  client : r.scope = tracerName ∧ r.kind = .client
  name : r.name = opts.spanName o
  attributes : r.attributes = x.1.spanAttributes

variable {x y z : Host C σ × Statement} {label : String} {r : SpanRecord}

theorem InCall.leaves (h : InCall opts o label x y r)
    (hz : Leaves x.1.telemetry.records.length y z) : InCall opts o label x z r where
  context := hz.context.trans h.context
  callState := hz.callState ▸ h.callState
  databaseName := hz.name.trans h.databaseName
  dialect := hz.dialect.trans h.dialect
  spans := hz.spans.trans h.spans
  exports := hz.exports.trans h.exports
  reports := hz.reports.trans h.reports
  inProgress := h.inProgress
  provider := h.provider
  client := h.client
  name := h.name
  attributes := h.attributes

theorem Leaves.inCall (h : Leaves x.1.telemetry.records.length x y) {parent : Context}
    (hs : x.2.callState = .empty) (hc : x.2.context = some parent) (hp : parent.Sampling)
    (hl : opts.tracer.resolve y.1.telemetry = .recording label) :
    ∃ r, InCall opts o label x (u.runStep o y (Stage.step opts ⟨o, .before⟩)) r := by
  obtain ⟨context, outer, ident, hstep⟩ :=
    runStep_before (o := o) u (h.context.trans hc) hp hl
  have hattributes : y.1.spanAttributes = x.1.spanAttributes := by
    rw [Host.spanAttributes, Host.spanAttributes, h.name, h.dialect]
  rw [hstep, h.callState, hs, h.count]
  exact ⟨_, h.context, ⟨_, rfl, rfl⟩, h.name, h.dialect, List.drop_left' h.count, h.exports,
    h.reports, rfl, rfl, ⟨rfl, rfl⟩, rfl, hattributes⟩

theorem length_leading (opts : Options) (h : Host C σ) (d : Dialect) (s : Statement) :
    (h.spanAttributes ++ opts.callAttributes d s).length ≤ SpanRecord.attributeLimit := by
  cases hrows : opts.recordedRows s <;>
    simp [Host.spanAttributes, Options.callAttributes, hrows, SpanRecord.attributeLimit]

theorem InCall.oneSpan (h : InCall opts o label x y r) {parent : Context}
    (hc : x.2.context = some parent) :
    ∃ r', OneSpan opts o label x y (u.runStep o y (Stage.step opts ⟨o, .after⟩)) r' := by
  obtain ⟨span, hstate, hspan⟩ := h.callState
  have hget : y.1.telemetry.records[x.1.telemetry.records.length]? = some r := by
    have hhead := congrArg (·[0]?) h.spans
    simpa [List.getElem?_drop] using hhead
  have hstep := runStep_after u opts o (h.context.trans hc) hstate hspan hget
    h.inProgress
  rw [h.dialect, h.databaseName] at hstep
  set edits := opts.closingEdits x.1.database.dialect y.2 with hedits
  have hbirth := r.birth_edited edits
  have hroom : r.attributes.length ≤ SpanRecord.attributeLimit := by
    simp [h.attributes, Host.spanAttributes, SpanRecord.attributeLimit]
  have hattributes : (r.edited edits).attributes = (x.1.spanAttributes ++
      opts.callAttributes x.1.database.dialect y.2 ++
        SpanEdit.attributes (opts.errorEdits y.2)).take SpanRecord.attributeLimit := by
    rw [SpanRecord.attributes_edited h.inProgress hroom, opts.attributes_closingEdits,
      ← List.append_assoc, h.attributes]
  refine ⟨{ r.edited edits with holders := (r.edited edits).holders - 1 }, ?_⟩
  rw [hstep]
  exact {
    started := by simp [List.drop_set, h.spans]
    exported := congrArg (· ++ _) h.exports
    ended := by simp [SpanRecord.ended_edited, hedits, opts.finish_mem_closingEdits]
    provider := (congrArg (·.provider) hbirth).trans h.provider
    client := ⟨(congrArg (·.scope) hbirth).trans h.client.1,
      (congrArg (·.kind) hbirth).trans h.client.2⟩
    name := (congrArg (·.name) hbirth).trans h.name
    leading := by
      rw [hattributes, List.take_append, List.take_of_length_le (length_leading ..)]
      exact List.prefix_append _ _
    attributes := hattributes
    reported := by
      rw [List.filter_append, h.reports]
      rfl
    cleared := rfl }

theorem OneSpan.leaves {w : Host C σ × Statement} (h : OneSpan opts o label x y z r)
    (hw : Leaves x.1.telemetry.records.length z w) : OneSpan opts o label x y w r :=
  { h with
    started := hw.spans.trans h.started
    exported := hw.exports.trans h.exported
    reported := hw.reports.trans h.reported
    cleared := hw.callState.trans h.cleared }

/-- Every run on an instrumented handle has one span, if its call is to be recorded. -/
theorem run_one_span {h : Host C σ} {s : Statement} {parent : Context}
    (hi : Pipelines.Instrumented σ opts h.database.pipelines)
    (hu : u.Discreet h.telemetry.records.length (h.database.pipelines o))
    (hs : s.callState = .empty) (hc : s.context = some parent) (hp : parent.Sampling)
    (hl : opts.tracer.resolve (u.reaching o (Stage.name ⟨o, .before⟩) h s).1.telemetry =
      .recording label) :
    ∃ r, OneSpan opts o label (h, s) (u.reaching o (Stage.name ⟨o, .after⟩) h s)
      (u.run o h s).2 r := by
  obtain ⟨l, m, r, hlayout⟩ := hi.equipped.layout o
  have hsteps : h.database.pipelines o = (l ++ Stage.step opts ⟨o, .before⟩ :: m) ++
      Stage.step opts ⟨o, .after⟩ :: r := by
    rw [hlayout.steps, List.append_assoc, List.cons_append]
  have hbefore := reaching_eq u (hi.equipped.sound o) hlayout.steps s
  have hafter := reaching_eq u (hi.equipped.sound o) hsteps s
  rw [Stage.step_name] at hbefore hafter
  have hothers : ∀ step ∈ l ++ m ++ r,
      step ∈ h.database.pipelines o ∧ step.isTracing = false := fun step hmem =>
    ⟨hlayout.subset hmem, hlayout.untraced step hmem⟩
  obtain ⟨hlm, hbehind⟩ := List.forall_mem_append.mp hothers
  obtain ⟨hahead, hbetween⟩ := List.forall_mem_append.mp hlm
  -- From hook to hook: what the plugin's hooks set up is left alone by the steps between them.
  have h₁ : Leaves (h, s).1.telemetry.records.length (h, s) (l.foldl (u.runStep o) (h, s)) :=
    hu.runSteps_leaves hahead o (h, s)
  obtain ⟨_, h₂⟩ := h₁.inCall (u := u) (o := o) hs hc hp (hbefore ▸ hl)
  have h₃ := h₂.leaves (hu.runSteps_leaves hbetween o _)
  obtain ⟨r', h₄⟩ := h₃.oneSpan (u := u) hc
  have h₅ := h₄.leaves (hu.runSteps_leaves hbehind o _)
  have hrun : (u.run o h s).2 = (h.database.pipelines o).foldl (u.runStep o) (h, s) := rfl
  refine ⟨r', ?_⟩
  rw [hafter, hrun, hsteps]
  simpa only [List.foldl_append, List.foldl_cons] using h₅

theorem screening_discreet (m : Nat) (p : Pipeline (Hook Bool)) : screening.Discreet m p := by
  intro name anchor code _ h s
  cases code <;> exact ⟨rfl, rfl, rfl, rfl, rfl, rfl, rfl, rfl⟩

def exporting : Options :=
  { Options.default with logResult := true, tracer := .provider (.recording "p") }

def rewritingHost : Host Bool Nat :=
  ⟨⟨"db", .mysql, Pipelines.initial.calls
    [.register .query (.before "db:query") "rewrite" (.custom false)], []⟩, .initial, [], 0⟩

/-- The plugin's hooks have one hook between them, and the hook from before is gone. -/
def exportingHost : Host Bool Nat :=
  { rewritingHost with
    database := { rewritingHost.database with
      pipelines := (rewritingHost.setUp (Tracing.setup exporting)).2.database.pipelines.calls
        [.register .query (.before "otel:after_query") "refuse" (.custom true),
          .remove .query "rewrite"] } }

theorem exportingHost_instrumented :
    Pipelines.Instrumented Nat exporting exportingHost.database.pipelines := by
  refine .setUp (h := rewritingHost) ?_ rfl (by decide) ?_
  · intro c hc
    obtain rfl := List.mem_singleton.mp hc
    exact .register ..
  · intro d hd
    rcases List.mem_pair.mp hd with rfl | rfl
    · exact ⟨.register .., fun stage he => by cases he⟩
    · refine ⟨.remove .., fun stage he => ?_⟩
      have hname : "rewrite" = stage.name := by injection he
      have hstage := stage.isName_name
      rw [← hname] at hstage
      revert hstage
      decide

def asked : Statement := .make (some .empty) "SELECT ?" [.null]

theorem run_one_span_refused :
    Pipelines.Instrumented Nat exporting exportingHost.database.pipelines ∧
      screening.Discreet 0 (exportingHost.database.pipelines .query) ∧
      ∃ r, OneSpan exporting .query "p" (exportingHost, asked)
        (screening.reaching .query "otel:after_query" exportingHost asked)
        (screening.run .query exportingHost asked).2 r := by
  have hi := exportingHost_instrumented
  have hu := screening_discreet 0 (exportingHost.database.pipelines .query)
  have hp : Context.empty.Sampling := fun a h => by cases h
  exact ⟨hi, hu, run_one_span hi hu rfl rfl hp rfl⟩

example : (screening.run .query exportingHost asked).2.1.telemetry.exported.map (·.attributes) =
    [[("db.system", .text "mysql"), ("db.name", .text "db"), ("db.statement", .text "SELECT NULL"),
      ("db.otel.rows_affected", .integer 1)]] := by rfl

end UserCode
end DatabaseTracing
