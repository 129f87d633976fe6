import DatabaseTracing.Proofs.Pipeline.Kinds
import DatabaseTracing.Proofs.Run.OneSpan

/-! # The status of a span and the result of its run

The after hook reads a statement's error at its turn, the run at its end. If nobody
changes the error in between, the span of the run has the status and the event that go
with the result: those of a failure, or none if the run succeeds or finds no record.
Where the error comes from and how often it has been replaced does not matter.
-/
namespace DatabaseTracing
variable {C σ : Type}

/-- The statement's error, unless it is a missing record. -/
def Statement.failure? (s : Statement) : Option DatabaseError := s.error.filter (!·.isNotFound)

theorem Statement.result_eq_error_iff {s : Statement} {e : DatabaseError} :
    s.result = .error e ↔ s.error = some e := by
  unfold result
  cases s.error <;> simp

theorem Statement.failure?_eq_some_iff {s : Statement} {e : DatabaseError} :
    s.failure? = some e ↔ s.result = .error e ∧ e ≠ .recordNotFound := by
  rw [failure?, Option.filter_eq_some_iff, result_eq_error_iff, ne_eq,
    ← DatabaseError.isNotFound_iff, Bool.not_eq_true', Bool.not_eq_true]

theorem Options.errorEdits_eq (opts : Options) (s : Statement) :
    opts.errorEdits s = s.failure?.toList.flatMap opts.errorTag := by
  unfold errorEdits Statement.failure?
  cases s.error with
  | none => rfl
  | some e => cases he : e.isNotFound <;> simp [Option.filter, he]

def DatabaseError.exception (e : DatabaseError) : SpanEvent :=
  ⟨"exception", [("exception.message", .text e.message)]⟩

namespace SpanRecord
variable {r : SpanRecord} {result : Except DatabaseError UInt64}

/-- The span tells the result of its run: a failure by the status and one event, anything else by
neither. Failures that have the same text look alike. -/
structure Tells (r : SpanRecord) (result : Except DatabaseError UInt64) : Prop where
  status : ∀ text, r.status = .error text ↔
    ∃ e, result = .error e ∧ e ≠ .recordNotFound ∧ e.message = text
  events : ∀ event, r.events = [event] ↔
    ∃ e, result = .error e ∧ e ≠ .recordNotFound ∧ e.exception = event
  nothing : (∀ e, result = .error e → e = .recordNotFound) → r.status = .unset ∧ r.events = []

theorem tells_of_failure {s : Statement}
    (hstatus : r.status = s.failure?.elim .unset fun e => .error e.message)
    (hevents : r.events = s.failure?.toList.map DatabaseError.exception) : r.Tells s.result := by
  have hfailure (P : DatabaseError → Prop) :
      (∃ e, s.result = .error e ∧ e ≠ .recordNotFound ∧ P e) ↔ ∃ e, s.failure? = some e ∧ P e := by
    simp only [Statement.failure?_eq_some_iff, and_assoc]
  refine ⟨fun text => ?_, fun event => ?_, fun hresult => ?_⟩
  · rw [hfailure, hstatus]
    cases s.failure? <;> simp
  · rw [hfailure, hevents]
    cases s.failure? <;> simp
  · have hnone : s.failure? = none := by
      refine Option.eq_none_iff_forall_ne_some.mpr fun e he => ?_
      obtain ⟨herror, hfound⟩ := Statement.failure?_eq_some_iff.mp he
      exact hfound (hresult e herror)
    rw [hstatus, hevents, hnone]
    exact ⟨rfl, rfl⟩

theorem Tells.congr {result' : Except DatabaseError UInt64} (h : r.Tells result)
    (he : ∀ e, result' = .error e ↔ result = .error e) : r.Tells result' where
  status := by simpa only [he] using h.status
  events := by simpa only [he] using h.events
  nothing := by simpa only [he] using h.nothing

end SpanRecord

/-- There is room for one event on a span that has none. -/
theorem DatabaseError.appendUpTo_exception (e : DatabaseError) :
    appendUpTo SpanRecord.eventLimit [] e.exception.clipped = [e.exception] := rfl

/-- The standard tag, once the span ends. -/
theorem Options.edited_closingEdits {opts : Options} (htag : opts.errorTag = .standard)
    {r : SpanRecord} (hr : r.ended = false) (hevents : r.events = []) (d : Dialect)
    (s : Statement) :
    (r.edited (opts.closingEdits d s)).status =
        s.failure?.elim r.status (fun e => r.status.raise (.error e.message)) ∧
      (r.edited (opts.closingEdits d s)).events =
        s.failure?.toList.map DatabaseError.exception := by
  have hexception (e : DatabaseError) :
      opts.errorTag e = [.event e.exception, .status (.error e.message)] := by rw [htag]; rfl
  rw [closingEdits, errorEdits_eq]
  cases opts.recordedRows s <;> cases s.failure? <;>
    simp [SpanRecord.edited, SpanRecord.apply, DatabaseError.appendUpTo_exception, hr, hevents,
      rowsAttribute, hexception]

theorem Pipelines.Equipped.wellFormed {ps : Pipelines (Hook C)} {opts : Options}
    (h : Equipped σ opts ps) : ps.WellFormed := by
  obtain ⟨cs, _, rfl⟩ := h.eq_calls
  exact wellFormed_calls cs

theorem Pipelines.WellFormed.eq_of_mem {ps : Pipelines (Hook C)} (h : ps.WellFormed)
    {o o' : Operation} (hmem : .builtin o' ∈ ps o) : o' = o := by
  have hfilter : .builtin o' ∈ (ps o).filter Step.isBuiltin := List.mem_filter.mpr ⟨hmem, rfl⟩
  rw [h.builtins o, List.mem_singleton] at hfilter
  exact Step.builtin.inj hfilter

namespace UserCode
variable {u : UserCode C σ} {o : Operation} {opts : Options} {i : Nat} {h : Host C σ}
  {s : Statement} {l q r : Pipeline (Hook C)}

/-- From one state of a run to another, nobody touches the statement's context, its call state or
the span recorded at `i`. Other spans may come and go, and so may errors. -/
structure Apart (i : Nat) (x y : Host C σ × Statement) : Prop where
  context : y.2.context = x.2.context
  callState : y.2.callState = x.2.callState
  span : x.1.telemetry.SameAt i y.1.telemetry

theorem Apart.refl (i : Nat) (x : Host C σ × Statement) : Apart i x x := ⟨rfl, rfl, .refl i _⟩

theorem Apart.trans {x y z : Host C σ × Statement} (h : Apart i x y) (h' : Apart i y z) :
    Apart i x z :=
  ⟨h'.context.trans h.context, h'.callState.trans h.callState, h.span.trans h'.span⟩

/-- In a run, the users' hook of that name finds the one state and leaves the other. -/
inductive HookTurn (u : UserCode C σ) (o : Operation) (h : Host C σ) (s : Statement) :
    String → Host C σ × Statement → Host C σ × Statement → Prop
  | intro {name : String} {anchor : Option String} {code : C}
      (hmem : .hook name anchor (.custom code) ∈ h.database.pipelines o) :
      HookTurn u o h s name (u.reaching o name h s)
        (u.hook code (u.reaching o name h s).1 (u.reaching o name h s).2)

/-- What tracing hooks keep and users' hooks keep at their turns, every hook of the run keeps. -/
theorem runStep_at_turn {P : Host C σ × Statement → Host C σ × Statement → Prop}
    {step : Step (Hook C)} (hmem : step ∈ h.database.pipelines o) (hhook : step.isBuiltin = false)
    (htracing : ∀ x y, Alike y x → P x y)
    (hturn : ∀ x y, u.HookTurn o h s step.name x y → P x y) :
    P (u.reaching o step.name h s) (u.runStep o (u.reaching o step.name h s) step) := by
  cases step with
  | builtin o' => cases hhook
  | hook name anchor hook =>
    cases hook with
    | spanBefore | spanAfter => exact htracing _ _ (runStep_tracing_alike u o _ rfl)
    | custom code => exact hturn _ _ (.intro hmem)

/-- What the driver keeps and users' hooks keep at their turns, every step that is no tracing hook
keeps. -/
theorem runStep_untraced {P : Host C σ × Statement → Host C σ × Statement → Prop}
    {step : Step (Hook C)} (hmem : step ∈ h.database.pipelines o) (hstep : step.isTracing = false)
    (hbuiltin : ∀ x, P x (u.runBuiltin o x.1 x.2))
    (hturn : ∀ x y, u.HookTurn o h s step.name x y → P x y) :
    P (u.reaching o step.name h s) (u.runStep o (u.reaching o step.name h s) step) := by
  cases step with
  | builtin o' => exact hbuiltin _
  | hook name anchor hook =>
    cases hook with
    | spanBefore | spanAfter => cases hstep
    | custom code => exact hturn _ _ (.intro hmem)

/-- In a run, users' hooks behind the step of that name leave the error as they find it. -/
def LeavesError (u : UserCode C σ) (o : Operation) (h : Host C σ) (s : Statement)
    (name : String) : Prop :=
  ∀ hook x y, u.HookTurn o h s hook x y → (h.database.pipelines o).Ahead name hook →
    y.2.error = x.2.error

/-- What every step keeps at its turn, a stretch of the run keeps. -/
theorem runSteps_along {R : Host C σ × Statement → Host C σ × Statement → Prop}
    (hrefl : ∀ x, R x x) (htrans : ∀ {x y z}, R x y → R y z → R x z)
    (hsound : (h.database.pipelines o).Sound o) (hp : h.database.pipelines o = l ++ q ++ r)
    (hstep : ∀ step ∈ q, R (u.reaching o step.name h s)
      (u.runStep o (u.reaching o step.name h s) step)) :
    R (l.foldl (u.runStep o) (h, s)) ((l ++ q).foldl (u.runStep o) (h, s)) := by
  induction q generalizing l with
  | nil =>
    rw [List.append_nil]
    exact hrefl _
  | cons step q ih =>
    obtain ⟨hhead, hstep⟩ := List.forall_mem_cons.mp hstep
    have hturn : h.database.pipelines o = l ++ step :: (q ++ r) := by
      rw [hp, List.append_assoc, List.cons_append]
    rw [reaching_eq u hsound hturn] at hhead
    have hrest := ih (l := l ++ [step]) (by rw [hturn, List.append_assoc, List.append_assoc]; rfl)
      hstep
    rw [List.foldl_concat, List.append_assoc, List.singleton_append] at hrest
    exact htrans hhead hrest

/-- What the steps behind a step keep, the rest of the run keeps. -/
theorem run_along {R : Host C σ × Statement → Host C σ × Statement → Prop}
    (hrefl : ∀ x, R x x) (htrans : ∀ {x y z}, R x y → R y z → R x z)
    (hsound : (h.database.pipelines o).Sound o) {step : Step (Hook C)}
    (hp : h.database.pipelines o = l ++ step :: r)
    (hstep : ∀ next ∈ r, R (u.reaching o next.name h s)
      (u.runStep o (u.reaching o next.name h s) next)) :
    R (u.runStep o (l.foldl (u.runStep o) (h, s)) step) (u.run o h s).2 := by
  have hstretch : h.database.pipelines o = (l ++ [step]) ++ r ++ [] := by
    rw [hp, List.append_nil, List.append_assoc, List.singleton_append]
  have hkept := runSteps_along hrefl htrans hsound hstretch hstep
  rw [← List.append_nil (l ++ [step] ++ r), ← hstretch, List.foldl_concat] at hkept
  exact hkept

theorem runBuiltin_apart (u : UserCode C σ) (o : Operation) (i : Nat) (x : Host C σ × Statement) :
    Apart i x (u.runBuiltin o x.1 x.2) := by
  obtain ⟨user, rows, error, heq⟩ := u.runBuiltin_eq o x.1 x.2
  rw [heq]
  exact ⟨rfl, rfl, .refl i _⟩

theorem runSteps_apart (hu : ∀ name x y, u.HookTurn o h s name x y → Apart i x y)
    (hsound : (h.database.pipelines o).Sound o) (hp : h.database.pipelines o = l ++ q ++ r)
    (hq : ∀ step ∈ q, step.isTracing = false) :
    Apart i (l.foldl (u.runStep o) (h, s)) ((l ++ q).foldl (u.runStep o) (h, s)) := by
  refine runSteps_along (.refl i) .trans hsound hp fun step hmem => ?_
  have hin : step ∈ h.database.pipelines o := by simp [hp, hmem]
  exact runStep_untraced hin (hq step hmem) (runBuiltin_apart u o i) (hu _)

/-- An error stays to the end of the run if the hooks that are still to come leave it. -/
theorem LeavesError.run_error {step : Step (Hook C)} (hu : u.LeavesError o h s step.name)
    (hps : h.database.pipelines.WellFormed) (hsound : (h.database.pipelines o).Sound o)
    (hp : h.database.pipelines o = l ++ step :: r)
    (hdriver : ¬ (h.database.pipelines o).Ahead step.name o.builtinStep) :
    (u.run o h s).2.2.error = (u.runStep o (u.reaching o step.name h s) step).2.error := by
  have hkept := run_along (u := u) (s := s) (R := fun x y => y.2.error = x.2.error)
    (fun _ => rfl) (fun hxy hyz => hyz.trans hxy) hsound hp fun next hmem => ?_
  · rw [reaching_eq u hsound hp]
    exact hkept
  · have hin : next ∈ h.database.pipelines o := by simp [hp, hmem]
    have hbehind : (h.database.pipelines o).Ahead step.name next.name := by
      rw [hp]
      exact Pipeline.ahead_append_cons l step (List.mem_map_of_mem hmem)
    have hhook : next.isBuiltin = false := by
      cases next with
      | hook => rfl
      | builtin o' =>
        -- The driver sets an error itself, so it must not be among the steps to come.
        obtain rfl := hps.eq_of_mem hin
        exact absurd hbehind hdriver
    refine runStep_at_turn hin hhook (fun _ _ halike => halike.statement.error) ?_
    exact fun _ _ hturn => hu _ _ _ hturn hbehind

/-- In `y`, the span at `i` is the call's; it is in progress, and nothing is told of the result. -/
structure Awaiting (opts : Options) (o : Operation) (label : String) (i : Nat)
    (x y : Host C σ × Statement) (span : SpanRecord) : Prop where
  context : y.2.context = x.2.context
  callState : ∃ cx, y.2.callState = ⟨true, some cx⟩ ∧ cx.record = some i
  record : y.1.telemetry.records[i]? = some span
  exports : y.1.telemetry.exports.count i = x.1.telemetry.exports.count i
  inProgress : span.ended = false
  provider : span.provider = label
  name : span.name = opts.spanName o
  status : span.status = .unset
  events : span.events = []

/-- From `x` to `z`, the span at `i` has been exported, once and with the operation's name. -/
structure Exported (opts : Options) (o : Operation) (label : String) (i : Nat)
    (x z : Host C σ × Statement) (span : SpanRecord) : Prop where
  record : z.1.telemetry.records[i]? = some span
  exports : z.1.telemetry.exports.count i = x.1.telemetry.exports.count i + 1
  ended : span.ended = true
  provider : span.provider = label
  name : span.name = opts.spanName o

variable {x y z : Host C σ × Statement} {label : String} {span : SpanRecord}

theorem Apart.awaiting {parent : Context} (h : Apart y.1.telemetry.records.length x y)
    (hs : ∀ cx ∈ x.2.callState.span, ∀ j ∈ cx.record, j < x.1.telemetry.records.length)
    (hc : x.2.context = some parent) (hp : parent.Sampling)
    (hl : opts.tracer.resolve y.1.telemetry = .recording label) :
    ∃ span, Awaiting opts o label y.1.telemetry.records.length x
      (u.runStep o y (Stage.step opts ⟨o, .before⟩)) span := by
  obtain ⟨context, outer, ident, hstep⟩ :=
    runStep_before (o := o) u (h.context.trans hc) hp hl
  -- The span left over in the call state is an older one, so letting it go does no harm.
  have hold : ∀ cx ∈ y.2.callState.span.toList, cx.record ≠ some y.1.telemetry.records.length := by
    intro cx hcx hrecord
    rw [h.callState, Option.mem_toList] at hcx
    have hlt := hs cx hcx _ hrecord
    have hle := h.span.count
    omega
  have hsame := Telemetry.releaseAll_sameAt hold { y.1.telemetry with
    nextIdent := ident
    records := y.1.telemetry.records ++
      [⟨⟨label, tracerName, opts.spanName o, .client, context, outer⟩, y.1.spanAttributes, [],
        .unset, false, 1⟩] }
  rw [hstep]
  exact ⟨_, {
    context := h.context
    callState := ⟨_, rfl, rfl⟩
    record := hsame.record.trans (List.getElem?_concat_length ..)
    exports := hsame.exports.trans h.span.exports
    inProgress := rfl
    provider := rfl
    name := rfl
    status := rfl
    events := rfl }⟩

theorem Awaiting.apart (h : Awaiting opts o label i x y span) (hz : Apart i y z) :
    Awaiting opts o label i x z span :=
  { h with
    context := hz.context.trans h.context
    callState := hz.callState ▸ h.callState
    record := hz.span.record.trans h.record
    exports := hz.span.exports.trans h.exports }

theorem Awaiting.exported (h : Awaiting opts o label i x y span) {parent : Context}
    (hc : x.2.context = some parent) (htag : opts.errorTag = .standard) :
    ∃ span, Exported opts o label i x (u.runStep o y (Stage.step opts ⟨o, .after⟩)) span ∧
      span.Tells y.2.result := by
  obtain ⟨cx, hstate, hrecord⟩ := h.callState
  have hstep := runStep_after u opts o (h.context.trans hc) hstate hrecord h.record h.inProgress
  set edits := opts.closingEdits y.1.database.dialect y.2 with hedits
  obtain ⟨hstatus, hevents⟩ := opts.edited_closingEdits htag h.inProgress h.events
    y.1.database.dialect y.2
  have hbirth := span.birth_edited edits
  have hi : i < y.1.telemetry.records.length := (List.getElem?_eq_some_iff.mp h.record).1
  rw [h.status] at hstatus
  refine ⟨{ span.edited edits with holders := (span.edited edits).holders - 1 }, ?_,
    SpanRecord.tells_of_failure hstatus hevents⟩
  rw [hstep]
  exact {
    record := List.getElem?_set_self hi
    exports := by rw [List.count_append, h.exports, List.count_singleton_self]
    ended := by simp [SpanRecord.ended_edited, hedits, opts.finish_mem_closingEdits]
    provider := (congrArg (·.provider) hbirth).trans h.provider
    name := (congrArg (·.name) hbirth).trans h.name }

theorem Exported.apart (h : Exported opts o label i x y span) (hz : Apart i y z) :
    Exported opts o label i x z span :=
  { h with
    record := hz.span.record.trans h.record
    exports := hz.span.exports.trans h.exports }

theorem exists_exported {parent : Context} (he : Pipelines.Equipped σ opts h.database.pipelines)
    (htag : opts.errorTag = .standard) (hc : s.context = some parent) (hp : parent.Sampling)
    (hl : opts.tracer.resolve (u.reaching o (Stage.name ⟨o, .before⟩) h s).1.telemetry =
      .recording label)
    (hs : ∀ cx ∈ s.callState.span, ∀ j ∈ cx.record, j < h.telemetry.records.length)
    (hi : (u.reaching o (Stage.name ⟨o, .before⟩) h s).1.telemetry.records.length = i)
    (hu : ∀ name x y, u.HookTurn o h s name x y → Apart i x y) :
    ∃ span, Exported opts o label i (h, s) (u.run o h s).2 span ∧
      span.Tells (u.reaching o (Stage.name ⟨o, .after⟩) h s).2.result := by
  obtain ⟨l, m, r, hlayout⟩ := he.layout o
  have hsound := he.sound o
  set before : Step (Hook C) := Stage.step opts ⟨o, .before⟩
  set after : Step (Hook C) := Stage.step opts ⟨o, .after⟩
  have hfirst : h.database.pipelines o = l ++ before :: (m ++ after :: r) := hlayout.steps
  have hsecond : h.database.pipelines o = l ++ [before] ++ m ++ after :: r := by
    simp only [hfirst, List.append_assoc, List.cons_append, List.nil_append]
  have hthird : h.database.pipelines o = l ++ [before] ++ m ++ [after] ++ r := by
    simp only [hsecond, List.append_assoc, List.cons_append, List.nil_append]
  have hbefore := reaching_stage u hsound hfirst s
  have hafter := reaching_stage u hsound hsecond s
  have hrun : (u.run o h s).2 = (l ++ [before] ++ m ++ [after] ++ r).foldl (u.runStep o) (h, s) :=
    congrArg (List.foldl (u.runStep o) (h, s)) hthird
  rw [hbefore] at hl hi
  subst hi
  obtain ⟨hlm, hlast⟩ := List.forall_mem_append.mp hlayout.untraced
  obtain ⟨hahead, hbetween⟩ := List.forall_mem_append.mp hlm
  -- The span is started, left alone, told the result, and left alone to the end.
  have h₁ := runSteps_apart (l := []) hu hsound hfirst hahead
  obtain ⟨_, h₂⟩ := h₁.awaiting (u := u) (o := o) hs hc hp hl
  have hm := runSteps_apart hu hsound hsecond hbetween
  rw [List.foldl_concat] at hm
  obtain ⟨span, h₃, htells⟩ := (h₂.apart hm).exported (u := u) hc htag
  have hr := runSteps_apart (r := []) hu hsound (hthird.trans (List.append_nil _).symm) hlast
  rw [List.foldl_concat] at hr
  rw [hrun, hafter]
  exact ⟨span, h₃.apart hr, htells⟩

/-- The result is the one the after hook finds, if the hooks behind it leave the error. -/
theorem LeavesError.run_eq_error_iff (hu : u.LeavesError o h s (Stage.name ⟨o, .after⟩))
    (he : Pipelines.Equipped σ opts h.database.pipelines) (e : DatabaseError) :
    (u.run o h s).1 = .error e ↔
      (u.reaching o (Stage.name ⟨o, .after⟩) h s).2.result = .error e := by
  have hplaced := he.placed ⟨o, .after⟩
  have hnot := (he.sound o).not_ahead hplaced.beside
  obtain ⟨l, r, hp⟩ := List.append_of_mem hplaced.mem
  rw [← Stage.step_name (C := C) opts] at hu hnot ⊢
  have hrun := hu.run_error he.wellFormed (he.sound o) hp hnot
  have htracing : (Stage.step opts ⟨o, .after⟩ : Step (Hook C)).isTracing = true := rfl
  have hturn := (runStep_tracing_alike u o
    (u.reaching o (Stage.step (C := C) opts ⟨o, .after⟩).name h s) htracing).statement.error
  rw [Statement.result_eq_error_iff, ← hturn, ← hrun]
  exact Statement.result_eq_error_iff

/-- An error of the driver is the run's, if the hooks behind the driver leave it. -/
theorem LeavesError.run_driver_error (hu : u.LeavesError o h s o.builtinStep)
    (hps : h.database.pipelines.WellFormed) (hsound : (h.database.pipelines o).Sound o)
    {e : DatabaseError} (hnone : (u.reaching o o.builtinStep h s).2.error = none)
    (hdriver : (u.driver o (u.reaching o o.builtinStep h s).2
      (u.reaching o o.builtinStep h s).1.user).1 = .error e) : (u.run o h s).1 = .error e := by
  obtain ⟨l, r, hp⟩ := List.append_of_mem hsound.builtin
  have hself : ¬ (h.database.pipelines o).Ahead o.builtinStep o.builtinStep :=
    fun hb => hsound.not_ahead hb hb
  have hu : u.LeavesError o h s (Step.builtin o : Step (Hook C)).name := hu
  have hrun := hu.run_error hps hsound hp hself
  have hstep : (u.runBuiltin o (u.reaching o o.builtinStep h s).1
      (u.reaching o o.builtinStep h s).2).2.error = some e := by
    rw [runBuiltin, hnone]
    simp only [Option.isSome_none, Bool.false_eq_true, if_false, hdriver]
  exact Statement.result_eq_error_iff.mpr (hrun.trans hstep)

theorem span_tells_result {parent : Context}
    (he : Pipelines.Equipped σ opts h.database.pipelines) (htag : opts.errorTag = .standard)
    (hc : s.context = some parent) (hp : parent.Sampling)
    (hl : opts.tracer.resolve (u.reaching o (Stage.name ⟨o, .before⟩) h s).1.telemetry =
      .recording label)
    (hs : ∀ cx ∈ s.callState.span, ∀ j ∈ cx.record, j < h.telemetry.records.length)
    (hi : (u.reaching o (Stage.name ⟨o, .before⟩) h s).1.telemetry.records.length = i)
    (hu : ∀ name x y, u.HookTurn o h s name x y → Apart i x y)
    (hafter : u.LeavesError o h s (Stage.name ⟨o, .after⟩)) :
    (∃ span, Exported opts o label i (h, s) (u.run o h s).2 span ∧
        span.Tells (u.run o h s).1) ∧
      (let x := u.reaching o o.builtinStep h s
       x.2.error = none → (u.driver o x.2 x.1.user).1 = .error .recordNotFound →
        u.LeavesError o h s o.builtinStep → (u.run o h s).1 = .error .recordNotFound) := by
  obtain ⟨span, hexported, htells⟩ := exists_exported he htag hc hp hl hs hi hu
  have hresult := hafter.run_eq_error_iff he
  refine ⟨⟨span, hexported, htells.congr hresult⟩, ?_⟩
  intro x hnone hdriver hkept
  exact hkept.run_driver_error he.wellFormed (he.sound o) hnone hdriver

/-- A hook puts its own error in the place of the statement's, or takes that away. The driver finds
no record. -/
def overruling : UserCode (Option DatabaseError) Unit where
  hook code h s := (h, { s with error := code })
  driver _ _ x := (.error .recordNotFound, x)

def tracedHost : Host (Option DatabaseError) Unit :=
  (Host.mk (.create "db" .mysql) .initial [] ()).setUp (Tracing.setup exporting) |>.2

def overruledHost (position : Position) (code : Option DatabaseError) :
    Host (Option DatabaseError) Unit :=
  { tracedHost with
    database := { tracedHost.database with
      pipelines := tracedHost.database.pipelines.calls
        [.register .query position "overrule" (.custom code)] } }

variable {position : Position} {code : Option DatabaseError} {name : String}

theorem overruledHost_equipped :
    Pipelines.Equipped Unit exporting (overruledHost position code).database.pipelines := by
  have hnone : ∀ c ∈ ([] : List (Pipelines.Call (Hook (Option DatabaseError)))), c.Usual := by simp
  refine .setUp (h := ⟨.create "db" .mysql, .initial, [], ()⟩) hnone rfl (by decide) ?_
  intro d hd
  obtain rfl := List.mem_singleton.mp hd
  exact ⟨.inl (.register ..), fun stage he => by cases he⟩

theorem overruling_apart (i : Nat) {x y : Host (Option DatabaseError) Unit × Statement}
    {h : Host (Option DatabaseError) Unit} (hturn : overruling.HookTurn o h s name x y) :
    Apart i x y := by
  cases hturn with
  | intro hmem => exact ⟨rfl, rfl, .refl i _⟩

theorem overruledHost_leavesError
    (hname : ¬ ((overruledHost position code).database.pipelines .query).Ahead name "overrule") :
    overruling.LeavesError .query (overruledHost position code) s name := by
  intro hook x y hturn hahead
  cases hturn with
  | @intro anchor code' hmem =>
    have hcalled : .hook hook anchor (.custom code') ∈ tracedHost.database.pipelines.call
        (.register .query position "overrule" (.custom code)) .query := hmem
    rcases Pipelines.mem_call_cases hcalled with hold | ⟨_, _, _, hcall, hnew⟩
    · have htraced : tracedHost.database.pipelines .query =
          [Stage.step exporting ⟨.query, .before⟩, .builtin .query,
            Stage.step exporting ⟨.query, .after⟩] := rfl
      rw [htraced] at hold
      simp [Stage.step, Pipeline.newStep, Stage.position, Stage.hook] at hold
    · cases hcall
      have hhook : hook = "overrule" := (congrArg Step.name hnew).trans (Pipeline.newStep_name ..)
      exact absurd (hhook ▸ hahead) hname

/-- The caller's error is taken away ahead of the driver, and the missing record is passed on. -/
theorem span_tells_result_resumed :
    let h := overruledHost (.before "db:query") none
    let s := { Statement.make (some .empty) "SELECT 1" [] with error := some (.query "stale") }
    Pipelines.Equipped Unit exporting h.database.pipelines ∧
      overruling.LeavesError .query h s (Stage.name ⟨.query, .after⟩) ∧
      (∃ span, Exported exporting .query "p" 0 (h, s) (overruling.run .query h s).2 span ∧
        span.Tells (overruling.run .query h s).1) ∧
      (overruling.run .query h s).1 = .error .recordNotFound := by
  intro h s
  have he : Pipelines.Equipped Unit exporting h.database.pipelines := overruledHost_equipped
  have hafter : overruling.LeavesError .query h s (Stage.name ⟨.query, .after⟩) :=
    overruledHost_leavesError (by decide)
  have hdriver : overruling.LeavesError .query h s Operation.query.builtinStep :=
    overruledHost_leavesError (by decide)
  have hp : Context.empty.Sampling := fun a ha => by cases ha
  obtain ⟨htells, hfound⟩ := span_tells_result (i := 0) he rfl rfl hp rfl
    (fun cx hcx => by cases hcx) rfl (fun _ _ _ hturn => overruling_apart 0 hturn) hafter
  exact ⟨he, hafter, htells, hfound rfl rfl hdriver⟩

/-- A hook between the driver and the after hook can keep a missing record from the caller. -/
theorem missing_record_withheld :
    let h := overruledHost (.before "otel:after_query") none
    let s := Statement.make (some .empty) "SELECT 1" []
    Pipelines.Equipped Unit exporting h.database.pipelines ∧
      (∀ i name x y, overruling.HookTurn .query h s name x y → Apart i x y) ∧
      overruling.LeavesError .query h s (Stage.name ⟨.query, .after⟩) ∧
      (∃ span, Exported exporting .query "p" 0 (h, s) (overruling.run .query h s).2 span) ∧
      (let x := overruling.reaching .query "db:query" h s
       x.2.error = none ∧ (overruling.driver .query x.2 x.1.user).1 = .error .recordNotFound) ∧
      (overruling.run .query h s).1 = .ok 0 := by
  intro h s
  have he : Pipelines.Equipped Unit exporting h.database.pipelines := overruledHost_equipped
  have hp : Context.empty.Sampling := fun a ha => by cases ha
  obtain ⟨span, hexported, -⟩ := exists_exported (u := overruling) (o := .query) (s := s) (i := 0) he
    rfl rfl hp rfl (fun cx hcx => by cases hcx) rfl fun _ _ _ hturn => overruling_apart 0 hturn
  exact ⟨he, fun i _ _ _ hturn => overruling_apart i hturn, overruledHost_leavesError (by decide),
    ⟨span, hexported⟩, ⟨rfl, rfl⟩, rfl⟩

example : (overruling.run .query (overruledHost (.before "otel:after_query") (some (.query "lost")))
    (.make (some .empty) "SELECT 1" [])).2.1.telemetry.exported.map SpanRecord.status =
      [.error "Query execution failed: lost"] := by rfl

end UserCode
end DatabaseTracing
