import DatabaseTracing.Database

/-! # Span hooks

The before hook starts a client span under the statement's context and leaves it,
with a note of the start, in the statement's call state. The after hook takes both
out again, puts the rendered SQL on the span, ends it and logs the call; what it
does not find it does without. Statements without a context are passed over.
-/
namespace DatabaseTracing

structure CallReport where
  /-- The time since the before hook ran; zero if it never did. -/
  elapsed : Elapsed
  sql : String
  rowsAffected : Option UInt64
  spanEnded : Bool
  deriving DecidableEq, Repr

def CallReport.event (r : CallReport) (database : String) : LogEvent where
  level := .debug
  component := .hooks
  message := "[db] statement finished"
  fields := [("name", .text database), ("cost", .duration r.elapsed), ("sql", .plain r.sql)]
    ++ r.rowsAffected.toList.map fun n => ("rows_affected", .count n.toNat)

namespace Options

def recordedSql (o : Options) (d : Dialect) (s : Statement) : String :=
  if o.logSqlParameters then d.explain s.sql s.vars else s.sql

def recordedRows (o : Options) (s : Statement) : Option UInt64 :=
  if o.logResult then some s.rowsAffected else none

/-- A row count on a span is a signed number; counts from 2^63 on wrap around. -/
def rowsAttribute (n : UInt64) : SpanEdit := .attribute "db.otel.rows_affected" (.integer n.toInt64)

/-- The statement's error on its span. A missing record is not a failure. -/
def errorEdits (o : Options) (s : Statement) : List SpanEdit :=
  match s.error with
  | some e => if e.isNotFound then [] else o.errorTag e
  | none => []

def closingEdits (o : Options) (d : Dialect) (s : Statement) : List SpanEdit :=
  .attribute "db.statement" (.text (o.recordedSql d s))
    :: ((o.recordedRows s).toList.map rowsAttribute ++ o.errorEdits s ++ [.finish])

end Options

namespace Host
variable {C σ : Type}

def spanAttributes (h : Host C σ) : List Attribute :=
  [("db.system", .text h.database.dialect.name), ("db.name", .text h.database.name)]

/-- The before hook. A span left over in the call state is let go once the new one has started. -/
def before (o : Options) (spanName : String) (h : Host C σ) (s : Statement) :
    Option (Host C σ × Statement) :=
  s.context.map fun parent =>
    let (cx, t) := h.telemetry.start (o.tracer.resolve h.telemetry) parent spanName h.spanAttributes
    ({ h with telemetry := t.releaseAll s.callState.span.toList },
      { s with callState := ⟨true, some cx⟩ })

def report (o : Options) (h : Host C σ) (s : Statement) : CallReport where
  elapsed := if s.callState.started then .measured else .zero
  sql := o.recordedSql h.database.dialect s
  rowsAffected := o.recordedRows s
  spanEnded := s.callState.span.isSome

/-- Ends the call's span, if there is one, and lets go of it. -/
def closeSpan (o : Options) (h : Host C σ) (s : Statement) : Host C σ :=
  match s.callState.span with
  | none => h
  | some cx =>
    { h with
      telemetry := (h.telemetry.editAll cx (o.closingEdits h.database.dialect s)).release cx }

/-- The after hook. The call is logged whether or not there was a span. -/
def after (o : Options) (h : Host C σ) (s : Statement) :
    Option (CallReport × Host C σ × Statement) :=
  s.context.map fun _ =>
    let r := h.report o s
    (r, (h.closeSpan o s).logged (r.event h.database.name), { s with callState := .empty })

end Host
end DatabaseTracing
