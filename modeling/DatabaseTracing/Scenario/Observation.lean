import DatabaseTracing.Fleet
import DatabaseTracing.Scenario.Script

/-! # Observations

What a command has brought about is the part by which the journal, the exports and
the log have grown.
-/
namespace DatabaseTracing.Scenario

abbrev ScriptedFleet := Fleet HookScript Bench

structure Observation where
  notes : List Note
  /-- Grouped by provider; within one provider in order of export. -/
  spans : List SpanRecord
  logs : List LogEvent

def observe (old new : ScriptedFleet) : Observation where
  notes := new.user.journal.drop old.user.journal.length
  spans := (new.telemetry.exported.drop old.telemetry.exported.length).mergeSort
    fun a b => a.provider ≤ b.provider
  logs := new.log.drop old.log.length

/-- The trace of a span, if it was begun elsewhere. A span is recorded in the trace of no identifier
only if its parent was received with that. -/
def traceText (r : SpanRecord) : Option String :=
  match r.context.trace with
  | .zero => some (String.ofList (List.replicate 32 '0'))
  | .remote hex => some hex
  | .fresh _ => none

/-- The parent of an exported span: a span from elsewhere by its identifiers, one that was started
on a statement by the statement's name. -/
def parentText (labels : List (Ident × String)) (r : SpanRecord) : Option String :=
  match r.parent with
  | .zero => none
  | .remote span => (traceText r).map fun trace => trace ++ ":" ++ span
  | parent =>
    match labels.lookup parent with
    | some id => some ("stmt:" ++ id)
    | none => some "unlabelled"

end DatabaseTracing.Scenario
