import DatabaseTracing.Telemetry.Span

/-! # The span store

Recorded spans are kept in the order in which they were started, and exported in
the order in which they end. A span ends when it is told to, or else when its
last holder lets go of it.
-/
namespace DatabaseTracing

/-- Where spans are made: a provider that records nothing, or one that exports under a label. -/
inductive Provider where
  | noop
  | recording (label : String)
  deriving DecidableEq, Repr

def tracerName : String := "percolate-sqltrace"

structure Telemetry where
  records : List SpanRecord
  exports : List Nat
  globalProvider : Provider
  nextIdent : Nat
  deriving DecidableEq

namespace Telemetry

def initial : Telemetry := ⟨[], [], .noop, 0⟩

/-- Another provider is in force from now on. Spans in progress stay with theirs. -/
def setGlobal (t : Telemetry) (p : Provider) : Telemetry := { t with globalProvider := p }

def inProgress (t : Telemetry) (i : Nat) : Bool := t.records[i]?.any fun r => !r.ended

/-- An edit of a record that has ended changes nothing; ending a record exports it. -/
def editRecord (t : Telemetry) (i : Nat) (e : SpanEdit) : Telemetry :=
  if t.inProgress i then
    { t with
      records := t.records.modify i (·.apply e)
      exports := if e = .finish then t.exports ++ [i] else t.exports }
  else t

def edit (t : Telemetry) (c : Context) (e : SpanEdit) : Telemetry :=
  match c.record with
  | none => t
  | some i => t.editRecord i e

def editAll (t : Telemetry) (c : Context) (es : List SpanEdit) : Telemetry :=
  es.foldl (·.edit c ·) t

def retain (t : Telemetry) (c : Context) : Telemetry :=
  match c.record with
  | none => t
  | some i => { t with records := t.records.modify i fun r => { r with holders := r.holders + 1 } }

/-- One holder fewer; the last one to go ends the span. -/
def release (t : Telemetry) (c : Context) : Telemetry :=
  match c.record with
  | none => t
  | some i =>
    let t' := { t with
      records := t.records.modify i fun r => { r with holders := r.holders - 1 } }
    if t'.records[i]?.any (·.holders == 0) then t'.editRecord i .finish else t'

def releaseAll (t : Telemetry) (cs : List Context) : Telemetry := cs.foldl release t

/-- Starts a client span under the parent and answers the context that carries it. Without a parent
span the new span is the root of a trace; otherwise it is recorded exactly if the parent is sampled.
The silent provider repeats the parent's identifiers. A recorded span is held once, by the
context. -/
def start (t : Telemetry) (p : Provider) (parent : Context) (name : String)
    (attributes : List Attribute) : Context × Telemetry :=
  let outer := parent.active.map (·.context)
  match p with
  | .noop => (⟨some ⟨outer.getD .zero, none⟩⟩, t)
  | .recording label =>
    let context : SpanContext := match outer with
      | none => ⟨.fresh t.nextIdent, .fresh (t.nextIdent + 1), true⟩
      | some o => ⟨o.trace, .fresh (t.nextIdent + 1), o.sampled⟩
    let t := { t with nextIdent := t.nextIdent + 2 }
    if context.sampled then
      (⟨some ⟨context, some t.records.length⟩⟩,
        { t with
          records := t.records ++ [{
            provider := label, scope := tracerName, name, kind := .client, context
            parent := (outer.map (·.span)).getD .zero
            attributes, events := [], status := .unset, ended := false, holders := 1 }] })
    else (⟨some ⟨context, none⟩⟩, t)

def exported (t : Telemetry) : List SpanRecord := t.exports.filterMap (t.records[·]?)

end Telemetry
end DatabaseTracing
