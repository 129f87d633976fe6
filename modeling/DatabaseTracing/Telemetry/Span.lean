/-! # Spans and the contexts that carry them

A span has a context of identifiers and flags, which its children inherit from.
A recorded span also gathers attributes, events and a status until it ends, as many
as it takes. The status only rises, from unset through error to ok.
-/
namespace DatabaseTracing

/-- An identifier of a trace or a span: none, one received from elsewhere, or one made here. -/
inductive Ident where
  | zero
  | remote (hex : String)
  | fresh (n : Nat)
  deriving DecidableEq, Repr

/-- An identifier received as hexadecimal digits. Zeros alone stand for none. -/
def Ident.ofHex (hex : String) : Ident := if hex.toList.all (· == '0') then .zero else .remote hex

structure SpanContext where
  trace : Ident
  span : Ident
  sampled : Bool
  deriving DecidableEq, Repr

def SpanContext.zero : SpanContext := ⟨.zero, .zero, false⟩

/-- A span as a context carries it; `record` is where it is recorded, if it is. -/
structure ActiveSpan where
  context : SpanContext
  record : Option Nat
  deriving DecidableEq, Repr

structure Context where
  active : Option ActiveSpan
  deriving DecidableEq, Repr

namespace Context

def empty : Context := ⟨none⟩

def ofRemote (trace span : String) (sampled : Bool) : Context :=
  ⟨some ⟨⟨.ofHex trace, .ofHex span, sampled⟩, none⟩⟩

def record (c : Context) : Option Nat := c.active.bind (·.record)

end Context

inductive AttributeValue where
  | text (s : String)
  | integer (n : Int64)
  deriving DecidableEq

abbrev Attribute := String × AttributeValue

structure SpanEvent where
  name : String
  attributes : List Attribute
  deriving DecidableEq

namespace SpanEvent

def attributeLimit : Nat := 128

def clipped (e : SpanEvent) : SpanEvent := { e with attributes := e.attributes.take attributeLimit }

end SpanEvent

inductive SpanStatus where
  | unset
  | error (text : String)
  | ok
  deriving DecidableEq, Repr

/-- The higher of two statuses; of two errors, the one with the greater text. -/
def SpanStatus.raise : SpanStatus → SpanStatus → SpanStatus
  | .unset, new => new
  | .error old, .error new => if old < new then .error new else .error old
  | .error _, .ok => .ok
  | old, _ => old

inductive SpanKind where
  | internal
  | server
  | client
  | producer
  | consumer
  deriving DecidableEq, Repr

def SpanKind.title : SpanKind → String
  | internal => "Internal"
  | server => "Server"
  | client => "Client"
  | producer => "Producer"
  | consumer => "Consumer"

/-- What can be done to a span that is in progress. Its name is not among it. -/
inductive SpanEdit where
  | attribute (key : String) (value : AttributeValue)
  | event (e : SpanEvent)
  | status (s : SpanStatus)
  | finish
  deriving DecidableEq

/-- What a recorded span has from its start on. -/
structure SpanBirth where
  provider : String
  scope : String
  name : String
  kind : SpanKind
  context : SpanContext
  /-- The parent's span identifier; zero for the root of a trace. -/
  parent : Ident
  deriving DecidableEq

/-- A recorded span. It is in progress until it ends and does not change afterwards. -/
structure SpanRecord extends birth : SpanBirth where
  attributes : List Attribute
  events : List SpanEvent
  status : SpanStatus
  ended : Bool
  holders : Nat
  deriving DecidableEq

/-- Appends an item as long as there are fewer than the limit. -/
def appendUpTo {α : Type} (limit : Nat) (xs : List α) (x : α) : List α :=
  if xs.length < limit then xs ++ [x] else xs

namespace SpanRecord

/-- A span takes so many attributes; those that come later are dropped. -/
def attributeLimit : Nat := 128

/-- The same for events. -/
def eventLimit : Nat := 128

def apply (r : SpanRecord) : SpanEdit → SpanRecord
  | .attribute key value =>
    { r with attributes := appendUpTo attributeLimit r.attributes (key, value) }
  | .event e => { r with events := appendUpTo eventLimit r.events e.clipped }
  | .status s => { r with status := r.status.raise s }
  | .finish => { r with ended := true }

end SpanRecord
end DatabaseTracing
