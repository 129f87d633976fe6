import DatabaseTracing.Error
import DatabaseTracing.Operation
import DatabaseTracing.Telemetry.Store
import DatabaseTracing.Text.Quoted

/-! # Tracing options

Options are built by applying changes, in order, over the defaults. Each change
writes one field, or the span name of one operation.
-/
namespace DatabaseTracing

inductive TracerSource where
  | global
  | provider (p : Provider)
  deriving DecidableEq, Repr

namespace TracerSource

def isGlobal : TracerSource → Bool
  | global => true
  | provider _ => false

def title : TracerSource → String
  | global => "Global"
  | provider _ => "Provider"

def resolve (s : TracerSource) (t : Telemetry) : Provider :=
  match s with
  | global => t.globalProvider
  | provider p => p

end TracerSource

/-- How a statement's error is put on its span. -/
abbrev ErrorTag := DatabaseError → List SpanEdit

def ErrorTag.standard : ErrorTag := fun e =>
  [.event ⟨"exception", [("exception.message", .text e.message)]⟩, .status (.error e.message)]

/-- Span names that have been set, by operation. -/
abbrev OperationNames := Operation → Option String

namespace OperationNames

def empty : OperationNames := fun _ => none

def insert (names : OperationNames) (op : Operation) (name : String) : OperationNames :=
  fun op' => if op' = op then some name else names op'

def ofEntries (entries : List (Operation × String)) : OperationNames :=
  entries.foldl (fun names e => names.insert e.1 e.2) empty

def describe (names : OperationNames) : String :=
  let entries := [Operation.create, .delete, .query, .raw, .row, .update].filterMap fun op =>
    (names op).map fun name => op.title ++ ": " ++ quoted name
  "\x7b" ++ ", ".intercalate entries ++ "\x7d"

end OperationNames

structure Options where
  logResult : Bool
  tracer : TracerSource
  logSqlParameters : Bool
  errorTag : ErrorTag
  operationNames : OperationNames

namespace Options

def default : Options where
  logResult := false
  tracer := .global
  logSqlParameters := true
  errorTag := .standard
  operationNames := .ofEntries (Operation.all.map fun op => (op, op.name))

/-- The name of an operation's spans: the one that has been set, or else the operation's own. -/
def spanName (o : Options) (op : Operation) : String := (o.operationNames op).getD op.name

inductive Change where
  | logResult (b : Bool)
  /-- Without a provider the source stays as it is. -/
  | tracer (p : Option Provider)
  | logSqlParameters (b : Bool)
  | spanName (o : Operation) (name : String)
  | errorTag (tag : ErrorTag)

def apply (o : Options) : Change → Options
  | .logResult b => { o with logResult := b }
  | .tracer none => o
  | .tracer (some p) => { o with tracer := .provider p }
  | .logSqlParameters b => { o with logSqlParameters := b }
  | .spanName op name => { o with operationNames := o.operationNames.insert op name }
  | .errorTag tag => { o with errorTag := tag }

def ofChanges (cs : List Change) : Options := cs.foldl apply default

/-- The options after each number of changes, none to begin with. -/
def stages (cs : List Change) : List Options :=
  (List.range (cs.length + 1)).map fun n => ofChanges (cs.take n)

def describe (o : Options) : String :=
  "PluginOptions \x7b log_result: " ++ toString o.logResult ++ ", tracer: " ++ o.tracer.title
    ++ ", log_sql_parameters: " ++ toString o.logSqlParameters ++ ", operation_names: "
    ++ o.operationNames.describe ++ ", .. \x7d"

end Options
end DatabaseTracing
