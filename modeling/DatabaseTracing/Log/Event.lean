import DatabaseTracing.Text.Lines
import DatabaseTracing.Text.Quoted

/-! # Log events

An event has a level, the component it comes from, a message and named fields. The
text format shows the fields behind the message as `name=value`. An event takes
one line, or more if a value that is shown as it is has line feeds.
-/
namespace DatabaseTracing

/-- A measured time. Its length is not part of an answer, only whether there was a start to
measure from. -/
inductive Elapsed where
  | zero
  | measured
  deriving DecidableEq, Repr

inductive LogLevel where
  | debug
  | info
  | warn
  deriving DecidableEq, Repr

def LogLevel.name : LogLevel → String
  | .debug => "DEBUG"
  | .info => "INFO"
  | .warn => "WARN"

inductive LogComponent where
  | hooks
  | plugin
  | registry
  deriving DecidableEq, Repr

def LogComponent.target : LogComponent → String
  | .hooks => "percolate_sqltrace::otel::hooks"
  | .plugin => "percolate_sqltrace::otel::plugin"
  | .registry => "percolate_sqltrace::registry"

inductive LogValue where
  | text (s : String)
  | plain (s : String)
  | count (n : Nat)
  | duration (d : Elapsed)
  deriving DecidableEq, Repr

structure LogEvent where
  level : LogLevel
  component : LogComponent
  message : String
  fields : List (String × LogValue)
  deriving DecidableEq, Repr

def Elapsed.text : Elapsed → String
  | .zero => "0ns"
  | .measured => "#"

def LogValue.shown : LogValue → String
  | .text s => quoted s
  | .plain s => s
  | .count n => toString n
  | .duration d => d.text

/-- Levels are right-aligned in five columns. -/
def LogLevel.column (l : LogLevel) : String :=
  String.ofList (List.replicate (5 - l.name.length) ' ') ++ l.name

def LogEvent.shown (e : LogEvent) : String :=
  " ".intercalate
    ([e.level.column, e.component.target ++ ":", e.message]
      ++ e.fields.map fun f => f.1 ++ "=" ++ f.2.shown)

def LogEvent.lines (e : LogEvent) : List String :=
  (Lines.ofChars e.shown.toList).map String.ofList

end DatabaseTracing
