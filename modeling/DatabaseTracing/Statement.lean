import DatabaseTracing.Error
import DatabaseTracing.Json.Value
import DatabaseTracing.Telemetry.Store

/-! # Statements

A statement lives for one call. Hooks read the SQL and the bound values from it,
and the tracing hooks keep their own state for the call in it.
-/
namespace DatabaseTracing

/-- What the before hook leaves for the after hook. Either part may be missing. -/
structure CallState where
  started : Bool
  span : Option Context
  deriving DecidableEq

namespace CallState

def empty : CallState := ⟨false, none⟩

def isEmpty (s : CallState) : Bool := !s.started && s.span.isNone

theorem isEmpty_iff {s : CallState} : s.isEmpty = true ↔ s = empty := by
  rcases s with ⟨a, b⟩
  cases a <;> cases b <;> simp [isEmpty, empty]

end CallState

structure Statement where
  /-- The operation's context; without one the tracing hooks leave the statement alone. -/
  context : Option Context
  sql : String
  vars : List Json
  rowsAffected : UInt64
  error : Option DatabaseError
  callState : CallState

namespace Statement

def make (context : Option Context) (sql : String) (vars : List Json) : Statement :=
  ⟨context, sql, vars, 0, none, .empty⟩

def result (s : Statement) : Except DatabaseError UInt64 :=
  match s.error with
  | some e => .error e
  | none => .ok s.rowsAffected

/-- The contexts that the statement holds on to, in the order in which it lets go of them. -/
def held (s : Statement) : List Context := s.context.toList ++ s.callState.span.toList

end Statement
end DatabaseTracing
