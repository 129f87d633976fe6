/-! # Operations and registration stages

The closed set of instrumented operations. Each has one built-in step, and a
stage on either side of it under whose name the tracing hooks are registered.
-/
namespace DatabaseTracing

inductive Operation where
  | create
  | update
  | query
  | delete
  | row
  | raw
  deriving DecidableEq, Repr, Inhabited

namespace Operation

def all : List Operation := [create, update, query, delete, row, raw]

theorem mem_all (o : Operation) : o ∈ all := by cases o <;> simp [all]

/-- The operation's name, which is also the default name of its spans. -/
def name : Operation → String
  | create => "create"
  | update => "update"
  | query => "query"
  | delete => "delete"
  | row => "row"
  | raw => "raw"

theorem name_injective {a b : Operation} (h : a.name = b.name) : a = b := by
  revert h
  cases a <;> cases b <;> simp [name]

def title : Operation → String
  | create => "Create"
  | update => "Update"
  | query => "Query"
  | delete => "Delete"
  | row => "Row"
  | raw => "Raw"

def builtinStep : Operation → String
  | create => "db:create"
  | update => "db:update"
  | query => "db:query"
  | delete => "db:delete"
  | row => "db:row"
  | raw => "db:raw"

def ofName? (s : String) : Option Operation := all.find? fun o => o.name == s

theorem ofName?_name (o : Operation) : ofName? o.name = some o := by
  cases o <;> simp [ofName?, all, name]

theorem name_of_ofName? {s : String} {o : Operation} (h : ofName? s = some o) : o.name = s := by
  simpa using List.find?_some h

end Operation

/-- The side of the built-in step that a hook runs on. -/
inductive Phase where
  | before
  | after
  deriving DecidableEq, Repr

def Phase.title : Phase → String
  | .before => "Before"
  | .after => "After"

/-- Where a tracing hook belongs: one side of one operation's built-in step. -/
structure Stage where
  operation : Operation
  phase : Phase
  deriving DecidableEq, Repr

namespace Stage

def name : Stage → String
  | ⟨.create, .before⟩ => "otel:before_create"
  | ⟨.create, .after⟩ => "otel:after_create"
  | ⟨.update, .before⟩ => "otel:before_update"
  | ⟨.update, .after⟩ => "otel:after_update"
  | ⟨.query, .before⟩ => "otel:before_query"
  | ⟨.query, .after⟩ => "otel:after_query"
  | ⟨.delete, .before⟩ => "otel:before_delete"
  | ⟨.delete, .after⟩ => "otel:after_delete"
  | ⟨.row, .before⟩ => "otel:before_row"
  | ⟨.row, .after⟩ => "otel:after_row"
  | ⟨.raw, .before⟩ => "otel:before_raw"
  | ⟨.raw, .after⟩ => "otel:after_raw"

def all : List Stage := Operation.all.flatMap fun o => [⟨o, .before⟩, ⟨o, .after⟩]

theorem name_ne_builtinStep (s : Stage) (o : Operation) : s.name ≠ o.builtinStep := by
  rcases s with ⟨a, p⟩
  cases a <;> cases p <;> cases o <;> decide

def describe (s : Stage) : String :=
  "Stage \x7b kind: " ++ s.operation.title ++ ", phase: " ++ s.phase.title ++ " \x7d"

end Stage
end DatabaseTracing
