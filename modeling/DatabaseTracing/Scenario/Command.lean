import DatabaseTracing.Scenario.Script

/-! # Commands and answers

What a scenario can ask of a handle, and what it is told.
-/
namespace DatabaseTracing.Scenario

inductive Parent where
  | missing
  | empty
  | remote (trace span : String) (sampled : Bool)
  | statement (id : String)

structure StatementScript where
  sql : String
  vars : List Json
  parent : Parent

/-- What a `run` is run on: a statement of the session, or a new one that goes when it has run. -/
inductive RunTarget where
  | named (id : String)
  | temporary (script : StatementScript)

inductive Command where
  | register (r : Registration)
  | remove (o : Operation) (name : String)
  | names (o : Operation)
  | allNames
  | usePlugin (p : PluginScript)
  | setUpTracing (source : OptionsSource)
  | hasPlugin (name : String)
  | describe
  | setGlobal (p : Provider)
  | hooks (id : String) (source : OptionsSource)
  | statement (id : String) (script : StatementScript)
  | act (id : String) (actions : List Action)
  | before (id hooks spanName : String)
  | after (id hooks : String)
  | run (o : Operation) (outcome : Except DatabaseError UInt64) (target : RunTarget)
  | drop (id : String)

inductive Reply where
  | nothing
  | refused (e : DatabaseError)
  | outcome (r : Outcome)
  | flag (b : Bool)
  | names (ns : List String)
  | allNames (ns : List (List String))
  | description (name dialect text : String)
  | state (s : Statement)
  | report (r : CallReport)
  | rows (r : Except DatabaseError UInt64)

/-- A reply, with the step names of the pipeline that was changed and the statement that was worked
on. -/
structure Answer where
  reply : Reply
  names : Option (List String)
  statement : Option Statement

def Answer.ofReply (r : Reply) : Answer := ⟨r, none, none⟩

end DatabaseTracing.Scenario
