import DatabaseTracing.Dialect
import DatabaseTracing.Log.Event
import DatabaseTracing.Options
import DatabaseTracing.Pipeline
import DatabaseTracing.Statement

/-! # Database handles

A handle bundles a name, a dialect, the hook pipelines and the names of the
installed plugins. Hooks are the two tracing hooks, or code of the handle's users,
which is named here and given its meaning where statements are run.
-/
namespace DatabaseTracing

/-- A hook of a pipeline; `C` names the hooks that users supply. -/
inductive Hook (C : Type) where
  | spanBefore (options : Options) (spanName : String)
  | spanAfter (options : Options)
  | custom (code : C)

structure Database (C : Type) where
  name : String
  dialect : Dialect
  pipelines : Pipelines (Hook C)
  plugins : List String

namespace Database
variable {C : Type}

def create (name : String) (dialect : Dialect) : Database C := ⟨name, dialect, .initial, []⟩

def hasPlugin (db : Database C) (name : String) : Bool := db.plugins.contains name

def describe (db : Database C) : String :=
  "Database \x7b name: " ++ quoted db.name ++ ", dialect: " ++ quoted db.dialect.name ++ " \x7d"

def register (db : Database C) (o : Operation) (position : Position) (name : String)
    (hook : Hook C) : Outcome × Database C :=
  let (r, ps) := db.pipelines.register o position name hook
  (r, { db with pipelines := ps })

def remove (db : Database C) (o : Operation) (name : String) : Bool × Database C :=
  let (r, ps) := db.pipelines.remove o name
  (r, { db with pipelines := ps })

end Database

/-- A handle together with what its hooks can reach besides the statement; `σ` is the state that
belongs to the users' code. -/
structure Host (C σ : Type) where
  database : Database C
  telemetry : Telemetry
  log : List LogEvent
  user : σ

def Host.logged {C σ : Type} (h : Host C σ) (e : LogEvent) : Host C σ :=
  { h with log := h.log ++ [e] }

end DatabaseTracing
