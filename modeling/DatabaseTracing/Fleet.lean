import DatabaseTracing.Plugin
import DatabaseTracing.Run

/-! # Many handles side by side

Handles are named by their position. They share the span store, the log and the
state of the users' code.
-/
namespace DatabaseTracing

structure Fleet (C σ : Type) where
  databases : List (Database C)
  telemetry : Telemetry
  log : List LogEvent
  user : σ

namespace Fleet
variable {C σ : Type}

def initial (user : σ) : Fleet C σ := ⟨[], .initial, [], user⟩

/-- A handle with what it shares with the others. -/
def host? (f : Fleet C σ) (i : Nat) : Option (Host C σ) :=
  f.databases[i]?.map fun db => ⟨db, f.telemetry, f.log, f.user⟩

def put (f : Fleet C σ) (i : Nat) (h : Host C σ) : Fleet C σ :=
  ⟨f.databases.set i h.database, h.telemetry, h.log, h.user⟩

def logged (f : Fleet C σ) (e : LogEvent) : Fleet C σ := { f with log := f.log ++ [e] }

def add (f : Fleet C σ) (db : Database C) : Fleet C σ :=
  { f with databases := f.databases ++ [db] }

end Fleet
end DatabaseTracing
