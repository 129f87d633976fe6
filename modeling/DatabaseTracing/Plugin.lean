import DatabaseTracing.Failures
import DatabaseTracing.SpanHooks

/-! # Plugins

A plugin has a name and a setup: a program that registers hooks on a handle, may
install further plugins there, and succeeds or fails. A name can be installed
once. The plugin is recorded only if its setup succeeds, but hooks it managed to
register stay.
-/
namespace DatabaseTracing

/-- What a plugin does to set itself up. Every step hands its result to the rest. -/
inductive Setup (C σ : Type) where
  | done (r : Outcome)
  | register (o : Operation) (position : Position) (name : String) (hook : Hook C)
      (next : Outcome → Setup C σ)
  | install (name : String) (setup : Setup C σ) (next : Outcome → Setup C σ)
  | consult (next : Database C → Setup C σ)
  | log (e : LogEvent) (next : Setup C σ)
  | note (f : σ → σ) (next : Setup C σ)

structure Plugin (C σ : Type) where
  name : String
  setup : Setup C σ

namespace Host
variable {C σ : Type}

/-- Enters a plugin's name, unless its setup failed or the name has been taken meanwhile. -/
def enter (name : String) (r : Outcome) (h : Host C σ) : Outcome × Host C σ :=
  match r with
  | .error e => (.error e, h)
  | .ok _ =>
    if h.database.hasPlugin name then (.error (.pluginRegistered name), h)
    else
      (.ok (),
        { h with database := { h.database with plugins := h.database.plugins ++ [name] } })

def setUp : Setup C σ → Host C σ → Outcome × Host C σ
  | .done r, h => (r, h)
  | .register o position name hook next, h =>
    let (r, db) := h.database.register o position name hook
    setUp (next r) { h with database := db }
  | .install name setup next, h =>
    if h.database.hasPlugin name then setUp (next (.error (.pluginRegistered name))) h
    else
      let (r, h₁) := setUp setup h
      let (r', h₂) := h₁.enter name r
      setUp (next r') h₂
  | .consult next, h => setUp (next h.database) h
  | .log e next, h => setUp next (h.logged e)
  | .note f next, h => setUp next { h with user := f h.user }

def install (h : Host C σ) (p : Plugin C σ) : Outcome × Host C σ :=
  h.setUp (.install p.name p.setup .done)

end Host

def Stage.position (s : Stage) : Position :=
  match s.phase with
  | .before => .before s.operation.builtinStep
  | .after => .after s.operation.builtinStep

def Stage.hook {C : Type} (s : Stage) (o : Options) : Hook C :=
  match s.phase with
  | .before => .spanBefore o (o.spanName s.operation)
  | .after => .spanAfter o

namespace Tracing

def pluginName : String := "otel"

def registeredEvent (database : String) (failed : Nat) : LogEvent where
  level := .debug
  component := .plugin
  message := "tracing hooks registered"
  fields := [("db", .text database), ("failed", .count failed)]

/-- Registers the hooks of the stages in order, going on after failures. -/
def registerStages {C σ : Type} (o : Options) : List Stage → Failures → Setup C σ
  | [], failures =>
    .consult fun db => .log (registeredEvent db.name failures.size) (.done failures.outcome)
  | s :: rest, failures =>
    .register s.operation s.position s.name (s.hook o)
      fun r => registerStages o rest (failures.add s r)

def setup {C σ : Type} (o : Options) : Setup C σ := registerStages o Stage.all .empty

def plugin {C σ : Type} (o : Options) : Plugin C σ := ⟨pluginName, setup o⟩

end Tracing
end DatabaseTracing
