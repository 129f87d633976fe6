import DatabaseTracing.Plugin

/-! # Installing the tracing plugin step by step

An installation looks for the plugin's name, goes through the stages, logs how many of
them failed, and enters the name. Each of these steps takes a lock of its own, so others
can work on the handle between any two of them, also another installation.
-/
namespace DatabaseTracing.Tracing

/-- How far an installation has come. -/
inductive Installation where
  | begun
  | registering (rest : List Stage) (failures : Failures)
  /-- The setup has come to this, and the name is not entered yet. -/
  | entering (r : Outcome)
  | finished (r : Outcome)

namespace Installation
variable {C σ : Type}

def outcome? : Installation → Option Outcome
  | finished r => some r
  | _ => none

def left : Installation → Nat
  | begun => Stage.all.length + 3
  | registering rest _ => rest.length + 2
  | entering _ => 1
  | finished _ => 0

def step (o : Options) : Installation → Host C σ → Installation × Host C σ
  | begun, h =>
    if h.database.hasPlugin pluginName then (finished (.error (.pluginRegistered pluginName)), h)
    else (registering Stage.all .empty, h)
  | registering [] failures, h =>
    (entering failures.outcome, h.logged (registeredEvent h.database.name failures.size))
  | registering (s :: rest) failures, h =>
    let (r, db) := h.database.register s.operation s.position s.name (s.hook o)
    (registering rest (failures.add s r), { h with database := db })
  | entering r, h =>
    let (r, h) := h.enter pluginName r
    (finished r, h)
  | finished r, h => (finished r, h)

end Installation
end DatabaseTracing.Tracing
