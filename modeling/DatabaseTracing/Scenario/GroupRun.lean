import DatabaseTracing.Scenario.Schedule
import DatabaseTracing.Scenario.Script

/-! # Scenarios of a flight group

Callers bring work that notes its beginning and, if it succeeds, its end.
-/
namespace DatabaseTracing.Scenario

structure Work where
  caller : String
  value : Json
  gate : Option String
  fate : Fate

inductive GroupCommand where
  | work (ids : List String) (executor : Executor) (key : String) (value : Json)
      (gate : Option String) (fate : Fate)
  | release (gate : String) (n : Nat)
  | cancel (id : String)
  | settle
  | shutdown

structure GroupRun where
  group : FlightGroup Work Json
  schedule : Schedule
  journal : List Note

namespace GroupRun

def initial : GroupRun := ⟨.empty, .empty, []⟩

def noted (r : GroupRun) (n : Note) : GroupRun := { r with journal := r.journal ++ [n] }

def conclude (r : GroupRun) (i : Nat) (e : Ending Json) : GroupRun :=
  { r with group := r.group.moves [.send i e, .release i] }

def finish (r : GroupRun) (i : Nat) : GroupRun :=
  match r.group.attempts[i]? with
  | some ⟨_, work, .running⟩ =>
    match work.fate with
    | .panic message => r.conclude i (.panicked message)
    | .fail e => r.conclude i (.returned (.error e))
    | .succeed => (r.conclude i (.returned (.ok work.value))).noted (.finished work.caller)
  | _ => r

/-- An attempt that has just been started runs up to its gate. -/
def begin (r : GroupRun) (i : Nat) (executor : Executor) : GroupRun :=
  match r.group.attempts[i]? with
  | some ⟨_, work, _⟩ =>
    let (through, schedule) := r.schedule.arrive i executor work.gate
    let r := { r with schedule }.noted (.ran work.caller)
    if through then r.finish i else r
  | none => r

def perform (r : GroupRun) : GroupCommand → GroupRun
  | .work ids executor key value gate fate =>
    let before := r.group.attempts.length
    let group := ids.foldl (fun g id => g.join key ⟨id, value, gate, fate⟩) r.group
    let r := { r with group, schedule := r.schedule.addCallers ids executor }
    if before < group.attempts.length then r.begin before executor else r
  | .release gate n =>
    let (through, schedule) := r.schedule.release gate n
    through.foldl finish { r with schedule }
  | .cancel id => { r with group := (r.schedule.positions id).foldl .cancel r.group }
  | .settle => r
  | .shutdown =>
    let group := r.schedule.sideCallers.foldl .cancel r.group
    { r with
      group := r.schedule.sideAttempts.foldl .lose group
      schedule := r.schedule.shutDown }

end GroupRun
end DatabaseTracing.Scenario
