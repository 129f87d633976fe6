import DatabaseTracing.Registry
import DatabaseTracing.Scenario.Schedule
import DatabaseTracing.Scenario.Session

/-! # Scenarios of a connection registry

The connector opens connections by plans, one after the other for each connection
string, of which the last one stays. Handles are shown by numbers, in the order in
which callers get to see them.
-/
namespace DatabaseTracing.Scenario

/-- How a connection is opened. A shared handle is made once for each key. -/
structure Plan where
  name : String
  dialect : Dialect
  gate : Option String
  fate : Fate
  hooks : List Registration
  shared : Option String

inductive RegistryCommand where
  | get (ids : List String) (executor : Executor) (name dsn : String)
  | release (gate : String) (n : Nat)
  | cancel (id : String)
  | settle
  | shutdown
  | contains (name : String)
  /-- A command on the handle of that number, counted from one. -/
  | handle (number : Nat) (c : Command)

structure RegistryRun where
  registry : Registry HookScript Bench
  schedule : Schedule
  plans : List (String × List Plan)
  chosen : List Plan
  shared : List (String × Nat)
  shown : List Nat
  sessions : List (Nat × Session)
  labels : List (Ident × String)

namespace RegistryRun

def initial (options : Options) (plans : List (String × List Plan)) : RegistryRun :=
  ⟨.initial options .initial, .empty, plans, [], [], [], [], []⟩

/-- A caller looks for a name and, if it is not kept, goes on at once. -/
def get (r : Registry HookScript Bench) (name dsn : String) : Registry HookScript Bench :=
  r.moves (if r.contains name then [.look name dsn] else [.look name dsn, .enter name dsn])

def nextPlan (r : RegistryRun) (dsn : String) : Plan × List (String × List Plan) :=
  match r.plans.lookup dsn with
  | some (p :: q :: rest) => (p, setEntry dsn (q :: rest) r.plans)
  | some [p] => (p, r.plans)
  | _ => (⟨dsn, .mysql, none, .succeed, [], none⟩, r.plans)

def withHooks (db : Database HookScript) : List Registration →
    Except DatabaseError (Database HookScript)
  | [] => .ok db
  | h :: rest =>
    match db.register h.operation h.position h.name h.hook with
    | (.ok _, db) => withHooks db rest
    | (.error e, _) => .error e

def connect (r : RegistryRun) (p : Plan) : Connection HookScript × List (String × Nat) :=
  match p.fate with
  | .panic message => (.panicked message, r.shared)
  | .fail e => (.failed e, r.shared)
  | .succeed =>
    match p.shared with
    | some key =>
      match r.shared.lookup key with
      | some handle => (.existing handle, r.shared)
      | none =>
        (.fresh (.create p.name p.dialect),
          (key, r.registry.fleet.databases.length) :: r.shared)
    | none =>
      match withHooks (.create p.name p.dialect) p.hooks with
      | .ok db => (.fresh db, r.shared)
      | .error e => (.failed e, r.shared)

def finish (r : RegistryRun) (i : Nat) : RegistryRun :=
  match r.chosen[i]? with
  | none => r
  | some p =>
    let (connection, shared) := r.connect p
    let steps := List.replicate Registry.stepsToEnd (.advance i)
    { r with
      registry := r.registry.moves (.connect i connection :: steps ++ [.tell i, .free i])
      shared }

/-- An attempt that has just been started opens its connection string, up to its gate. -/
def begin (r : RegistryRun) (i : Nat) (executor : Executor) : RegistryRun :=
  match r.registry.group.attempts[i]? with
  | none => r
  | some attempt =>
    let (p, plans) := r.nextPlan attempt.work
    let (through, schedule) := r.schedule.arrive i executor p.gate
    let registry := r.registry.moves [.wake i, .free i]
    let fleet := { registry.fleet with user := registry.fleet.user.noted (.opened attempt.work) }
    let r := { r with
      registry := { registry with fleet }, schedule, plans, chosen := r.chosen ++ [p] }
    if through then r.finish i else r

/-- The handles that callers have been given, in the byte order of the callers' names. -/
def given (r : RegistryRun) : List Nat :=
  let answers := (r.schedule.callers.zip r.registry.group.requests).filterMap fun
    | (caller, ⟨_, .answered (.ok handle)⟩) => some (caller.id, handle)
    | _ => none
  (answers.mergeSort fun a b => a.1 ≤ b.1).map (·.2)

def showHandles (r : RegistryRun) : RegistryRun :=
  { r with shown := r.given.foldl (fun l h => if l.contains h then l else l ++ [h]) r.shown }

def apply (r : RegistryRun) : RegistryCommand → Answer × RegistryRun
  | .get ids executor name dsn =>
    let before := r.registry.group.attempts.length
    let registry := ids.foldl (fun g _ => get g name dsn) r.registry
    let r := { r with registry, schedule := r.schedule.addCallers ids executor }
    (.ofReply .nothing,
      if before < registry.group.attempts.length then r.begin before executor else r)
  | .release gate n =>
    let (through, schedule) := r.schedule.release gate n
    (.ofReply .nothing, through.foldl finish { r with schedule })
  | .cancel id =>
    (.ofReply .nothing,
      { r with registry := (r.schedule.positions id).foldl .cancel r.registry })
  | .settle => (.ofReply .nothing, r)
  | .shutdown =>
    let registry := r.schedule.sideCallers.foldl .cancel r.registry
    (.ofReply .nothing,
      { r with
        registry := r.schedule.sideAttempts.foldl .lose registry
        schedule := r.schedule.shutDown })
  | .contains name => (.ofReply (.flag (r.registry.contains name)), r)
  | .handle number c =>
    match r.shown[number - 1]? with
    | none => (.ofReply .nothing, r)
    | some handle =>
      let scene : Scene := ⟨r.registry.fleet, r.sessions, r.labels⟩
      let (answer, scene) := scene.perform handle c
      (answer,
        { r with
          registry := { r.registry with fleet := scene.fleet }
          sessions := scene.sessions
          labels := scene.labels })

def perform (r : RegistryRun) (c : RegistryCommand) : Answer × RegistryRun :=
  let (answer, r) := r.apply c
  (answer, r.showHandles)

def numberOf (r : RegistryRun) (handle : Nat) : Nat := r.shown.idxOf handle + 1

end RegistryRun
end DatabaseTracing.Scenario
