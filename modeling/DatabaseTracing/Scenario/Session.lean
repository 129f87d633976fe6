import DatabaseTracing.Scenario.Command
import DatabaseTracing.Scenario.Observation

/-! # Sessions on a handle

A session keeps statements and span hooks under names and carries out commands on
one handle, one after the other. A scene has a session for each handle of a fleet.
-/
namespace DatabaseTracing.Scenario

structure Session where
  hooks : List (String × Options)
  statements : List (String × Statement)

def Session.empty : Session := ⟨[], []⟩

def setEntry {α : Type} (id : String) (a : α) (entries : List (String × α)) : List (String × α) :=
  (id, a) :: entries.filter fun e => e.1 != id

namespace Session

/-- Hooks of an unknown name are the default ones. -/
def optionsOf (s : Session) (id : String) : Options := (s.hooks.lookup id).getD Options.default

def putStatement (s : Session) (id : String) (st : Statement) : Session :=
  { s with statements := setEntry id st s.statements }

def dropStatement (s : Session) (id : String) : Session :=
  { s with statements := s.statements.filter fun e => e.1 != id }

def contextOf (s : Session) : Parent → Option Context
  | .missing => none
  | .empty => some .empty
  | .remote trace span sampled => some (.ofRemote trace span sampled)
  | .statement id => some (((s.statements.lookup id).bind (·.callState.span)).getD .empty)

end Session

structure Desk where
  host : ScriptedHost
  session : Session
  labels : List (Ident × String)

namespace Desk

def withHost (d : Desk) (h : ScriptedHost) : Desk := { d with host := h }

def withTelemetry (d : Desk) (t : Telemetry) : Desk :=
  { d with host := { d.host with telemetry := t } }

def make (d : Desk) (script : StatementScript) : Statement × Desk :=
  let context := d.session.contextOf script.parent
  (Statement.make context script.sql script.vars,
    d.withTelemetry (context.elim d.host.telemetry d.host.telemetry.retain))

/-- A statement goes: it lets go of its context first, then of its call state. -/
def letGo (d : Desk) (s : Statement) : Desk := d.withTelemetry (d.host.telemetry.releaseAll s.held)

def putStatement (d : Desk) (id : String) (s : Statement) : Desk :=
  { d with session := d.session.putStatement id s }

def statement? (d : Desk) (id : String) : Option Statement := d.session.statements.lookup id

/-- Notes which statement a span was started on. The first statement stays, as the silent provider
repeats identifiers. -/
def label (d : Desk) (id : String) (s : Statement) : Desk :=
  match s.callState.span.bind (·.active) with
  | some a => { d with labels := d.labels ++ [(a.context.span, id)] }
  | none => d

def run (d : Desk) (o : Operation) (outcome : Except DatabaseError UInt64) (s : Statement) :
    Except DatabaseError UInt64 × Statement × Desk :=
  let h := { d.host with user := { d.host.user with outcome } }
  let (r, h, s) := userCode.run o h s
  (r, s, d.withHost h)

def perform (d : Desk) : Command → Answer × Desk
  | .register r =>
    let (outcome, db) := d.host.database.register r.operation r.position r.name r.hook
    (⟨.outcome outcome, some (db.pipelines.stepNames r.operation), none⟩,
      d.withHost { d.host with database := db })
  | .remove o name =>
    let (removed, db) := d.host.database.remove o name
    (⟨.flag removed, some (db.pipelines.stepNames o), none⟩,
      d.withHost { d.host with database := db })
  | .names o => (.ofReply (.names (d.host.database.pipelines.stepNames o)), d)
  | .allNames => (.ofReply (.allNames (Operation.all.map d.host.database.pipelines.stepNames)), d)
  | .usePlugin script =>
    match script.plugin with
    | .error e => (.ofReply (.refused e), d)
    | .ok p =>
      let (r, h) := d.host.install p
      (.ofReply (.outcome r), d.withHost h)
  | .setUpTracing source =>
    match source.resolve with
    | .error e => (.ofReply (.refused e), d)
    | .ok o =>
      let (r, h) := d.host.setUp (Tracing.setup o)
      (.ofReply (.outcome r), d.withHost h)
  | .hasPlugin name => (.ofReply (.flag (d.host.database.hasPlugin name)), d)
  | .describe =>
    let db := d.host.database
    (.ofReply (.description db.name db.dialect.name db.describe), d)
  | .setGlobal p => (.ofReply .nothing, d.withTelemetry (d.host.telemetry.setGlobal p))
  | .hooks id source =>
    match source.resolve with
    | .error e => (.ofReply (.refused e), d)
    | .ok o =>
      (.ofReply .nothing,
        { d with session := { d.session with hooks := setEntry id o d.session.hooks } })
  | .statement id script =>
    let (s, d) := d.make script
    let old := d.statement? id
    let d := d.putStatement id s
    (.ofReply (.state s), old.elim d d.letGo)
  | .act id actions =>
    match d.statement? id with
    | none => (.ofReply .nothing, d)
    | some s =>
      let (h, s) := performAll actions d.host s
      (.ofReply (.state s), (d.withHost h).putStatement id s)
  | .before id hooks spanName =>
    match d.statement? id with
    | none => (.ofReply .nothing, d)
    | some s =>
      match d.host.before (d.session.optionsOf hooks) spanName s with
      | none => (⟨.flag false, none, some s⟩, d)
      | some (h, s) => (⟨.flag true, none, some s⟩, ((d.withHost h).putStatement id s).label id s)
  | .after id hooks =>
    match d.statement? id with
    | none => (.ofReply .nothing, d)
    | some s =>
      match d.host.after (d.session.optionsOf hooks) s with
      | none => (⟨.nothing, none, some s⟩, d)
      | some (r, h, s) => (⟨.report r, none, some s⟩, (d.withHost h).putStatement id s)
  | .run o outcome (.named id) =>
    match d.statement? id with
    | none => (.ofReply .nothing, d)
    | some s =>
      let (r, s, d) := d.run o outcome s
      (⟨.rows r, none, some s⟩, d.putStatement id s)
  | .run o outcome (.temporary script) =>
    let (s, d) := d.make script
    let (r, s, d) := d.run o outcome s
    (⟨.rows r, none, some s⟩, d.letGo s)
  | .drop id =>
    match d.statement? id with
    | none => (.ofReply (.flag false), d)
    | some s => (.ofReply (.flag true), { d with session := d.session.dropStatement id }.letGo s)

end Desk

structure Scene where
  fleet : ScriptedFleet
  sessions : List (Nat × Session)
  labels : List (Ident × String)

namespace Scene

def single (name : String) (dialect : Dialect) : Scene :=
  ⟨(Fleet.initial .initial).add (.create name dialect), [], []⟩

def perform (t : Scene) (handle : Nat) (c : Command) : Answer × Scene :=
  match t.fleet.host? handle with
  | none => (.ofReply .nothing, t)
  | some host =>
    let session := (t.sessions.lookup handle).getD .empty
    let (answer, d) := Desk.perform ⟨host, session, t.labels⟩ c
    (answer,
      ⟨t.fleet.put handle d.host,
        (handle, d.session) :: t.sessions.filter fun e => e.1 != handle, d.labels⟩)

end Scene
end DatabaseTracing.Scenario
