import DatabaseTracing.Run
import DatabaseTracing.Plugin
import DatabaseTracing.Settings.Reader

/-! # Scripted users' code

Hooks, drivers and plugins given as data, so that whole scenarios can be written
down. What they see and do is noted in a journal.
-/
namespace DatabaseTracing.Scenario

inductive Action where
  | setError (e : DatabaseError)
  | clearError
  | setRows (n : UInt64)
  | setSql (sql : String)
  | pushVar (v : Json)
  | clearVars
  | clearStart
  | clearSpan
  | detach
  | attach
  | register (o : Operation) (position : Position) (name : String) (actions : List Action)
  | remove (o : Operation) (name : String)
  | spanAttribute (key text : String)
  | spanEnd
  /-- Does the action only if an error is set. -/
  | ifError (a : Action)

/-- A scripted hook: the name it goes by in the journal, and its actions in order. -/
structure HookScript where
  name : String
  actions : List Action

structure Registration where
  operation : Operation
  position : Position
  name : String
  actions : List Action

def Registration.hook (r : Registration) : Hook HookScript := .custom ⟨r.name, r.actions⟩

inductive Note where
  | driven (o : Operation) (sql : String) (nvars : Nat) (rows : UInt64)
  | hook (name database : String) (statement : Statement)
  | registered (name : String) (r : Outcome)
  | removed (name : String) (r : Bool)
  | initialized (name : String) (installed : Bool)
  | nested (r : Outcome)
  | opened (dsn : String)
  | ran (caller : String)
  | finished (caller : String)

structure Bench where
  journal : List Note
  outcome : Except DatabaseError UInt64

def Bench.initial : Bench := ⟨[], .ok 0⟩

def Bench.noted (n : Note) (b : Bench) : Bench := { b with journal := b.journal ++ [n] }

abbrev ScriptedHost := Host HookScript Bench

def ScriptedHost.noted (h : ScriptedHost) (n : Note) : ScriptedHost :=
  { h with user := h.user.noted n }

def Action.perform : Action → ScriptedHost → Statement → ScriptedHost × Statement
  | setError e, h, s => (h, { s with error := some e })
  | clearError, h, s => (h, { s with error := none })
  | setRows n, h, s => (h, { s with rowsAffected := n })
  | setSql sql, h, s => (h, { s with sql })
  | pushVar v, h, s => (h, { s with vars := s.vars ++ [v] })
  | clearVars, h, s => (h, { s with vars := [] })
  | clearStart, h, s => (h, { s with callState := { s.callState with started := false } })
  | clearSpan, h, s =>
    ({ h with telemetry := h.telemetry.releaseAll s.callState.span.toList },
      { s with callState := { s.callState with span := none } })
  | detach, h, s =>
    ({ h with telemetry := h.telemetry.releaseAll s.context.toList }, { s with context := none })
  | attach, h, s =>
    ({ h with telemetry := h.telemetry.releaseAll s.context.toList },
      { s with context := some .empty })
  | register o position name actions, h, s =>
    let (r, db) := h.database.register o position name (.custom ⟨name, actions⟩)
    (ScriptedHost.noted { h with database := db } (.registered name r), s)
  | remove o name, h, s =>
    let (r, db) := h.database.remove o name
    (ScriptedHost.noted { h with database := db } (.removed name r), s)
  | spanAttribute key text, h, s =>
    ({ h with
      telemetry := s.callState.span.elim h.telemetry
        (h.telemetry.edit · (.attribute key (.text text))) }, s)
  | spanEnd, h, s =>
    ({ h with telemetry := s.callState.span.elim h.telemetry (h.telemetry.edit · .finish) }, s)
  | ifError a, h, s => if s.error.isSome then a.perform h s else (h, s)

def performAll (actions : List Action) (h : ScriptedHost) (s : Statement) :
    ScriptedHost × Statement :=
  actions.foldl (fun state a => a.perform state.1 state.2) (h, s)

/-- Scripted hooks note what they see and do their actions; the driver notes the statement and
gives the answer that was set for it. -/
def userCode : UserCode HookScript Bench where
  hook script h s :=
    performAll script.actions (ScriptedHost.noted h (.hook script.name h.database.name s)) s
  driver o s b := (b.outcome, b.noted (.driven o s.sql s.vars.length s.rowsAffected))

def countingDialect (name : String) : Dialect where
  name
  explain sql vars := name ++ "<" ++ sql ++ "|" ++ toString vars.length ++ ">"

def ErrorTag.silent : ErrorTag := fun _ => []

def ErrorTag.accepting : ErrorTag := fun _ => [.status .ok]

def ErrorTag.describing : ErrorTag := fun e =>
  [.attribute "error.kind" (.text e.label), .attribute "error.text" (.text e.message)]

inductive OptionsSource where
  | changes (cs : List Options.Change)
  | settings (json : String)

def OptionsSource.resolve : OptionsSource → Except DatabaseError Options
  | changes cs => .ok (.ofChanges cs)
  | settings json => do Options.ofSettings (← Settings.ofJson json)

/-- A plugin as a scenario gives it. A scripted one registers hooks until one fails, then installs
the plugin nested in it, whatever comes of that, and then fails or succeeds. -/
inductive PluginScript where
  | tracing (source : OptionsSource)
  | scripted (name : String) (hooks : List Registration) (nested : Option PluginScript)
      (failure : Option DatabaseError)

def registerAll (hooks : List Registration) (next : Outcome → Setup HookScript Bench) :
    Setup HookScript Bench :=
  match hooks with
  | [] => next (.ok ())
  | r :: rest =>
    .register r.operation r.position r.name r.hook fun
      | .ok _ => registerAll rest next
      | .error e => next (.error e)

def noteNested (r : Outcome) (next : Setup HookScript Bench) : Setup HookScript Bench :=
  .note (Bench.noted (.nested r)) next

/-- A nested plugin whose settings are refused fails where it would have been installed. -/
def scriptedSetup (name : String) (hooks : List Registration)
    (nested : Option (Except DatabaseError (Plugin HookScript Bench)))
    (failure : Option DatabaseError) : Setup HookScript Bench :=
  let last : Setup HookScript Bench := .done (failure.elim (.ok ()) .error)
  .consult fun db => .note (Bench.noted (.initialized name (db.hasPlugin name))) <|
    registerAll hooks fun
      | .error e => .done (.error e)
      | .ok _ =>
        match nested with
        | none => last
        | some (.error e) => noteNested (.error e) last
        | some (.ok p) => .install p.name p.setup fun r => noteNested r last

def PluginScript.plugin : PluginScript → Except DatabaseError (Plugin HookScript Bench)
  | tracing source => source.resolve.map Tracing.plugin
  | scripted name hooks none failure => .ok ⟨name, scriptedSetup name hooks none failure⟩
  | scripted name hooks (some nested) failure =>
    .ok ⟨name, scriptedSetup name hooks (some nested.plugin) failure⟩

end DatabaseTracing.Scenario
