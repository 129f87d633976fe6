import DatabaseTracing.SingleFlight
import DatabaseTracing.Fleet
import DatabaseTracing.Installation

/-! # The connection registry

The first request for a name opens a connection, installs the tracing plugin on
the handle and keeps the handle for good. Requests that come meanwhile share the
attempt; failures are not kept, so the next request tries again. A request looks
for its name first and takes its place at an attempt afterwards; as others may go
ahead of it in between, an attempt looks again before it asks the connector. Others
may also come in between any two steps of an attempt.
-/
namespace DatabaseTracing

inductive Connection (C : Type) where
  | fresh (db : Database C)
  /-- A handle that is there already. -/
  | existing (handle : Nat)
  | failed (e : DatabaseError)
  | panicked (message : Option String)

/-- How far an attempt has come since it called the connector. -/
inductive Course where
  | asked
  /-- The connector has given a handle, on which the plugin is being installed. -/
  | installing (handle : Nat) (p : Tracing.Installation)
  /-- The installation is over. The handle is not kept yet. -/
  | installed (handle : Nat)
  | kept (handle : Nat)
  | ended (e : Ending Nat)

structure Opening where
  attempt : Nat
  name : String
  dsn : String
  course : Course

structure Registry (C σ : Type) where
  options : Options
  handles : List (String × Nat)
  /-- Requests that have not found their name and have no attempt yet: names and connection
  strings, the latest first. -/
  seekers : List (String × String)
  /-- Attempts to open, each with the connection string that it hands to the connector. -/
  group : FlightGroup String Nat
  openings : List Opening
  fleet : Fleet C σ

namespace Registry
variable {C σ : Type}

def initial (options : Options) (user : σ) : Registry C σ :=
  ⟨options, [], [], .empty, [], .initial user⟩

def handle? (r : Registry C σ) (name : String) : Option Nat := r.handles.lookup name

def contains (r : Registry C σ) (name : String) : Bool := (r.handle? name).isSome

def size (r : Registry C σ) : Nat := r.handles.length

def describe (r : Registry C σ) : String :=
  "ConnectionRegistry \x7b in_flight: " ++ toString r.group.inFlightCount ++ ", .. \x7d"

def openingEvent (name : String) : LogEvent where
  level := .debug
  component := .registry
  message := "opening database"
  fields := [("name", .plain name)]

def partialEvent (name : String) (e : DatabaseError) : LogEvent where
  level := .warn
  component := .registry
  message := "tracing plugin partially installed"
  fields := [("name", .plain name), ("error", .plain e.message)]

def publishedEvent (name database : String) : LogEvent where
  level := .info
  component := .registry
  message := "database registered"
  fields := [("name", .plain name), ("db", .text database)]

/-- A request looks for its name. A name that is kept is answered at once, whatever the connection
string. -/
def look (r : Registry C σ) (name dsn : String) : Registry C σ :=
  match r.handle? name with
  | some h => { r with group := r.group.answer name (.ok h) }
  | none => { r with seekers := (name, dsn) :: r.seekers }

/-- A request that has not found its name joins the attempt for the name or starts one. -/
def enter (r : Registry C σ) (name dsn : String) : Registry C σ :=
  if (name, dsn) ∈ r.seekers then
    { r with seekers := r.seekers.erase (name, dsn), group := r.group.join name dsn }
  else r

def leave (r : Registry C σ) (name dsn : String) : Registry C σ :=
  { r with seekers := r.seekers.erase (name, dsn) }

def opening? (r : Registry C σ) (i : Nat) : Option Opening := r.openings.find? (·.attempt == i)

/-- A running attempt sets to work, once: it takes the handle that is kept for its name by now, or
else calls the connector. -/
def wake (r : Registry C σ) (i : Nat) : Registry C σ :=
  match r.group.attempts[i]?, r.opening? i with
  | some ⟨name, dsn, .running⟩, none =>
    match r.handle? name with
    | some h => { r with group := r.group.send i (.returned (.ok h)) }
    | none =>
      { r with
        openings := r.openings ++ [⟨i, name, dsn, .asked⟩]
        fleet := r.fleet.logged (openingEvent name) }
  | _, _ => r

def note (r : Registry C σ) (i : Nat) (c : Course) : Registry C σ :=
  { r with openings := r.openings.map fun o => if o.attempt = i then { o with course := c } else o }

/-- The connector answers the call of a running attempt. A handle is given if it is there. -/
def connect (r : Registry C σ) (i : Nat) (c : Connection C) : Registry C σ :=
  match r.group.state? i, r.opening? i with
  | some .running, some ⟨_, _, _, .asked⟩ =>
    match c with
    | .fresh db =>
      { r with fleet := r.fleet.add db }.note i (.installing r.fleet.databases.length .begun)
    | .existing handle =>
      if handle < r.fleet.databases.length then r.note i (.installing handle .begun) else r
    | .failed e => r.note i (.ended (.returned (.error e)))
    | .panicked message => r.note i (.ended (.panicked message))
  | _, _ => r

def install (r : Registry C σ) (i handle : Nat) (p : Tracing.Installation) : Registry C σ :=
  match r.fleet.host? handle with
  | none => r
  | some h =>
    let (p, h) := p.step r.options h
    { r with fleet := r.fleet.put handle h }.note i (.installing handle p)

/-- A plugin that cannot be installed wholly is no failure. -/
def report (r : Registry C σ) (i : Nat) (name : String) (handle : Nat) (outcome : Outcome) :
    Registry C σ :=
  match outcome with
  | .ok _ => r.note i (.installed handle)
  | .error e => { r with fleet := r.fleet.logged (partialEvent name e) }.note i (.installed handle)

def publish (r : Registry C σ) (i : Nat) (name : String) (handle : Nat) : Registry C σ :=
  let handles := r.handles.filter (·.1 != name) ++ [(name, handle)]
  { r with handles }.note i (.kept handle)

def announce (r : Registry C σ) (i : Nat) (name : String) (handle : Nat) : Registry C σ :=
  match r.fleet.databases[handle]? with
  | none => r
  | some db =>
    { r with fleet := r.fleet.logged (publishedEvent name db.name) }.note i
      (.ended (.returned (.ok handle)))

/-- A running attempt that has been given a handle makes its next step. -/
def advance (r : Registry C σ) (i : Nat) : Registry C σ :=
  match r.group.state? i, r.opening? i with
  | some .running, some ⟨_, name, _, c⟩ =>
    match c with
    | .installing handle p =>
      match p.outcome? with
      | some outcome => r.report i name handle outcome
      | none => r.install i handle p
    | .installed handle => r.publish i name handle
    | .kept handle => r.announce i name handle
    | .asked | .ended _ => r
  | _, _ => r

/-- The steps from a handle that the connector gives to the end of the attempt. -/
def stepsToEnd : Nat := Tracing.Installation.begun.left + 3

def tell (r : Registry C σ) (i : Nat) : Registry C σ :=
  match r.opening? i with
  | some ⟨_, _, _, .ended e⟩ => { r with group := r.group.send i e }
  | _ => r

def free (r : Registry C σ) (i : Nat) : Registry C σ := { r with group := r.group.release i }

def cancel (r : Registry C σ) (c : Nat) : Registry C σ := { r with group := r.group.cancel c }

def lose (r : Registry C σ) (i : Nat) : Registry C σ := { r with group := r.group.lose i }

inductive Move (C : Type) where
  | look (name dsn : String)
  | enter (name dsn : String)
  | leave (name dsn : String)
  | wake (attempt : Nat)
  | connect (attempt : Nat) (c : Connection C)
  | advance (attempt : Nat)
  | tell (attempt : Nat)
  | free (attempt : Nat)
  | cancel (request : Nat)

def move (r : Registry C σ) : Move C → Registry C σ
  | .look name dsn => r.look name dsn
  | .enter name dsn => r.enter name dsn
  | .leave name dsn => r.leave name dsn
  | .wake i => r.wake i
  | .connect i c => r.connect i c
  | .advance i => r.advance i
  | .tell i => r.tell i
  | .free i => r.free i
  | .cancel c => r.cancel c

def moves (r : Registry C σ) (ms : List (Move C)) : Registry C σ := ms.foldl move r

end Registry
end DatabaseTracing
