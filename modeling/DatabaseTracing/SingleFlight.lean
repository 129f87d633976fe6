import DatabaseTracing.Error
import DatabaseTracing.Text.Quoted

/-! # Single flight

Callers that ask for the same key while an attempt for it is under way share that
attempt: only the first caller's work is carried out, and its outcome goes to
every caller that still waits. An attempt resolves in two steps: it sends its
outcome, and then it frees its key, so that the next caller starts afresh. Attempts
and requests are named by their position.
-/
namespace DatabaseTracing

inductive AttemptState (β : Type) where
  | running
  | sent (r : Except DatabaseError β)
  | resolved (r : Except DatabaseError β)
  /-- It was given up without an outcome. -/
  | lost

/-- What the callers of an attempt can see of it: the outcome, once it has been sent, and whether
there is still somebody to send one. -/
structure Channel (β : Type) where
  outcome : Option (Except DatabaseError β)
  alive : Bool

/-- How a wait ends: nobody is left to send an outcome, or the channel shows something. -/
inductive WaitEnd (β : Type) where
  | gone
  | shown (outcome : Option (Except DatabaseError β))

/-- A wait goes on until the channel shows an outcome, or until none can come any more. -/
def Channel.wait {β : Type} (c : Channel β) : Option (WaitEnd β) :=
  if c.outcome.isSome then some (.shown c.outcome)
  else if c.alive then none
  else some .gone

theorem Channel.wait_ne_shown_none {β : Type} (c : Channel β) : c.wait ≠ some (.shown none) := by
  rcases c with ⟨o, a⟩
  cases o <;> cases a <;> simp [wait]

namespace AttemptState
variable {β : Type}

def channel : AttemptState β → Channel β
  | running => ⟨none, true⟩
  | sent r => ⟨some r, true⟩
  | resolved r => ⟨some r, false⟩
  | lost => ⟨none, false⟩

/-- An attempt holds its key until it has resolved. -/
def holdsKey : AttemptState β → Bool
  | resolved _ => false
  | _ => true

end AttemptState

structure Attempt (α β : Type) where
  key : String
  work : α
  state : AttemptState β

inductive RequestState (β : Type) where
  | waiting (attempt : Nat)
  | answered (r : Except DatabaseError β)
  | cancelled

structure Request (β : Type) where
  key : String
  state : RequestState β

namespace Request
variable {β : Type}

def told (i : Nat) (r : Except DatabaseError β) (q : Request β) : Request β :=
  match q.state with
  | .waiting j => if j = i then { q with state := .answered r } else q
  | _ => q

def cancel (q : Request β) : Request β :=
  match q.state with
  | .waiting _ => { q with state := .cancelled }
  | _ => q

end Request

inductive Ending (β : Type) where
  | returned (r : Except DatabaseError β)
  | panicked (message : Option String)

def Ending.value? {β : Type} : Ending β → Option β
  | .returned (.ok b) => some b
  | _ => none

theorem Ending.value?_eq_some {β : Type} {e : Ending β} {b : β} :
    e.value? = some b ↔ e = .returned (.ok b) := by
  rcases e with (r | r) | m <;> simp [value?]

/-- A panic is an initialization error for everybody who waits. -/
def Ending.outcome {β : Type} (key : String) : Ending β → Except DatabaseError β
  | .returned r => r
  | .panicked message =>
    let detail := match message with
      | some m => " with message " ++ quoted m
      | none => ""
    .error (.initialization ("attempt for " ++ key ++ " failed: task # panicked" ++ detail))

theorem Ending.outcome_eq_ok {β : Type} {key : String} {e : Ending β} {b : β} :
    e.outcome key = .ok b ↔ e.value? = some b := by
  rcases e with (r | r) | m <;> simp [outcome, value?]

def droppedError (key : String) : DatabaseError :=
  .initialization ("in-flight attempt for " ++ key ++ " was dropped")

/-- What a caller would be told whose wait ended on a channel that shows nothing. -/
def emptyError (key : String) : DatabaseError :=
  .initialization ("in-flight attempt for " ++ key ++ " resolved without a result")

def WaitEnd.answer {β : Type} (key : String) : WaitEnd β → Except DatabaseError β
  | gone => .error (droppedError key)
  | shown none => .error (emptyError key)
  | shown (some r) => r

structure FlightGroup (α β : Type) where
  attempts : List (Attempt α β)
  inFlight : List (String × Nat)
  requests : List (Request β)

namespace FlightGroup
variable {α β : Type}

def empty : FlightGroup α β := ⟨[], [], []⟩

def state? (g : FlightGroup α β) (i : Nat) : Option (AttemptState β) :=
  g.attempts[i]?.map Attempt.state

/-- How a caller stands that joins the attempt which the table gives for the key. -/
def standing (g : FlightGroup α β) (key : String) (i : Nat) : RequestState β :=
  match g.state? i with
  | some st => st.channel.wait.elim (.waiting i) fun w => .answered (w.answer key)
  | none => .answered (.error (droppedError key))

def answer (g : FlightGroup α β) (key : String) (r : Except DatabaseError β) : FlightGroup α β :=
  { g with requests := g.requests ++ [⟨key, .answered r⟩] }

/-- A caller joins the attempt in flight for the key, or else starts one with its own work. -/
def join (g : FlightGroup α β) (key : String) (work : α) : FlightGroup α β :=
  match g.inFlight.lookup key with
  | some i => { g with requests := g.requests ++ [⟨key, g.standing key i⟩] }
  | none =>
    { attempts := g.attempts ++ [⟨key, work, .running⟩]
      inFlight := g.inFlight ++ [(key, g.attempts.length)]
      requests := g.requests ++ [⟨key, .waiting g.attempts.length⟩] }

/-- A running attempt sends its outcome: every waiter is answered. The key stays in the table. -/
def send (g : FlightGroup α β) (i : Nat) (e : Ending β) : FlightGroup α β :=
  match g.attempts[i]? with
  | some ⟨key, _, .running⟩ =>
    let r := e.outcome key
    { g with
      attempts := g.attempts.modify i fun a => { a with state := .sent r }
      requests := g.requests.map (Request.told i r) }
  | _ => g

/-- An attempt that has sent its outcome frees its key. -/
def release (g : FlightGroup α β) (i : Nat) : FlightGroup α β :=
  match g.attempts[i]? with
  | some ⟨key, _, .sent r⟩ =>
    { g with
      attempts := g.attempts.modify i fun a => { a with state := .resolved r }
      inFlight := g.inFlight.filter fun entry => entry.1 != key }
  | _ => g

/-- Gives up a running attempt without an outcome. Its key stays in the table. -/
def lose (g : FlightGroup α β) (i : Nat) : FlightGroup α β :=
  match g.attempts[i]? with
  | some ⟨key, _, .running⟩ =>
    { g with
      attempts := g.attempts.modify i fun a => { a with state := .lost }
      requests := g.requests.map (Request.told i (.error (droppedError key))) }
  | _ => g

def cancel (g : FlightGroup α β) (c : Nat) : FlightGroup α β :=
  { g with requests := g.requests.modify c Request.cancel }

def inFlightCount (g : FlightGroup α β) : Nat := g.inFlight.length

inductive Move (α β : Type) where
  | work (key : String) (work : α)
  | send (attempt : Nat) (e : Ending β)
  | release (attempt : Nat)
  | cancel (request : Nat)

def move (g : FlightGroup α β) : Move α β → FlightGroup α β
  | .work key work => g.join key work
  | .send i e => g.send i e
  | .release i => g.release i
  | .cancel c => g.cancel c

def moves (g : FlightGroup α β) (ms : List (Move α β)) : FlightGroup α β := ms.foldl move g

end FlightGroup
end DatabaseTracing
