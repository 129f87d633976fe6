import DatabaseTracing.SingleFlight

/-! # Executors and gates

Attempts and callers live on one of two executors. An attempt may have to pass a
gate first; gates hand out permits in the order in which attempts arrived, and
keep those that nobody waits for. Of the attempts that get through together those
on the main executor go first.
-/
namespace DatabaseTracing.Scenario

inductive Executor where
  | main
  | side
  deriving DecidableEq, Repr

/-- How a scripted piece of work ends, once it is through its gate. -/
inductive Fate where
  | succeed
  | fail (e : DatabaseError)
  | panic (message : Option String)

structure Caller where
  id : String
  executor : Executor

structure Schedule where
  permits : List (String × Nat)
  /-- Attempts that wait, with their gates, in order of arrival. -/
  waiting : List (String × Nat)
  attempts : List Executor
  callers : List Caller

namespace Schedule

def empty : Schedule := ⟨[], [], [], []⟩

def permitsOf (s : Schedule) (gate : String) : Nat := (s.permits.lookup gate).getD 0

def setPermits (s : Schedule) (gate : String) (n : Nat) : Schedule :=
  { s with permits := (gate, n) :: s.permits.filter fun p => p.1 != gate }

def addCallers (s : Schedule) (ids : List String) (e : Executor) : Schedule :=
  { s with callers := s.callers ++ ids.map (⟨·, e⟩) }

/-- A new attempt arrives; tells whether it goes on at once. -/
def arrive (s : Schedule) (attempt : Nat) (e : Executor) (gate : Option String) : Bool × Schedule :=
  let s := { s with attempts := s.attempts ++ [e] }
  match gate with
  | none => (true, s)
  | some g =>
    match s.permitsOf g with
    | 0 => (false, { s with waiting := s.waiting ++ [(g, attempt)] })
    | n + 1 => (true, s.setPermits g n)

/-- Those let through a gate by so many permits, the permits left, and those that still wait. -/
def passing (gate : String) : Nat → List (String × Nat) → List Nat × Nat × List (String × Nat)
  | 0, waiting => ([], 0, waiting)
  | n, [] => ([], n, [])
  | n + 1, w :: rest =>
    if w.1 = gate then
      let (through, left, waiting) := passing gate n rest
      (w.2 :: through, left, waiting)
    else
      let (through, left, waiting) := passing gate (n + 1) rest
      (through, left, w :: waiting)

def isOnSide (s : Schedule) (attempt : Nat) : Bool := s.attempts[attempt]? == some .side

/-- New permits for a gate; answers the attempts that get through, in the order in which they go
on. -/
def release (s : Schedule) (gate : String) (n : Nat) : List Nat × Schedule :=
  let (through, left, waiting) := passing gate (s.permitsOf gate + n) s.waiting
  (through.filter (fun i => !s.isOnSide i) ++ through.filter s.isOnSide,
    { s with waiting }.setPermits gate left)

def sideAttempts (s : Schedule) : List Nat := (List.range s.attempts.length).filter s.isOnSide

def sideCallers (s : Schedule) : List Nat :=
  (List.range s.callers.length).filter fun i => (s.callers[i]?.map Caller.executor) == some .side

def shutDown (s : Schedule) : Schedule :=
  { s with waiting := s.waiting.filter fun w => !s.isOnSide w.2 }

def positions (s : Schedule) (id : String) : List Nat :=
  (List.range s.callers.length).filter fun i => (s.callers[i]?.map Caller.id) == some id

end Schedule
end DatabaseTracing.Scenario
