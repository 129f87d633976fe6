import DatabaseTracing.Error
import DatabaseTracing.Operation

/-! # Hook pipelines

Each operation has a pipeline of named steps. It begins with the operation's
built-in step alone; hooks are inserted before or after a step of a given name.
Names are unique within a pipeline, and the built-in step stays.
-/
namespace DatabaseTracing

inductive Position where
  | before (anchor : String)
  | after (anchor : String)
  deriving DecidableEq, Repr

def Position.anchor : Position → String
  | before a => a
  | after a => a

inductive Step (H : Type) where
  | builtin (operation : Operation)
  /-- A hook remembers the step it was inserted after, if it was. -/
  | hook (name : String) (afterAnchor : Option String) (body : H)
  deriving DecidableEq, Repr

namespace Step
variable {H : Type}

def name : Step H → String
  | builtin o => o.builtinStep
  | hook name _ _ => name

def isBuiltin : Step H → Bool
  | builtin _ => true
  | hook _ _ _ => false

def follows (anchor : String) : Step H → Bool
  | builtin _ => false
  | hook _ a _ => a == some anchor

end Step

inductive RegisterError where
  | taken (name : String) (operation : Operation)
  | anchorMissing (anchor : String) (operation : Operation)
  deriving DecidableEq, Repr

def RegisterError.message : RegisterError → String
  | taken name o => "callback " ++ name ++ " already registered for " ++ o.name
  | anchorMissing anchor o => "insertion point " ++ anchor ++ " not found for " ++ o.name

def RegisterError.toError (e : RegisterError) : DatabaseError := .registration e.message

abbrev Pipeline (H : Type) := List (Step H)

namespace Pipeline
variable {H : Type}

def initial (o : Operation) : Pipeline H := [.builtin o]

def names (p : Pipeline H) : List String := p.map Step.name

def insertBefore (anchor : String) (new : Step H) : Pipeline H → Option (Pipeline H)
  | [] => none
  | s :: rest =>
    if s.name = anchor then some (new :: s :: rest)
    else (insertBefore anchor new rest).map (s :: ·)

/-- The new step after the anchor and after the run of hooks behind it that were inserted after
the same anchor. -/
def insertAfter (anchor : String) (new : Step H) : Pipeline H → Option (Pipeline H)
  | [] => none
  | s :: rest =>
    if s.name = anchor then
      some (s :: rest.takeWhile (Step.follows anchor)
        ++ new :: rest.dropWhile (Step.follows anchor))
    else (insertAfter anchor new rest).map (s :: ·)

def insert (position : Position) (name : String) (body : H) (p : Pipeline H) :
    Option (Pipeline H) :=
  match position with
  | .before anchor => insertBefore anchor (.hook name none body) p
  | .after anchor => insertAfter anchor (.hook name (some anchor) body) p

/-- A name in use is refused before the anchor is looked for. -/
def register (o : Operation) (position : Position) (name : String) (body : H) (p : Pipeline H) :
    Except RegisterError (Pipeline H) :=
  if name ∈ p.names then .error (.taken name o)
  else match p.insert position name body with
    | none => .error (.anchorMissing position.anchor o)
    | some p' => .ok p'

def isHookNamed (name : String) (s : Step H) : Bool := !s.isBuiltin && s.name == name

def erase (name : String) (p : Pipeline H) : Pipeline H := p.filter fun s => !isHookNamed name s

def hasHook (name : String) (p : Pipeline H) : Bool := p.any (isHookNamed name)

end Pipeline

abbrev Pipelines (H : Type) := Operation → Pipeline H

namespace Pipelines
variable {H : Type}

def initial : Pipelines H := Pipeline.initial

def set (ps : Pipelines H) (o : Operation) (p : Pipeline H) : Pipelines H :=
  fun o' => if o' = o then p else ps o'

/-- On failure all pipelines are as before. -/
def register (ps : Pipelines H) (o : Operation) (position : Position) (name : String) (body : H) :
    Outcome × Pipelines H :=
  match (ps o).register o position name body with
  | .error e => (.error e.toError, ps)
  | .ok p => (.ok (), ps.set o p)

/-- Tells whether there was a hook of that name. -/
def remove (ps : Pipelines H) (o : Operation) (name : String) : Bool × Pipelines H :=
  ((ps o).hasHook name, ps.set o ((ps o).erase name))

def stepNames (ps : Pipelines H) (o : Operation) : List String := (ps o).names

@[simp] theorem set_same (ps : Pipelines H) (o : Operation) (p : Pipeline H) :
    ps.set o p o = p := by simp [set]

@[simp] theorem set_other (ps : Pipelines H) {o o' : Operation} (h : o' ≠ o) (p : Pipeline H) :
    ps.set o p o' = ps o' := by simp [set, h]

end Pipelines
end DatabaseTracing
