import DatabaseTracing.Error
import DatabaseTracing.Operation

/-! # Failures of a sequence of registrations

A registration sequence goes on after a failure. The failures are kept in order
and reported together, each under the stage it belongs to.
-/
namespace DatabaseTracing

structure Failures where
  entries : List String
  deriving DecidableEq, Repr, Inhabited

namespace Failures

def empty : Failures := ⟨[]⟩

/-- Keeps the stage and the wording of a failure; a success leaves no trace. -/
def add (f : Failures) (stage : Stage) : Outcome → Failures
  | .ok _ => f
  | .error e => ⟨f.entries ++ [stage.name ++ ":" ++ e.message]⟩

def size (f : Failures) : Nat := f.entries.length

def isEmpty (f : Failures) : Bool := f.entries.isEmpty

def outcome (f : Failures) : Outcome :=
  if f.isEmpty then .ok () else .error (.registration (";".intercalate f.entries))

@[simp] theorem add_ok (f : Failures) (s : Stage) : f.add s (.ok ()) = f := rfl

@[simp] theorem size_add_error (f : Failures) (s : Stage) (e : DatabaseError) :
    (f.add s (.error e)).size = f.size + 1 := by simp [add, size]

end Failures
end DatabaseTracing
