/-! # The process-wide log subscriber

A process has one subscriber. The first installation stays in place, whatever is
asked for later.
-/
namespace DatabaseTracing

structure Subscriber where
  directive : Option String
  deriving DecidableEq, Repr

namespace Subscriber

def absent : Subscriber := ⟨none⟩

/-- Tells whether this call installed the subscriber. -/
def install (s : Subscriber) (directive : String) : Bool × Subscriber :=
  match s.directive with
  | none => (true, ⟨some directive⟩)
  | some _ => (false, s)

def installAll (s : Subscriber) : List String → List Bool
  | [] => []
  | d :: rest => (s.install d).1 :: installAll (s.install d).2 rest

end Subscriber
end DatabaseTracing
