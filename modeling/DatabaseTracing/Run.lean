import DatabaseTracing.SpanHooks

/-! # Running statements

An operation runs the steps that its pipeline has at the start. Every hook runs,
also behind a failure; the built-in step asks the driver unless an error is set.
-/
namespace DatabaseTracing

/-- The meaning of the code that users supply. A hook may change the statement and all that its
handle can reach; the driver sees the statement and the users' own state. -/
structure UserCode (C σ : Type) where
  hook : C → Host C σ → Statement → Host C σ × Statement
  driver : Operation → Statement → σ → Except DatabaseError UInt64 × σ

namespace UserCode
variable {C σ : Type}

def runHook (u : UserCode C σ) (hook : Hook C) (h : Host C σ) (s : Statement) :
    Host C σ × Statement :=
  match hook with
  | .spanBefore o spanName => (h.before o spanName s).getD (h, s)
  | .spanAfter o => ((h.after o s).map (·.2)).getD (h, s)
  | .custom code => u.hook code h s

def runBuiltin (u : UserCode C σ) (o : Operation) (h : Host C σ) (s : Statement) :
    Host C σ × Statement :=
  if s.error.isSome then (h, s)
  else
    let (r, user) := u.driver o s h.user
    let h := { h with user }
    match r with
    | .ok n => (h, { s with rowsAffected := n })
    | .error e => (h, { s with error := some e })

theorem runBuiltin_eq (u : UserCode C σ) (o : Operation) (h : Host C σ) (s : Statement) :
    ∃ user rowsAffected error,
      u.runBuiltin o h s = ({ h with user }, { s with rowsAffected, error }) := by
  unfold runBuiltin
  split
  · exact ⟨h.user, s.rowsAffected, s.error, rfl⟩
  · rcases u.driver o s h.user with ⟨e | n, user⟩
    · exact ⟨user, s.rowsAffected, some e, rfl⟩
    · exact ⟨user, n, s.error, rfl⟩

def runStep (u : UserCode C σ) (o : Operation) (state : Host C σ × Statement) :
    Step (Hook C) → Host C σ × Statement
  | .builtin _ => u.runBuiltin o state.1 state.2
  | .hook _ _ hook => u.runHook hook state.1 state.2

/-- The steps in order. What hooks do to the pipelines shows in later runs only. -/
def runSteps (u : UserCode C σ) (o : Operation) (steps : Pipeline (Hook C)) (h : Host C σ)
    (s : Statement) : Host C σ × Statement :=
  steps.foldl (u.runStep o) (h, s)

def run (u : UserCode C σ) (o : Operation) (h : Host C σ) (s : Statement) :
    Except DatabaseError UInt64 × Host C σ × Statement :=
  let (h', s') := u.runSteps o (h.database.pipelines o) h s
  (s'.result, h', s')

end UserCode
end DatabaseTracing
