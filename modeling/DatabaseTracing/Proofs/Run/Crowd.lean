import DatabaseTracing.Run
import Mathlib.Logic.Function.Basic

/-! # Several statements on one handle

Statements are made, also under the spans of others, and worked on by turns: hooks are
called on them and runs are made, step by step or in one go. In between, the global
provider is replaced.
-/
namespace DatabaseTracing
variable {ι C σ : Type}

structure Crowd (ι C σ : Type) where
  host : Host C σ
  statement : ι → Statement

/-- Where a new statement has its context from. -/
inductive Lineage (ι : Type) where
  | nothing
  | root
  | remote (trace span : String) (sampled : Bool)
  /-- From the span in the call state of a statement. -/
  | statement (i : ι)

inductive Deed (ι C : Type) where
  | setGlobal (p : Provider)
  /-- The statement that was there before is dropped. -/
  | make (i : ι) (lineage : Lineage ι) (sql : String) (vars : List Json)
  /-- A hook is called on a statement, or a run on it goes one step further. -/
  | step (i : ι) (o : Operation) (step : Step (Hook C))
  | run (i : ι) (o : Operation)

namespace Deed

def before (i : ι) (opts : Options) (spanName : String) : Deed ι C :=
  .step i .query (.hook "" none (.spanBefore opts spanName))

def after (i : ι) (opts : Options) : Deed ι C := .step i .query (.hook "" none (.spanAfter opts))

/-- The same deeds up to `R`, in the same order, but for replacements of the global provider. -/
inductive Matched (R : Deed ι C → Deed ι C → Prop) : List (Deed ι C) → List (Deed ι C) → Prop
  | nil : Matched R [] []
  | left {ds ds' : List (Deed ι C)} (p : Provider) (h : Matched R ds ds') :
      Matched R (setGlobal p :: ds) ds'
  | right {ds ds' : List (Deed ι C)} (p : Provider) (h : Matched R ds ds') :
      Matched R ds (setGlobal p :: ds')
  | both {d d' : Deed ι C} {ds ds' : List (Deed ι C)} (hd : R d d') (h : Matched R ds ds') :
      Matched R (d :: ds) (d' :: ds')

end Deed

namespace Crowd

def state (x : Crowd ι C σ) (i : ι) : Host C σ × Statement := (x.host, x.statement i)

def withTelemetry (x : Crowd ι C σ) (t : Telemetry) : Crowd ι C σ :=
  { x with host := { x.host with telemetry := t } }

def contextOf (x : Crowd ι C σ) : Lineage ι → Option Context
  | .nothing => none
  | .root => some .empty
  | .remote trace span sampled => some (.ofRemote trace span sampled)
  | .statement i => some ((x.statement i).callState.span.getD .empty)

/-- A handle before anything is done: the statements have no contexts. -/
def fresh (database : Database C) (user : σ) (global : Provider) : Crowd ι C σ where
  host := ⟨database, Telemetry.initial.setGlobal global, [], user⟩
  statement _ := .make none "" []

section
variable [DecidableEq ι]

/-- The other statements stay as they are. -/
def put (x : Crowd ι C σ) (i : ι) (y : Host C σ × Statement) : Crowd ι C σ :=
  ⟨y.1, Function.update x.statement i y.2⟩

@[simp] theorem state_put_self (x : Crowd ι C σ) (i : ι) (y : Host C σ × Statement) :
    (x.put i y).state i = y := by
  simp [state, put]

@[simp] theorem state_put_ne {i j : ι} (h : j ≠ i) (x : Crowd ι C σ) (y : Host C σ × Statement) :
    (x.put i y).state j = (y.1, x.statement j) := by
  simp [state, put, h]

@[simp] theorem put_state (x : Crowd ι C σ) (i : ι) : x.put i (x.state i) = x := by
  simp [state, put]

@[simp] theorem put_put (x : Crowd ι C σ) (i : ι) (y z : Host C σ × Statement) :
    (x.put i y).put i z = x.put i z := by
  simp [put]

/-- A new statement; its context has one holder more before the old statement lets go of what it
holds. -/
def make (x : Crowd ι C σ) (i : ι) (lineage : Lineage ι) (sql : String) (vars : List Json) :
    Crowd ι C σ :=
  let context := x.contextOf lineage
  let t := context.elim x.host.telemetry x.host.telemetry.retain
  x.put i ({ x.host with telemetry := t.releaseAll (x.statement i).held },
    .make context sql vars)

def perform (u : UserCode C σ) (x : Crowd ι C σ) : Deed ι C → Crowd ι C σ
  | .setGlobal p => x.withTelemetry (x.host.telemetry.setGlobal p)
  | .make i lineage sql vars => x.make i lineage sql vars
  | .step i o step => x.put i (u.runStep o (x.state i) step)
  | .run i o => x.put i (u.run o x.host (x.statement i)).2

def performAll (u : UserCode C σ) (x : Crowd ι C σ) (ds : List (Deed ι C)) : Crowd ι C σ :=
  ds.foldl (perform u) x

theorem performAll_steps (u : UserCode C σ) (x : Crowd ι C σ) (i : ι) (o : Operation)
    (p : Pipeline (Hook C)) :
    x.performAll u (p.map (.step i o)) = x.put i (p.foldl (u.runStep o) (x.state i)) := by
  induction p generalizing x with
  | nil => exact (x.put_state i).symm
  | cons step p ih =>
    have hstep : x.performAll u ((step :: p).map (.step i o))
        = (x.perform u (.step i o step)).performAll u (p.map (.step i o)) := rfl
    rw [hstep, ih, perform, state_put_self, put_put]
    rfl

/-- A run is its steps, if nothing is done in between. -/
theorem perform_run (u : UserCode C σ) (x : Crowd ι C σ) (i : ι) (o : Operation) :
    x.perform u (.run i o)
      = x.performAll u ((x.host.database.pipelines o).map (.step i o)) := by
  rw [performAll_steps]
  rfl

end
end Crowd
end DatabaseTracing
