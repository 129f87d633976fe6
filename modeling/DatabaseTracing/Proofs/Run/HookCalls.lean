import DatabaseTracing.Proofs.Pipeline.Kinds
import DatabaseTracing.Run

/-! # Calls that hooks make

A hook can register and remove hooks on any pipeline of its handle while it runs, its
own and itself included. The pipelines of a handle then come from calls all the same,
made from outside or in the course of runs, and are well formed in every such state.
-/
namespace DatabaseTracing
variable {C σ : Type}

namespace Host
variable {h : Host C σ} {s : Statement} {x : Host C σ × Statement}

theorem before_database {o : Options} {spanName : String} (hb : h.before o spanName s = some x) :
    x.1.database = h.database := by
  obtain ⟨parent, -, rfl⟩ := Option.map_eq_some_iff.mp hb
  rfl

theorem closeSpan_database (o : Options) (h : Host C σ) (s : Statement) :
    (h.closeSpan o s).database = h.database := by
  unfold closeSpan
  split <;> rfl

theorem after_database {o : Options} {r : CallReport} (ha : h.after o s = some (r, x)) :
    x.1.database = h.database := by
  obtain ⟨parent, -, hx⟩ := Option.map_eq_some_iff.mp ha
  obtain ⟨-, rfl⟩ := Prod.mk.inj hx
  exact closeSpan_database o h s

end Host

namespace UserCode
variable {u : UserCode C σ} {o : Operation}

/-- The calls that the users' hooks make in each state, in order. -/
abbrev HookCalls (C σ : Type) := C → Host C σ → Statement → List (Pipelines.Call (Hook C))

variable {calls : HookCalls C σ}

/-- The users' hooks change the pipelines by these calls and in no other way. -/
def Makes (u : UserCode C σ) (calls : HookCalls C σ) : Prop :=
  ∀ code h s, (u.hook code h s).1.database.pipelines = h.database.pipelines.calls (calls code h s)

/-- The calls that come of a hook. The tracing hooks make none. -/
def callsOf (calls : HookCalls C σ) (hook : Hook C) (h : Host C σ) (s : Statement) :
    List (Pipelines.Call (Hook C)) :=
  match hook with
  | .custom code => calls code h s
  | _ => []

theorem runHook_spanBefore_database (u : UserCode C σ) (opts : Options) (spanName : String)
    (h : Host C σ) (s : Statement) :
    (u.runHook (.spanBefore opts spanName) h s).1.database = h.database := by
  rw [UserCode.runHook]
  cases hb : h.before opts spanName s with
  | none => rfl
  | some x => exact Host.before_database hb

theorem runHook_spanAfter_database (u : UserCode C σ) (opts : Options) (h : Host C σ)
    (s : Statement) : (u.runHook (.spanAfter opts) h s).1.database = h.database := by
  rw [UserCode.runHook]
  cases ha : h.after opts s with
  | none => rfl
  | some x => exact Host.after_database ha

theorem Makes.runHook (hu : u.Makes calls) (hook : Hook C) (h : Host C σ) (s : Statement) :
    (u.runHook hook h s).1.database.pipelines =
      h.database.pipelines.calls (callsOf calls hook h s) := by
  cases hook with
  | spanBefore opts spanName =>
    exact congrArg Database.pipelines (runHook_spanBefore_database u opts spanName h s)
  | spanAfter opts => exact congrArg Database.pipelines (runHook_spanAfter_database u opts h s)
  | custom code => exact hu code h s

theorem runBuiltin_database (u : UserCode C σ) (o : Operation) (h : Host C σ) (s : Statement) :
    (u.runBuiltin o h s).1.database = h.database := by
  obtain ⟨user, rows, error, heq⟩ := u.runBuiltin_eq o h s
  rw [heq]

/-- A step of a run changes the pipelines by calls. -/
theorem Makes.runStep (hu : u.Makes calls) (o : Operation) (x : Host C σ × Statement)
    (step : Step (Hook C)) : ∃ cs, (u.runStep o x step).1.database.pipelines =
      x.1.database.pipelines.calls cs := by
  cases step with
  | builtin o' => exact ⟨[], congrArg Database.pipelines (runBuiltin_database u o x.1 x.2)⟩
  | hook name anchor hook => exact ⟨_, hu.runHook hook x.1 x.2⟩

/-- A handle in the course of its life. Calls are made on it from outside and by the hooks of runs,
and the steps of several runs may alternate. -/
inductive Reached (u : UserCode C σ) : Host C σ → Prop
  | create {h : Host C σ} (hp : h.database.pipelines = .initial) : Reached u h
  | calls {h k : Host C σ} (cs : List (Pipelines.Call (Hook C))) (hh : Reached u h)
      (hk : k.database.pipelines = h.database.pipelines.calls cs) : Reached u k
  | step {h : Host C σ} (o : Operation) (s : Statement) (step : Step (Hook C)) (hh : Reached u h) :
      Reached u (u.runStep o (h, s) step).1

theorem Reached.eq_calls (hu : u.Makes calls) {h : Host C σ} (hh : Reached u h) :
    ∃ cs, h.database.pipelines = Pipelines.initial.calls cs := by
  induction hh with
  | create hp => exact ⟨[], hp⟩
  | calls ds _ hk ih =>
    obtain ⟨cs, hcs⟩ := ih
    exact ⟨cs ++ ds, by rw [hk, hcs, Pipelines.calls_append]⟩
  | @step h o s step _ ih =>
    obtain ⟨cs, hcs⟩ := ih
    obtain ⟨ds, hds⟩ := hu.runStep o (h, s) step
    exact ⟨cs ++ ds, by rw [hds, hcs, Pipelines.calls_append]⟩

theorem Reached.sound (hu : u.Makes calls) {h : Host C σ} (hh : Reached u h) :
    h.database.pipelines.Sound := by
  obtain ⟨cs, hcs⟩ := hh.eq_calls hu
  exact hcs ▸ Pipelines.sound_initial.calls cs

theorem Reached.wellFormed (hu : u.Makes calls) {h : Host C σ} (hh : Reached u h) :
    h.database.pipelines.WellFormed := by
  obtain ⟨cs, hcs⟩ := hh.eq_calls hu
  exact hcs ▸ Pipelines.wellFormed_calls cs

theorem pipelines_well_formed (hu : u.Makes calls) {h : Host C σ} (hh : Reached u h) :
    let ps := h.database.pipelines
    ps.WellFormed ∧ (∀ o name, Pipelines.Removal ps o name (ps.remove o name)) ∧
      (∀ c o, c.operation ≠ o → ps.call c o = ps o) ∧
      (∀ c d, c.operation ≠ d.operation → (ps.call c).call d = (ps.call d).call c ∧
        (ps.call c).answer d = ps.answer d ∧ (ps.call d).answer c = ps.answer c) ∧
      ∀ cs o, ps.calls cs o = ps.calls (cs.filter (·.operation = o)) o := by
  intro ps
  have hsound : ps.Sound := hh.sound hu
  refine ⟨hh.wellFormed hu, hsound.removal, ?_, ?_, fun cs o => Pipelines.calls_own rfl cs⟩
  · intro c o hc
    exact Pipelines.call_other ps hc
  · intro c d hcd
    exact ⟨Pipelines.call_comm ps hcd, Pipelines.answer_call ps hcd,
      Pipelines.answer_call ps hcd.symm⟩

/-- What the hook `n + 1` does on the pipelines: it takes itself and the hook behind the built-in
step out, and puts others ahead of it, elsewhere, and where there is no anchor. The hook `0` does
nothing. -/
def unrulyCalls : HookCalls Nat Unit := fun code _ _ =>
  match code with
  | 0 => []
  | _ + 1 =>
    [.remove .query "self", .remove .query "next",
      .register .query (.before "db:query") "self" (.custom 0),
      .register .update (.after "db:update") "db:query" (.custom 0),
      .register .query (.after "gone") "late" (.custom 0)]

def unruly : UserCode Nat Unit where
  hook code h s :=
    ({ h with
        database := { h.database with
          pipelines := h.database.pipelines.calls (unrulyCalls code h s) } }, s)
  driver _ _ x := (.ok 1, x)

theorem unruly_makes : unruly.Makes unrulyCalls := fun _ _ _ => rfl

/-- The hook `self` stands ahead of the built-in step and `next` behind it. -/
def unrulyHost : Host Nat Unit :=
  ⟨⟨"db", .mysql, Pipelines.initial.calls
      [.register .query (.before "db:query") "self" (.custom 1),
        .register .query (.after "db:query") "next" (.custom 0)], []⟩, .initial, [], ()⟩

theorem unrulyHost_reached : Reached unruly unrulyHost := by
  have hcreated : Reached unruly { unrulyHost with database := .create "db" .mysql } := .create rfl
  exact .calls _ hcreated rfl

/-- In the midst of a run, the hook has just replaced itself. -/
theorem pipelines_well_formed_unruly :
    let h := (unruly.runStep .query (unrulyHost, .make none "SELECT 1" [])
      (.hook "self" none (.custom 1))).1
    unruly.Makes unrulyCalls ∧ Reached unruly h ∧ h.database.pipelines.WellFormed ∧
      Pipelines.Removal h.database.pipelines .query "self"
        (h.database.pipelines.remove .query "self") := by
  intro h
  have hh : Reached unruly h := .step _ _ _ unrulyHost_reached
  obtain ⟨hformed, hremoval, -⟩ := pipelines_well_formed unruly_makes hh
  exact ⟨unruly_makes, hh, hformed, hremoval .query "self"⟩

end UserCode
end DatabaseTracing
