import DatabaseTracing.Proofs.Run.Crowd
import DatabaseTracing.Proofs.Run.Holding

/-! # Providers leave no trace but spans

Which provider is in force when a span starts, and whether it records, shows in the
spans only. Answers, reports and log entries are the same if the global provider is
replaced at other times, or the hooks are given other sources: the tracing hooks ask
whether a call state has a span, and never what the span is.
-/
namespace DatabaseTracing
variable {ι C σ : Type}

/-! ### Leaving the sources out -/

def Options.silent (o : Options) : Options := { o with tracer := .provider .noop }

def Hook.silent : Hook C → Hook C
  | .spanBefore o spanName => .spanBefore o.silent spanName
  | .spanAfter o => .spanAfter o.silent
  | .custom code => .custom code

def Step.silent : Step (Hook C) → Step (Hook C)
  | .builtin o => .builtin o
  | .hook name anchor body => .hook name anchor body.silent

/-- The handle with hooks that record nothing. -/
def Database.silent (db : Database C) : Database C :=
  { db with pipelines := fun o => (db.pipelines o).map Step.silent }

def Deed.silent : Deed ι C → Deed ι C
  | .step i o s => .step i o s.silent
  | d => d

/-- Steps that differ in sources only are both built in, or hooks that differ in sources only. -/
theorem Step.silent_cases {s s' : Step (Hook C)} (h : s.silent = s'.silent) :
    (∃ o, s = .builtin o ∧ s' = .builtin o) ∨
      ∃ name anchor body body', s = .hook name anchor body ∧ s' = .hook name anchor body' ∧
        body.silent = body'.silent := by
  cases s <;> cases s' <;> simp only [silent, reduceCtorEq, Step.builtin.injEq,
    Step.hook.injEq] at h
  · exact .inl ⟨_, rfl, by rw [h]⟩
  · obtain ⟨rfl, rfl, h⟩ := h
    exact .inr ⟨_, _, _, _, rfl, rfl, h⟩

theorem Hook.silent_cases {body body' : Hook C} (h : body.silent = body'.silent) :
    (∃ o o' spanName, body = .spanBefore o spanName ∧ body' = .spanBefore o' spanName) ∨
      (∃ o o', body = .spanAfter o ∧ body' = .spanAfter o' ∧ o.silent = o'.silent) ∨
        ∃ code, body = .custom code ∧ body' = .custom code := by
  cases body <;> cases body' <;> simp only [silent, reduceCtorEq, Hook.spanBefore.injEq,
    Hook.spanAfter.injEq, Hook.custom.injEq] at h
  · obtain ⟨-, rfl⟩ := h
    exact .inl ⟨_, _, _, rfl, rfl⟩
  · exact .inr (.inl ⟨_, _, rfl, rfl, h⟩)
  · subst h
    exact .inr (.inr ⟨_, rfl, rfl⟩)

/-! ### What does not show -/

/-- The statements agree in all but the spans that their contexts and call states carry. -/
structure Statement.Hushed (s t : Statement) : Prop where
  context : s.context.isSome = t.context.isSome
  sql : s.sql = t.sql
  vars : s.vars = t.vars
  rowsAffected : s.rowsAffected = t.rowsAffected
  error : s.error = t.error
  started : s.callState.started = t.callState.started
  span : s.callState.span.isSome = t.callState.span.isSome

theorem Statement.Hushed.refl (s : Statement) : s.Hushed s := ⟨rfl, rfl, rfl, rfl, rfl, rfl, rfl⟩

theorem Statement.Hushed.result {s t : Statement} (h : s.Hushed t) : s.result = t.result := by
  rw [Statement.result, Statement.result, h.error, h.rowsAffected]

/-- The hosts agree in all but the spans and the sources of spans, and `R` relates the states of the
users' code. -/
structure Host.Hushed (R : σ → σ → Prop) (h k : Host C σ) : Prop where
  database : h.database.silent = k.database.silent
  log : h.log = k.log
  user : R h.user k.user

theorem Host.Hushed.pipelines {R : σ → σ → Prop} {h k : Host C σ} (hh : h.Hushed R k)
    (o : Operation) :
    (h.database.pipelines o).map Step.silent = (k.database.pipelines o).map Step.silent :=
  congrFun (congrArg Database.pipelines hh.database :) o

namespace UserCode

structure Hushed (R : σ → σ → Prop) (x y : Host C σ × Statement) : Prop where
  host : x.1.Hushed R y.1
  statement : x.2.Hushed y.2

/-- The users' code does not look at spans, nor at where they come from. What it does to them is its
own affair, and its own state may go astray within `R`. -/
structure Incurious (u : UserCode C σ) (R : σ → σ → Prop) : Prop where
  hook : ∀ code {x y : Host C σ × Statement}, Hushed R x y →
    Hushed R (u.hook code x.1 x.2) (u.hook code y.1 y.2)
  driver : ∀ o {s t : Statement} {a b : σ}, R a b → s.Hushed t →
    (u.driver o s a).1 = (u.driver o t b).1 ∧ R (u.driver o s a).2 (u.driver o t b).2

variable {u : UserCode C σ} {R : σ → σ → Prop} {x y : Host C σ × Statement} {opts opts' : Options}

theorem Hushed.before (h : Hushed R x y) (opts opts' : Options) (spanName : String) :
    (x.1.before opts spanName x.2).isSome = (y.1.before opts' spanName y.2).isSome ∧
      Hushed R ((x.1.before opts spanName x.2).getD x)
        ((y.1.before opts' spanName y.2).getD y) := by
  have hcontext := h.statement.context
  unfold Host.before
  cases hx : x.2.context <;> cases hy : y.2.context <;> rw [hx, hy] at hcontext
  · exact ⟨rfl, h⟩
  · cases hcontext
  · cases hcontext
  · exact ⟨rfl, ⟨h.host.database, h.host.log, h.host.user⟩, ⟨rfl, h.statement.sql,
      h.statement.vars, h.statement.rowsAffected, h.statement.error, rfl, rfl⟩⟩

theorem Hushed.report (h : Hushed R x y) (hopts : opts.silent = opts'.silent) :
    x.1.report opts x.2 = y.1.report opts' y.2 := by
  have hdialect : x.1.database.dialect = y.1.database.dialect :=
    (congrArg Database.dialect h.host.database :)
  have hrows : opts.logResult = opts'.logResult := (congrArg Options.logResult hopts :)
  have hparameters : opts.logSqlParameters = opts'.logSqlParameters :=
    (congrArg Options.logSqlParameters hopts :)
  simp only [Host.report, Options.recordedSql, Options.recordedRows, hdialect, hrows, hparameters,
    h.statement.sql, h.statement.vars, h.statement.rowsAffected, h.statement.started,
    h.statement.span]

theorem Hushed.after (h : Hushed R x y) (hopts : opts.silent = opts'.silent) :
    (x.1.after opts x.2).map (·.1) = (y.1.after opts' y.2).map (·.1) ∧
      Hushed R (((x.1.after opts x.2).map (·.2)).getD x)
        (((y.1.after opts' y.2).map (·.2)).getD y) := by
  have hcontext := h.statement.context
  have hname : x.1.database.name = y.1.database.name :=
    (congrArg Database.name h.host.database :)
  obtain ⟨t, hclose, -⟩ := Host.closeSpan_frame opts x.1 x.2
  obtain ⟨t', hclose', -⟩ := Host.closeSpan_frame opts' y.1 y.2
  unfold Host.after
  rw [h.report hopts, hname, hclose, hclose']
  cases hx : x.2.context <;> cases hy : y.2.context <;> rw [hx, hy] at hcontext
  · exact ⟨rfl, h⟩
  · cases hcontext
  · cases hcontext
  · exact ⟨rfl, ⟨h.host.database, congrArg (· ++ _) h.host.log, h.host.user⟩,
      ⟨rfl, h.statement.sql, h.statement.vars, h.statement.rowsAffected, h.statement.error, rfl,
        rfl⟩⟩

theorem Hushed.runBuiltin (hu : u.Incurious R) (h : Hushed R x y) (o : Operation) :
    Hushed R (u.runBuiltin o x.1 x.2) (u.runBuiltin o y.1 y.2) := by
  have hdriver := hu.driver o h.host.user h.statement
  unfold UserCode.runBuiltin
  rw [h.statement.error]
  split
  · exact h
  · rcases hx : u.driver o x.2 x.1.user with ⟨r, a⟩
    rcases hy : u.driver o y.2 y.1.user with ⟨r', b⟩
    rw [hx, hy] at hdriver
    obtain ⟨rfl, huser⟩ := hdriver
    have hs := h.statement
    cases r with
    | ok n =>
      exact ⟨⟨h.host.database, h.host.log, huser⟩,
        ⟨hs.context, hs.sql, hs.vars, rfl, rfl, hs.started, hs.span⟩⟩
    | error e =>
      exact ⟨⟨h.host.database, h.host.log, huser⟩,
        ⟨hs.context, hs.sql, hs.vars, hs.rowsAffected, rfl, hs.started, hs.span⟩⟩

theorem Hushed.runStep (hu : u.Incurious R) (h : Hushed R x y) (o : Operation)
    {s s' : Step (Hook C)} (hs : s.silent = s'.silent) :
    Hushed R (u.runStep o x s) (u.runStep o y s') := by
  rcases Step.silent_cases hs with ⟨o', rfl, rfl⟩ | ⟨name, anchor, body, body', rfl, rfl, hbody⟩
  · exact h.runBuiltin hu o
  · rcases Hook.silent_cases hbody with ⟨opts, opts', spanName, rfl, rfl⟩ |
      ⟨opts, opts', rfl, rfl, hopts⟩ | ⟨code, rfl, rfl⟩
    · exact (h.before opts opts' spanName).2
    · exact (h.after hopts).2
    · exact hu.hook code h

theorem Hushed.runSteps (hu : u.Incurious R) (h : Hushed R x y) (o : Operation)
    {p p' : Pipeline (Hook C)} (hp : p.map Step.silent = p'.map Step.silent) :
    Hushed R (p.foldl (u.runStep o) x) (p'.foldl (u.runStep o) y) := by
  induction p generalizing p' x y with
  | nil =>
    obtain rfl := List.map_eq_nil_iff.mp hp.symm
    exact h
  | cons s p ih =>
    obtain ⟨s', p', rfl, hs, hp⟩ := List.map_eq_cons_iff.mp hp.symm
    exact ih (h.runStep hu o hs.symm) hp.symm

theorem Hushed.run (hu : u.Incurious R) (h : Hushed R x y) (o : Operation) :
    (u.run o x.1 x.2).1 = (u.run o y.1 y.2).1 ∧
      Hushed R (u.run o x.1 x.2).2 (u.run o y.1 y.2).2 := by
  have hsteps := h.runSteps hu o (h.host.pipelines o)
  exact ⟨hsteps.statement.result, hsteps⟩

end UserCode

/-! ### Statements on two handles -/

/-- What a deed is answered with. A hook that finds no context answers nothing. -/
inductive Reply where
  | begun (effective : Bool)
  | reported (r : Option CallReport)
  | result (r : Except DatabaseError UInt64)

namespace Crowd
variable {u : UserCode C σ} {R : σ → σ → Prop} {x y : Crowd ι C σ} {d d' : Deed ι C}
  {ds ds' : List (Deed ι C)}

def reply (u : UserCode C σ) (x : Crowd ι C σ) : Deed ι C → Option Reply
  | .step i _ (.hook _ _ (.spanBefore o spanName)) =>
    some (.begun (x.host.before o spanName (x.statement i)).isSome)
  | .step i _ (.hook _ _ (.spanAfter o)) =>
    some (.reported ((x.host.after o (x.statement i)).map (·.1)))
  | .run i o => some (.result (u.run o x.host (x.statement i)).1)
  | _ => none

/-- The crowds agree in all but the spans and their sources. -/
structure Hushed (R : σ → σ → Prop) (x y : Crowd ι C σ) : Prop where
  host : x.host.Hushed R y.host
  statement : ∀ i, (x.statement i).Hushed (y.statement i)

theorem Hushed.state (h : x.Hushed R y) (i : ι) : UserCode.Hushed R (x.state i) (y.state i) :=
  ⟨h.host, h.statement i⟩

theorem isSome_contextOf (x y : Crowd ι C σ) (lineage : Lineage ι) :
    (x.contextOf lineage).isSome = (y.contextOf lineage).isSome := by
  cases lineage <;> rfl

variable [DecidableEq ι]

theorem Hushed.put (h : x.Hushed R y) (i : ι) {a b : Host C σ × Statement}
    (hab : UserCode.Hushed R a b) : (x.put i a).Hushed R (y.put i b) := by
  refine ⟨hab.host, fun j => ?_⟩
  by_cases hj : j = i
  · subst hj
    have hself := congrArg₂ (fun a b : Host C σ × Statement => a.2.Hushed b.2)
      (x.state_put_self j a) (y.state_put_self j b)
    exact hself.mpr hab.statement
  · have hother := congrArg₂ (fun a b : Host C σ × Statement => a.2.Hushed b.2)
      (x.state_put_ne hj a) (y.state_put_ne hj b)
    exact hother.mpr (h.statement j)

theorem Hushed.make (h : x.Hushed R y) (i : ι) (lineage : Lineage ι) (sql : String)
    (vars : List Json) : (x.make i lineage sql vars).Hushed R (y.make i lineage sql vars) :=
  h.put i ⟨⟨h.host.database, h.host.log, h.host.user⟩,
    ⟨isSome_contextOf x y lineage, rfl, rfl, rfl, rfl, rfl, rfl⟩⟩

theorem Hushed.perform (hu : u.Incurious R) (h : x.Hushed R y) (hd : d.silent = d'.silent) :
    x.reply u d = y.reply u d' ∧ (x.perform u d).Hushed R (y.perform u d') := by
  cases d <;> cases d' <;> simp only [Deed.silent, reduceCtorEq, Deed.setGlobal.injEq,
    Deed.make.injEq, Deed.step.injEq, Deed.run.injEq] at hd
  case setGlobal.setGlobal => exact ⟨rfl, ⟨h.host.database, h.host.log, h.host.user⟩, h.statement⟩
  case make.make i lineage sql vars _ _ _ _ =>
    obtain ⟨rfl, rfl, rfl, rfl⟩ := hd
    exact ⟨rfl, h.make i lineage sql vars⟩
  case run.run i o _ _ =>
    obtain ⟨rfl, rfl⟩ := hd
    obtain ⟨hanswer, hstate⟩ := (h.state i).run hu o
    exact ⟨congrArg (some ∘ Reply.result) hanswer, h.put i hstate⟩
  case step.step i o s _ _ s' =>
    obtain ⟨rfl, rfl, hs⟩ := hd
    refine ⟨?_, h.put i ((h.state i).runStep hu o hs)⟩
    rcases Step.silent_cases hs with ⟨o', rfl, rfl⟩ | ⟨name, anchor, body, body', rfl, rfl, hbody⟩
    · rfl
    · rcases Hook.silent_cases hbody with ⟨opts, opts', spanName, rfl, rfl⟩ |
        ⟨opts, opts', rfl, rfl, hopts⟩ | ⟨code, rfl, rfl⟩
      · exact congrArg (some ∘ Reply.begun) ((h.state i).before opts opts' spanName).1
      · exact congrArg (some ∘ Reply.reported) ((h.state i).after hopts).1
      · rfl

theorem Hushed.setGlobal_left (h : x.Hushed R y) (p : Provider) :
    (x.perform u (.setGlobal p)).Hushed R y :=
  ⟨⟨h.host.database, h.host.log, h.host.user⟩, h.statement⟩

theorem Hushed.setGlobal_right (h : x.Hushed R y) (p : Provider) :
    x.Hushed R (y.perform u (.setGlobal p)) :=
  ⟨⟨h.host.database, h.host.log, h.host.user⟩, h.statement⟩

def replies (u : UserCode C σ) (x : Crowd ι C σ) : List (Deed ι C) → List Reply
  | [] => []
  | d :: ds => (x.reply u d).toList ++ replies u (x.perform u d) ds

/-- Neither replacements of the global provider nor the sources of hooks show. -/
theorem Hushed.performAll (hu : u.Incurious R) (h : x.Hushed R y)
    (hds : Deed.Matched (fun d d' => d.silent = d'.silent) ds ds') :
    x.replies u ds = y.replies u ds' ∧ (x.performAll u ds).Hushed R (y.performAll u ds') := by
  induction hds generalizing x y with
  | nil => exact ⟨rfl, h⟩
  | left p _ ih => exact ih (h.setGlobal_left p)
  | right p _ ih => exact ih (h.setGlobal_right p)
  | both hd _ ih =>
    obtain ⟨hreply, hnext⟩ := h.perform hu hd
    obtain ⟨hrest, hlast⟩ := ih hnext
    exact ⟨by rw [replies, replies, hreply, hrest], hlast⟩

end Crowd
end DatabaseTracing
