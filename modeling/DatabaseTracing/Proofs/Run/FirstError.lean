import DatabaseTracing.Proofs.Run.Snapshot
import DatabaseTracing.Proofs.Run.SpanStatus

/-! # The first error wins

A run does not stop at an error: all hooks have their turns, and only the driver is
left out. As long as no hook takes an error away or puts another in its place, the
first error that is seen on the statement stays to the end, whoever recorded it, and is
what the run answers. If none is seen, the driver has been asked once, and the answer
is the count that the hooks behind it have left.
-/
namespace DatabaseTracing
variable {C σ : Type}

namespace UserCode
variable {u : UserCode C σ} {calls : HookCalls C σ} {o : Operation} {h : Host C σ} {s : Statement}
  {l q r : Pipeline (Hook C)}

/-! ### Calls of the driver -/

/-- The notes of the driver's calls are left alone by hooks. -/
theorem recording_hooks (hp : ∀ step ∈ q, step.isBuiltin = false)
    (x : Host C (σ × List DriverCall) × Statement) :
    (q.foldl (u.recording.runStep o) x).1.user.2 = x.1.user.2 := by
  induction q generalizing x with
  | nil => rfl
  | cons step q ih =>
    obtain ⟨hstep, hp⟩ := List.forall_mem_cons.mp hp
    rw [List.foldl_cons, ih hp]
    cases step with
    | builtin o' => cases hstep
    | hook name anchor hook =>
      cases hook with
      | spanBefore | spanAfter =>
        exact congrArg Prod.snd (runStep_tracing_alike u.recording o x rfl).host.user
      | custom code => rfl

theorem recording_builtin (u : UserCode C σ) (o : Operation)
    (x : Host C (σ × List DriverCall) × Statement) :
    (u.recording.runStep o x (.builtin o)).1.user.2 = x.1.user.2 ++
      if x.2.error = none then [⟨o, x.2.sql, x.2.vars⟩] else [] := by
  cases he : x.2.error with
  | some e => simp [runStep, runBuiltin, he]
  | none =>
    simp only [runStep, runBuiltin, recording_driver, he]
    cases (u.driver o x.2 x.1.user.1).1 <;> rfl

/-- The driver is asked once if no error is set at its turn, and otherwise not at all. -/
theorem driverCalls_eq (hp : h.database.pipelines o = l ++ .builtin o :: r)
    (hhooks : ∀ step ∈ l ++ r, step.isBuiltin = false) (s : Statement) :
    u.driverCalls o h s =
      let t := (u.runSteps o l h s).2
      if t.error = none then [⟨o, t.sql, t.vars⟩] else [] := by
  obtain ⟨hl, hr⟩ := List.forall_mem_append.mp hhooks
  set x : Host C (σ × List DriverCall) × Statement := (h.mapUser fun y => (y, []), s) with hx
  have hturn : (l.foldl (u.recording.runStep o) x).2 = (u.runSteps o l h s).2 :=
    congrArg Prod.snd (u.recording_runSteps o l x)
  have hcalls : u.driverCalls o h s =
      ((l ++ .builtin o :: r).foldl (u.recording.runStep o) x).1.user.2 := by
    rw [← hp]
    rfl
  rw [hcalls, List.foldl_append, List.foldl_cons, recording_hooks hr, recording_builtin, hturn,
    recording_hooks hl]
  rfl

/-! ### Errors on the statement -/

/-- The errors seen on the statement: as it is now, and as each step leaves it. -/
def errorsAlong (u : UserCode C σ) (o : Operation) :
    Pipeline (Hook C) → Host C σ × Statement → List DatabaseError
  | [], x => x.2.error.toList
  | step :: p, x => x.2.error.toList ++ errorsAlong u o p (u.runStep o x step)

theorem errorsAlong_append (u : UserCode C σ) (o : Operation) (l q : Pipeline (Hook C))
    (step : Step (Hook C)) (x : Host C σ × Statement) :
    u.errorsAlong o (l ++ step :: q) x = u.errorsAlong o l x ++
      u.errorsAlong o q (u.runStep o (l.foldl (u.runStep o) x) step) := by
  induction l generalizing x with
  | nil => rfl
  | cons first l ih => simp only [List.cons_append, errorsAlong, ih, List.append_assoc,
      List.foldl_cons]

theorem head?_errorsAlong_of_error {x : Host C σ × Statement} {e : DatabaseError}
    (he : x.2.error = some e) (p : Pipeline (Hook C)) : (u.errorsAlong o p x).head? = some e := by
  cases p <;> simp [errorsAlong, he]

theorem error_eq_none_of_errorsAlong {x : Host C σ × Statement} {p : Pipeline (Hook C)}
    (h : u.errorsAlong o p x = []) : x.2.error = none := by
  cases he : x.2.error with
  | none => rfl
  | some e => simpa [h] using head?_errorsAlong_of_error (u := u) (o := o) he p

/-- In a run, users' hooks neither take away an error that is set nor put another in its place. -/
def KeepsErrors (u : UserCode C σ) (o : Operation) (h : Host C σ) (s : Statement) : Prop :=
  ∀ name x y, u.HookTurn o h s name x y → ∀ e, x.2.error = some e → y.2.error = some e

theorem KeepsErrors.runStep (hu : u.KeepsErrors o h s) {step : Step (Hook C)}
    (hmem : step ∈ h.database.pipelines o) {e : DatabaseError}
    (he : (u.reaching o step.name h s).2.error = some e) :
    (u.runStep o (u.reaching o step.name h s) step).2.error = some e := by
  cases hstep : step.isBuiltin with
  | false =>
    refine runStep_at_turn (P := fun x y => x.2.error = some e → y.2.error = some e) hmem hstep
      (fun _ _ halike hx => halike.statement.error.trans hx) ?_ he
    exact fun x y hturn => hu _ x y hturn e
  | true =>
    cases step with
    | builtin o' => simp [UserCode.runStep, runBuiltin, he]
    | hook => cases hstep

/-- The first error that is seen in a stretch of the run is the one at its end. -/
theorem KeepsErrors.head?_errorsAlong (hu : u.KeepsErrors o h s)
    (hsound : (h.database.pipelines o).Sound o) (hp : h.database.pipelines o = l ++ q ++ r) :
    (u.errorsAlong o q (l.foldl (u.runStep o) (h, s))).head? =
      ((l ++ q).foldl (u.runStep o) (h, s)).2.error := by
  induction q generalizing l with
  | nil =>
    rw [List.append_nil, errorsAlong]
    cases (l.foldl (u.runStep o) (h, s)).2.error <;> rfl
  | cons step q ih =>
    have hturn : h.database.pipelines o = l ++ step :: (q ++ r) := by
      rw [hp, List.append_assoc, List.cons_append]
    have hrest := ih (l := l ++ [step]) (by rw [hturn]; simp)
    rw [List.foldl_concat, List.append_assoc, List.singleton_append] at hrest
    cases he : (l.foldl (u.runStep o) (h, s)).2.error with
    | none => rw [errorsAlong, he, ← hrest, Option.toList_none, List.nil_append]
    | some e =>
      have hmem : step ∈ h.database.pipelines o := by simp [hturn]
      have hkept : (u.runStep o (l.foldl (u.runStep o) (h, s)) step).2.error = some e := by
        rw [← reaching_eq u hsound hturn] at he ⊢
        exact hu.runStep hmem he
      rw [← hrest, head?_errorsAlong_of_error he, head?_errorsAlong_of_error hkept]

/-! ### The course of a run -/

theorem map_step_turns (hp : h.database.pipelines o = l ++ .builtin o :: r)
    (hhooks : ∀ step ∈ l ++ r, step.isBuiltin = false) (s : Statement) :
    (u.turns calls o h s).map Turn.step = l.names ++
      ((if (u.runSteps o l h s).2.error = none then [o.builtinStep] else []) ++ r.names) := by
  obtain ⟨hl, hr⟩ := List.forall_mem_append.mp hhooks
  have hdriver (x : Host C σ × Statement) : (turnOf calls o x (.builtin o)).map Turn.step =
      if x.2.error = none then [o.builtinStep] else [] := by
    rw [turnOf]
    cases x.2.error <;> rfl
  rw [turns_eq, hp, turnsAlong_append, turnsAlong, List.map_append, List.map_append,
    map_step_turnsAlong hl, map_step_turnsAlong hr, hdriver]
  rfl

/-- Without an error ahead of the driver and none behind it, the driver has succeeded. -/
theorem exists_driver_ok {x : Host C σ × Statement} (hx : x.2.error = none)
    (hy : (u.runStep o x (.builtin o)).2.error = none) :
    ∃ n, (u.driver o x.2 x.1.user).1 = .ok n ∧
      (u.runStep o x (.builtin o)).2.rowsAffected = n := by
  cases hdriver : (u.driver o x.2 x.1.user).1 with
  | error e => simp [runStep, runBuiltin, hx, hdriver] at hy
  | ok n => exact ⟨n, rfl, by simp [runStep, runBuiltin, hx, hdriver]⟩

/-- What the driver leaves as the count stays if the hooks behind it leave it. -/
theorem rowsAffected_run (hsound : (h.database.pipelines o).Sound o)
    (hp : h.database.pipelines o = l ++ .builtin o :: r)
    (hr : ∀ step ∈ r, step.isBuiltin = false)
    (hleft : ∀ name x y, u.HookTurn o h s name x y → name ∈ r.names →
      y.2.rowsAffected = x.2.rowsAffected) :
    (u.run o h s).2.2.rowsAffected =
      (u.runStep o (u.runSteps o l h s) (.builtin o)).2.rowsAffected := by
  refine run_along (R := fun x y => y.2.rowsAffected = x.2.rowsAffected) (fun _ => rfl)
    (fun hxy hyz => hyz.trans hxy) hsound hp fun step hmem => ?_
  have hin : step ∈ h.database.pipelines o := by simp [hp, hmem]
  refine runStep_at_turn hin (hr step hmem) (fun _ _ halike => halike.statement.rowsAffected) ?_
  exact fun x y hturn => hleft _ x y hturn (List.mem_map_of_mem hmem)

/-- What the hooks and the driver get to do in a run, and what it answers. The built-in step stands
between the hooks `l` and `r`. -/
structure FirstErrorWins (u : UserCode C σ) (calls : HookCalls C σ) (o : Operation) (h : Host C σ)
    (s : Statement) (l r : Pipeline (Hook C)) : Prop where
  turns : (u.turns calls o h s).map Turn.step = l.names ++
    ((if u.errorsAlong o l (h, s) = [] then [o.builtinStep] else []) ++ r.names)
  driver : u.driverCalls o h s =
    let t := (u.runSteps o l h s).2
    if u.errorsAlong o l (h, s) = [] then [⟨o, t.sql, t.vars⟩] else []
  error : (u.run o h s).2.2.error = (u.errorsAlong o (h.database.pipelines o) (h, s)).head?
  result : (u.run o h s).1 =
    match (u.errorsAlong o (h.database.pipelines o) (h, s)).head? with
    | some e => .error e
    | none => .ok (u.run o h s).2.2.rowsAffected
  rows : u.errorsAlong o (h.database.pipelines o) (h, s) = [] →
    let x := u.runSteps o l h s
    ∃ n, (u.driver o x.2 x.1.user).1 = .ok n ∧
      ((u.run o h s).2.2.rowsAffected = n ∨ ∃ name y z, u.HookTurn o h s name y z ∧
        name ∈ r.names ∧ z.2.rowsAffected ≠ y.2.rowsAffected)

theorem run_first_error {cs : List (Pipelines.Call (Hook C))}
    (hp : h.database.pipelines = Pipelines.initial.calls cs) (hu : u.KeepsErrors o h s)
    (calls : HookCalls C σ) :
    ∃ l r : Pipeline (Hook C), h.database.pipelines o = l ++ .builtin o :: r ∧
      (∀ step ∈ l ++ r, step.isBuiltin = false) ∧ u.FirstErrorWins calls o h s l r := by
  have hformed : h.database.pipelines.WellFormed := hp ▸ Pipelines.wellFormed_calls cs
  have hsound : (h.database.pipelines o).Sound o := hp ▸ Pipelines.sound_initial.calls cs o
  obtain ⟨l, r, hsplit, hhooks⟩ := exists_split_builtin hformed o
  refine ⟨l, r, hsplit, hhooks, ?_⟩
  have hahead : u.errorsAlong o l (h, s) = [] ↔ (u.runSteps o l h s).2.error = none := by
    have hfirst := hu.head?_errorsAlong (l := []) hsound hsplit
    rw [← List.head?_eq_none_iff]
    exact hfirst ▸ Iff.rfl
  have hwhole : (u.run o h s).2.2.error =
      (u.errorsAlong o (h.database.pipelines o) (h, s)).head? := by
    have hall : h.database.pipelines o = [] ++ h.database.pipelines o ++ [] := by simp
    exact (hu.head?_errorsAlong hsound hall).symm
  refine ⟨?_, ?_, hwhole, ?_, ?_⟩
  · simp only [map_step_turns hsplit hhooks, hahead]
  · simp only [driverCalls_eq hsplit hhooks, hahead]
  · have hresult : (u.run o h s).1 = (u.run o h s).2.2.result := rfl
    rw [hresult, ← hwhole]
    cases herror : (u.run o h s).2.2.error <;> simp [Statement.result, herror]
  · intro hnothing
    have hsteps : u.errorsAlong o l (h, s) = [] ∧
        u.errorsAlong o r (u.runStep o (u.runSteps o l h s) (.builtin o)) = [] := by
      rw [hsplit, errorsAlong_append] at hnothing
      exact List.append_eq_nil_iff.mp hnothing
    obtain ⟨n, hdriver, hrows⟩ :=
      exists_driver_ok (hahead.mp hsteps.1) (error_eq_none_of_errorsAlong hsteps.2)
    refine ⟨n, hdriver, or_iff_not_imp_right.mpr fun hleft => ?_⟩
    rw [rowsAffected_run hsound hsplit (List.forall_mem_append.mp hhooks).2 ?_, hrows]
    intro name x y hturn hname
    by_contra hchanged
    exact hleft ⟨name, x, y, hturn, hname, hchanged⟩

/-- A hook reports its error unless there is one already. The driver always succeeds. -/
def reporting : UserCode DatabaseError Unit where
  hook code h s := (h, { s with error := s.error.or (some code) })
  driver _ _ x := (.ok 3, x)

def reportingHost : Host DatabaseError Unit :=
  let db : Database DatabaseError := .create "db" .mysql
  let pipelines := Pipelines.initial.calls
    [.register .query (.before "db:query") "early" (.custom .recordNotFound),
      .register .query (.after "db:query") "late" (.custom (.query "lost"))]
  ⟨{ db with pipelines }, .initial, [], ()⟩

theorem reporting_keepsErrors {h : Host DatabaseError Unit} : reporting.KeepsErrors o h s := by
  intro name x y hturn e he
  cases hturn with
  | @intro _ code hmem => exact congrArg (Option.or · (some code)) he

/-- The hook behind the driver has its turn, but the missing record has been reported first. -/
theorem run_first_error_reported :
    let s := Statement.make (some .empty) "SELECT 1" []
    reporting.KeepsErrors .query reportingHost s ∧
      (∃ l r, reportingHost.database.pipelines .query = l ++ .builtin .query :: r ∧
        (∀ step ∈ l ++ r, step.isBuiltin = false) ∧
        reporting.FirstErrorWins (fun _ _ _ => []) .query reportingHost s l r) ∧
      (reporting.turns (fun _ _ _ => []) .query reportingHost s).map Turn.step =
        ["early", "late"] ∧
      reporting.driverCalls .query reportingHost s = [] ∧
      (reporting.run .query reportingHost s).1 = .error .recordNotFound := by
  intro s
  have hu : reporting.KeepsErrors .query reportingHost s := reporting_keepsErrors
  exact ⟨hu, run_first_error rfl hu _, rfl, rfl, rfl⟩

end UserCode
end DatabaseTracing
