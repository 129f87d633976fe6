import DatabaseTracing.Proofs.Run.Ledgers
import DatabaseTracing.Proofs.Telemetry.Labels

/-! # The provider in force

A source is asked for its provider whenever a span starts; the global source answers with
the provider that has been installed last. The span stays with that provider: it is
annotated, ended and exported there, whatever provider is in force by then.
-/
namespace DatabaseTracing
variable {ι C σ : Type}

/-- The global provider after a deed, from the one before it. -/
def Deed.inForce (p : Provider) : Deed ι C → Provider
  | .setGlobal q => q
  | _ => p

namespace UserCode
variable {u : UserCode C σ}

/-- The users' hooks do not replace the global provider. -/
def LeavesGlobal (u : UserCode C σ) : Prop :=
  ∀ code h s, (u.hook code h s).1.telemetry.globalProvider = h.telemetry.globalProvider

theorem LeavesGlobal.runStep (hu : u.LeavesGlobal) (o : Operation) (x : Host C σ × Statement)
    (s : Step (Hook C)) :
    (u.runStep o x s).1.telemetry.globalProvider = x.1.telemetry.globalProvider := by
  cases s with
  | builtin o' =>
    obtain ⟨user, rows, error, h⟩ := u.runBuiltin_eq o x.1 x.2
    rw [UserCode.runStep, h]
  | hook name anchor body =>
    rw [UserCode.runStep]
    cases body with
    | custom code => exact hu code x.1 x.2
    | spanBefore opts spanName =>
      rw [UserCode.runHook]
      cases hb : x.1.before opts spanName x.2 with
      | none => rfl
      | some y =>
        obtain ⟨p, parent, attributes, -, ht, -⟩ := Host.before_spec hb
        rw [Option.getD_some, ht]
        simp
    | spanAfter opts =>
      rw [UserCode.runHook]
      cases ha : x.1.after opts x.2 with
      | none => rfl
      | some r =>
        obtain ⟨parent, -, rfl⟩ := Option.map_eq_some_iff.mp ha
        obtain ⟨t, hclose, ht⟩ := Host.closeSpan_frame opts x.1 x.2
        simp only [Option.map_some, Option.getD_some, Host.logged, hclose, ht]

theorem LeavesGlobal.runSteps (hu : u.LeavesGlobal) (o : Operation) (p : Pipeline (Hook C))
    (x : Host C σ × Statement) : (p.foldl (u.runStep o) x).1.telemetry.globalProvider =
      x.1.telemetry.globalProvider := by
  induction p generalizing x with
  | nil => rfl
  | cons s p ih => exact (ih (u.runStep o x s)).trans (hu.runStep o x s)

end UserCode

namespace Crowd
variable [DecidableEq ι] {u : UserCode C σ} {x y : Crowd ι C σ} {i : ι}

theorem make_sameBirths (x : Crowd ι C σ) (i : ι) (lineage : Lineage ι) (sql : String)
    (vars : List Json) :
    Telemetry.SameBirths x.host.telemetry (x.make i lineage sql vars).host.telemetry := by
  refine .trans ?_ (Telemetry.releaseAll_sameBirths ..)
  cases x.contextOf lineage with
  | none => exact .refl _
  | some c => exact x.host.telemetry.retain_sameBirths c

theorem globalProvider_perform (hu : u.LeavesGlobal) (x : Crowd ι C σ) (d : Deed ι C) :
    (x.perform u d).host.telemetry.globalProvider = d.inForce x.host.telemetry.globalProvider := by
  cases d with
  | setGlobal p => rfl
  | make i lineage sql vars =>
    exact (x.make_sameBirths i lineage sql vars).globalProvider
  | step i o s => exact hu.runStep o (x.state i) s
  | run i o => exact hu.runSteps o (x.host.database.pipelines o) (x.state i)

/-- The latest replacement counts. -/
theorem globalProvider_performAll (hu : u.LeavesGlobal) (x : Crowd ι C σ) (ds : List (Deed ι C)) :
    (x.performAll u ds).host.telemetry.globalProvider =
      ds.foldl Deed.inForce x.host.telemetry.globalProvider := by
  induction ds generalizing x with
  | nil => rfl
  | cons d ds ih =>
    have hstep := ih (x.perform u d)
    rw [globalProvider_perform hu] at hstep
    exact hstep

theorem labels_perform (hu : u.Careful) (x : Crowd ι C σ) (d : Deed ι C) :
    x.host.telemetry.labels <+: (x.perform u d).host.telemetry.labels := by
  cases d with
  | setGlobal p => exact List.prefix_refl _
  | make i lineage sql vars =>
    exact (x.make_sameBirths i lineage sql vars).labels ▸ List.prefix_refl _
  | step i o s => exact (hu.runStep o (x.state i) s).labels
  | run i o => exact (hu.run o x.host (x.statement i)).labels

theorem labels_performAll (hu : u.Careful) (x : Crowd ι C σ) (ds : List (Deed ι C)) :
    x.host.telemetry.labels <+: (x.performAll u ds).host.telemetry.labels := by
  induction ds generalizing x with
  | nil => exact List.prefix_refl _
  | cons d ds ih => exact (labels_perform hu x d).trans (ih (x.perform u d))

/-- The span recorded at `p` belongs to the provider: an after hook that finds it in a call state
closes it there, and it is exported then, unless it has been exported before. -/
structure BelongsTo (u : UserCode C σ) (y : Crowd ι C σ) (p : Nat) (provider spanName : String) :
    Prop where
  recorded : ∃ r, y.host.telemetry.records[p]? = some r ∧ r.provider = provider ∧ r.name = spanName
  closed : ∀ r, y.host.telemetry.records[p]? = some r → ∀ i o op name anchor,
    (y.statement i).context.isSome → (y.statement i).pending = some p →
      let edits := o.closingEdits y.host.database.dialect (y.statement i)
      let r' := { r.edited edits with holders := r.holders - 1 }
      r'.provider = provider ∧ r'.ended = true ∧
        (y.perform u (.step i op (.hook name anchor (.spanAfter o)))).host.telemetry =
          y.host.telemetry.update p r' (!r.ended)

theorem belongsTo_of_label {p : Nat} {provider spanName : String}
    (h : y.host.telemetry.labels[p]? = some (provider, spanName)) :
    BelongsTo u y p provider spanName := by
  rw [Telemetry.labels, List.getElem?_map, Option.map_eq_some_iff] at h
  obtain ⟨r, hr, hlabel⟩ := h
  obtain ⟨hprovider, hname⟩ := Prod.mk.inj hlabel
  refine ⟨⟨r, hr, hprovider, hname⟩, fun s hs i o op name anchor hcontext hpending => ?_⟩
  obtain rfl : r = s := Option.some.inj (hr.symm.trans hs)
  obtain ⟨cx, hspan, hcx⟩ := Option.bind_eq_some_iff.mp hpending
  have hfinish := o.finish_mem_closingEdits y.host.database.dialect (y.statement i)
  refine ⟨(congrArg (·.provider) (r.birth_edited _)).trans hprovider,
    by simp [SpanRecord.ended_edited, hfinish], ?_⟩
  obtain ⟨z, hz, -, hholdings⟩ := UserCode.after_closed (y.state i) hcontext o
  have hperform : y.perform u (.step i op (.hook name anchor (.spanAfter o))) = y.put i z :=
    congrArg (y.put i) (congrArg (·.getD (y.state i)) hz)
  have htelemetry := congrArg Holdings.telemetry hholdings
  simp only [Handling.apply, Host.holdings, Crowd.state, hspan] at htelemetry
  rw [hperform, ← Telemetry.close_eq_update hcx hr hfinish]
  exact htelemetry

/-- What comes of a before hook that finds a context, by the provider in force. -/
structure Begins (u : UserCode C σ) (x y : Crowd ι C σ) (i : ι) (spanName : String)
    (parent : Context) (provider : Provider) : Prop where
  silent : provider = .noop ∨ ¬ parent.Sampling → (y.statement i).pending = none
  recorded : ∀ label, provider = .recording label → parent.Sampling →
    (y.statement i).pending = some x.host.telemetry.records.length ∧
      ∀ ds, BelongsTo u (y.performAll u ds) x.host.telemetry.records.length label spanName

theorem begins (hu : u.Careful) (x : Crowd ι C σ) (i : ι) (o : Options) (spanName : String)
    (op : Operation) (name : String) (anchor : Option String) {parent : Context}
    (hparent : (x.statement i).context = some parent) :
    Begins u x (x.perform u (.step i op (.hook name anchor (.spanBefore o spanName)))) i spanName
      parent (o.tracer.resolve x.host.telemetry) := by
  obtain ⟨-, z, hz, -, hholdings⟩ := UserCode.before_begun (x.state i) hparent o spanName
  have hperform : x.perform u (.step i op (.hook name anchor (.spanBefore o spanName))) =
      x.put i z := congrArg (x.put i) (congrArg (·.getD (x.state i)) hz)
  rw [hperform]
  have hpending : ((x.put i z).statement i).pending = (x.host.telemetry.start
      (o.tracer.resolve x.host.telemetry) parent spanName x.host.spanAttributes).1.record := by
    have hspan : z.2.callState.span = some _ := congrArg Holdings.span hholdings
    simp only [Statement.pending, Crowd.put, Function.update_self, hspan]
    rfl
  refine ⟨fun hp => ?_, fun label hp hsampling => ?_⟩
  · rw [hpending]
    exact x.host.telemetry.start_unrecorded hp spanName _
  · obtain ⟨context, outer, hstart⟩ := x.host.telemetry.start_recording label hsampling spanName
      x.host.spanAttributes
    rw [hp, hstart] at hpending
    have hlabels : (x.put i z).host.telemetry.labels =
        x.host.telemetry.labels ++ [(label, spanName)] := by
      have htelemetry : z.1.telemetry = _ := congrArg Holdings.telemetry hholdings
      rw [Crowd.put, htelemetry]
      refine (Telemetry.releaseAll_sameBirths ..).labels.trans ?_
      simp only [Crowd.state, hp, hstart, Telemetry.labels, List.map_append]
      rfl
    refine ⟨hpending, fun ds => belongsTo_of_label ?_⟩
    obtain ⟨later, hlater⟩ := labels_performAll hu (x.put i z) ds
    have hlength : x.host.telemetry.labels.length = x.host.telemetry.records.length :=
      List.length_map ..
    rw [← hlater, hlabels, ← hlength]
    simp

end Crowd
end DatabaseTracing
