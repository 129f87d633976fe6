import DatabaseTracing.Proofs.Run.Replacements
import DatabaseTracing.Proofs.Scenario.ScriptedHooks
import DatabaseTracing.Proofs.Scenario.SpanLifetimes

/-! # Spans belong to providers

A span belongs to the provider that was in force when it started, for its whole life. So
replacements of the global provider reach the spans of the global source only, and those
that derive from them; and none of the providers shows anywhere but in the spans.
-/
namespace DatabaseTracing.Crowd
variable {C σ : Type}

/-- What providers have a say in when statements `ι` are worked on. -/
structure Belonging (ι : Type) [DecidableEq ι] (u : UserCode C σ) : Prop where
  /-- A run is its steps, between which other deeds may come. -/
  steps : ∀ (x : Crowd ι C σ) (i : ι) (o : Operation), x.perform u (.run i o) =
    x.performAll u ((x.host.database.pipelines o).map (.step i o))
  /-- The global provider is the one that has been installed last. -/
  inForce : u.LeavesGlobal → ∀ (x : Crowd ι C σ) (ds : List (Deed ι C)),
    (x.performAll u ds).host.telemetry.globalProvider =
      ds.foldl Deed.inForce x.host.telemetry.globalProvider
  /-- A before hook starts a span by the provider that is in force then, and the span stays there. -/
  begins : u.Careful → ∀ (x : Crowd ι C σ) (i : ι) (o : Options) (spanName : String)
    (op : Operation) (name : String) (anchor : Option String) (parent : Context),
    (x.statement i).context = some parent →
      Begins u x (x.perform u (.step i op (.hook name anchor (.spanBefore o spanName)))) i spanName
        parent (o.tracer.resolve x.host.telemetry)
  /-- Spans of own sources, under contexts that derive from no span of the global source, are
  exported alike whatever becomes of the global provider. -/
  sameExports : ∀ plan R, u.Handles plan R → ∀ (database : Database C) (a a' : σ), R a a' →
    ∀ (p p' : Provider) (ds ds' : List (Deed ι C)), Deed.Matched Eq ds ds' →
      SameExports (Books.blank.afterDeeds plan u ds (fresh database a p))
        (Books.blank.afterDeeds plan u ds' (fresh database a' p'))
        ((fresh database a p).performAll u ds) ((fresh database a' p').performAll u ds')
  /-- No answer, no report, no result and no log entry tells which providers have been in force. -/
  sameReplies : ∀ R, u.Incurious R → ∀ x y : Crowd ι C σ, x.Hushed R y →
    ∀ ds ds' : List (Deed ι C), Deed.Matched (fun d d' => d.silent = d'.silent) ds ds' →
      x.replies u ds = y.replies u ds' ∧ (x.performAll u ds).Hushed R (y.performAll u ds')

/-- Each span belongs to the provider in force when it started. -/
theorem spans_belong_to_providers (ι : Type) [DecidableEq ι] (u : UserCode C σ) :
    Belonging ι u where
  steps := perform_run u
  inForce hu := globalProvider_performAll hu
  begins hu x i o spanName op name anchor _ := begins hu x i o spanName op name anchor
  sameExports _ _ hu database _ _ ha p p' _ _ hds := by
    obtain ⟨pairs, h⟩ := (tied_fresh database ha p p').performAll hu hds
    exact h.sameExports
  sameReplies _ hu _ _ h _ _ hds := h.performAll hu hds

section
open Scenario

/-- A handle with scripted code. -/
def scripted (p : Provider) : Crowd Bool HookScript Bench := fresh (.create "db" .mysql) .initial p

/-- A statement is worked on, and in the middle of it something else is done. -/
def oneCall (o : Options) (middle : List (Deed Bool HookScript)) : List (Deed Bool HookScript) :=
  .make true .root "SELECT 1" [] :: .before true o "query" :: middle ++ [.after true o]

theorem oneCall_matched (o : Options) (p : Provider)
    {R : Deed Bool HookScript → Deed Bool HookScript → Prop} (hR : ∀ d, R d d) :
    Deed.Matched R (oneCall o [.setGlobal p]) (oneCall o []) :=
  .both (hR _) (.both (hR _) (.left p (.both (hR _) .nil)))

/-- The global provider is replaced in the middle of a call, for the global source and for another
one. -/
theorem spans_belong_to_providers_scripted :
    let own := Options.default.apply (.tracer (some (.recording "own")))
    let swap := [Deed.setGlobal (.recording "q")]
    let x := (scripted (.recording "p")).perform userCode (.make true .root "SELECT 1" [])
    let y := (scripted .noop).performAll userCode (oneCall own swap)
    let books := Books.blank.afterDeeds plan userCode (oneCall own swap) (scripted .noop)
    (userCode.Careful ∧ userCode.LeavesGlobal ∧ userCode.Handles plan Bench.Alike ∧
      userCode.Incurious Bench.Alike) ∧
    ((scripted .noop).performAll userCode swap).host.telemetry.globalProvider = .recording "q" ∧
    Begins userCode x (x.perform userCode (.before true .default "query")) true "query" .empty
      (.recording "p") ∧
    ((scripted (.recording "p")).performAll userCode
      (oneCall .default swap)).host.telemetry.exported.map (·.provider) = ["p"] ∧
    SameExports books
      (Books.blank.afterDeeds plan userCode (oneCall own []) (scripted (.recording "p"))) y
      ((scripted (.recording "p")).performAll userCode (oneCall own [])) ∧
    y.host.telemetry.exportedOf books.own = [0] ∧
    (scripted .noop).replies userCode (oneCall .default swap) =
      (scripted (.recording "p")).replies userCode (oneCall .default []) := by
  intro own swap x y books
  obtain ⟨-, hinForce, hbegins, hexports, hreplies⟩ := spans_belong_to_providers Bool userCode
  have hsame := Bench.Alike.refl Bench.initial
  have hhushed : (scripted .noop).Hushed Bench.Alike (scripted (.recording "p")) :=
    ⟨⟨rfl, rfl, hsame⟩, fun _ => .refl _⟩
  refine ⟨⟨userCode_careful, userCode_leavesGlobal, userCode_handles, userCode_incurious⟩,
    hinForce userCode_leavesGlobal (scripted .noop) swap, ?_, rfl, ?_, rfl, ?_⟩
  · exact hbegins userCode_careful x true .default "query" .query "" none .empty rfl
  · exact hexports plan Bench.Alike userCode_handles _ _ _ hsame _ _ _ _
      (oneCall_matched own _ fun _ => rfl)
  · exact (hreplies Bench.Alike userCode_incurious _ _ hhushed _ _
      (oneCall_matched .default _ fun _ => rfl)).1

end
end DatabaseTracing.Crowd
