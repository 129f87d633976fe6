import DatabaseTracing.Plugin
import DatabaseTracing.Proofs.Telemetry.Accounts
import DatabaseTracing.Proofs.Telemetry.Exports
import DatabaseTracing.Run

/-! # Who holds a call's spans

A statement holds its context and the span in its call state. The tracing hooks do
nothing but what a holder may do, whatever they find in the call state. If the users'
hooks do not either, a run keeps the account of the spans.
-/
namespace DatabaseTracing
variable {C σ : Type}

/-- Where the span in the call state is recorded. -/
def Statement.pending (s : Statement) : Option Nat := s.callState.span.bind (·.record)

/-- The span store and what the statement holds of it. -/
def Host.account (h : Host C σ) (s : Statement) : Account := ⟨h.telemetry, s.held⟩

namespace Host
variable {h h' : Host C σ} {s s' : Statement} {o : Options}

theorem account_eq (h : Host C σ) (s : Statement) :
    h.account s = ⟨h.telemetry, ↑s.callState.span.toList + ↑s.context.toList⟩ := by
  rw [account, Statement.held, ← Multiset.coe_add, Multiset.add_comm]

theorem before_spec {spanName : String} (hb : h.before o spanName s = some (h', s')) :
    ∃ provider parent attributes,
      let started := h.telemetry.start provider parent spanName attributes
      s.context = some parent ∧ h'.telemetry = started.2.releaseAll s.callState.span.toList ∧
        s'.context = s.context ∧ s'.callState.span = some started.1 := by
  obtain ⟨parent, hparent, hb⟩ := Option.map_eq_some_iff.mp hb
  obtain ⟨rfl, rfl⟩ := Prod.mk.inj hb
  exact ⟨_, parent, _, hparent, rfl, rfl, rfl⟩

/-- The new span is started, then the one before it is let go of. -/
theorem before_leads {spanName : String} (hb : h.before o spanName s = some (h', s')) :
    ∃ provider parent attributes, (h.account s).Leads
      (.start provider parent spanName attributes :: s.callState.span.toList.map .release)
      (h'.account s') := by
  obtain ⟨provider, parent, attributes, -, htelemetry, hcontext, hspan⟩ := before_spec hb
  refine ⟨provider, parent, attributes, ?_⟩
  have hstart : (h.account s).Leads [.start provider parent spanName attributes] _ :=
    .call trivial
  rw [SpanCall.apply, account_eq, ← Multiset.add_cons] at hstart
  rw [account_eq, account_eq, htelemetry, hcontext, hspan]
  exact hstart.trans (Account.leads_releaseAll _ _ _)

theorem before_reaches {spanName : String} (hb : h.before o spanName s = some (h', s')) :
    (h.account s).Reaches (h'.account s') := by
  obtain ⟨_, _, _, hleads⟩ := before_leads hb
  exact ⟨_, hleads⟩

theorem closeSpan_sameBirths (o : Options) (h : Host C σ) (s : Statement) :
    h.telemetry.SameBirths (h.closeSpan o s).telemetry := by
  unfold closeSpan
  split
  · exact .refl h.telemetry
  · exact (h.telemetry.editAll_sameBirths ..).trans (Telemetry.release_sameBirths ..)

/-- Closing the span leaves all but the spans as it is, and the provider. -/
theorem closeSpan_frame (o : Options) (h : Host C σ) (s : Statement) :
    ∃ t, h.closeSpan o s = { h with telemetry := t } ∧
      t.globalProvider = h.telemetry.globalProvider := by
  have hprovider := (closeSpan_sameBirths o h s).globalProvider
  unfold closeSpan at hprovider ⊢
  split at hprovider
  · exact ⟨h.telemetry, rfl, rfl⟩
  · exact ⟨_, rfl, hprovider⟩

theorem closeSpan_reaches (o : Options) (h : Host C σ) (s : Statement) :
    (h.account s).Reaches ⟨(h.closeSpan o s).telemetry, ↑s.context.toList⟩ := by
  rw [account_eq, closeSpan]
  cases s.callState.span with
  | none =>
    rw [Option.toList_none, Multiset.coe_nil, Multiset.zero_add]
    exact .refl _
  | some cx =>
    rw [Option.toList_some, Multiset.coe_singleton, Multiset.singleton_add]
    exact (Account.reaches_editAll _ (Multiset.mem_cons_self ..) _).trans
      (Account.reaches_release _ _ _)

theorem after_reaches {r : CallReport} (ha : h.after o s = some (r, h', s')) :
    (h.account s).Reaches (h'.account s') := by
  obtain ⟨parent, -, ha⟩ := Option.map_eq_some_iff.mp ha
  obtain ⟨-, ha⟩ := Prod.mk.inj ha
  obtain ⟨rfl, rfl⟩ := Prod.mk.inj ha
  rw [account_eq _ { s with callState := .empty }, CallState.empty, Option.toList_none,
    Multiset.coe_nil, Multiset.zero_add]
  exact closeSpan_reaches o h s

/-- Setting up does not touch any span. -/
theorem setUp_telemetry (p : Setup C σ) (h : Host C σ) :
    (h.setUp p).2.telemetry = h.telemetry := by
  induction p generalizing h with
  | done r => rfl
  | register o position name hook next ih => exact ih _ _
  | install name setup next ihsetup ihnext =>
    have henter (r : Outcome) (k : Host C σ) : (k.enter name r).2.telemetry = k.telemetry := by
      rcases r with e | _
      · rfl
      · rw [enter]
        split <;> rfl
    rw [setUp]
    split
    · exact ihnext _ _
    · exact (ihnext _ _).trans ((henter _ _).trans (ihsetup _))
  | consult next ih => exact ih _ _
  | log e next ih => exact ih _
  | note f next ih => exact ih _

end Host

namespace UserCode
variable {u : UserCode C σ} {o : Operation}

/-- The users' hooks do with a statement's spans only what their holder may do. -/
def Careful (u : UserCode C σ) : Prop :=
  ∀ (code : C) (h : Host C σ) (s : Statement),
    (h.account s).Reaches ((u.hook code h s).1.account (u.hook code h s).2)

theorem runBuiltin_account (u : UserCode C σ) (o : Operation) (h : Host C σ) (s : Statement) :
    (u.runBuiltin o h s).1.account (u.runBuiltin o h s).2 = h.account s := by
  obtain ⟨user, rows, error, heq⟩ := u.runBuiltin_eq o h s
  rw [heq]
  rfl

theorem Careful.runHook (hu : u.Careful) (hook : Hook C) (h : Host C σ) (s : Statement) :
    (h.account s).Reaches ((u.runHook hook h s).1.account (u.runHook hook h s).2) := by
  cases hook with
  | spanBefore opts spanName =>
    rw [UserCode.runHook]
    cases hb : h.before opts spanName s with
    | none => exact .refl _
    | some y => exact Host.before_reaches hb
  | spanAfter opts =>
    rw [UserCode.runHook]
    cases ha : h.after opts s with
    | none => exact .refl _
    | some y => exact Host.after_reaches ha
  | custom code => exact hu code h s

theorem Careful.runStep (hu : u.Careful) (o : Operation) (x : Host C σ × Statement)
    (step : Step (Hook C)) :
    (x.1.account x.2).Reaches ((u.runStep o x step).1.account (u.runStep o x step).2) := by
  cases step with
  | builtin o' =>
    exact (congrArg (Account.Reaches _) (runBuiltin_account u o x.1 x.2)).mpr (.refl _)
  | hook name anchor hook => exact hu.runHook hook x.1 x.2

theorem Careful.runSteps (hu : u.Careful) (o : Operation) (p : Pipeline (Hook C))
    (x : Host C σ × Statement) : (x.1.account x.2).Reaches
      ((p.foldl (u.runStep o) x).1.account (p.foldl (u.runStep o) x).2) := by
  induction p generalizing x with
  | nil => exact .refl _
  | cons step p ih => exact (hu.runStep o x step).trans (ih (u.runStep o x step))

theorem Careful.run (hu : u.Careful) (o : Operation) (h : Host C σ) (s : Statement) :
    (h.account s).Reaches ((u.run o h s).2.1.account (u.run o h s).2.2) :=
  hu.runSteps o (h.database.pipelines o) (h, s)

end UserCode
end DatabaseTracing
