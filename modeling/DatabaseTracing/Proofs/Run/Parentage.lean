import DatabaseTracing.Proofs.Run.Holding
import DatabaseTracing.Proofs.Telemetry.Origins

/-! # Parents of a statement's spans

A statement keeps its context, and every span that is started for it has the active
span of that context as parent: the spans of one statement are siblings. Statements
that are made under the spans of others form a chain. All spans of the chain belong to
the trace that its root gives, and none is recorded if the root is not sampled.
-/
namespace DatabaseTracing
variable {C σ : Type}

inductive StatementCall where
  | before (opts : Options) (spanName : String)
  | after (opts : Options)
  | run (o : Operation)

namespace UserCode
variable {u : UserCode C σ} {x y z : Host C σ × Statement} {spans spans' : List SpanRecord}

/-- The spans that the store has gained from the first state to the second. -/
def gained (x y : Host C σ × Statement) : List SpanRecord :=
  y.1.telemetry.records.drop x.1.telemetry.records.length

/-- The spans that a step of a run starts by the before hook. -/
def startedIn (u : UserCode C σ) (o : Operation) (x : Host C σ × Statement) :
    Step (Hook C) → List SpanRecord
  | .hook name anchor (.spanBefore opts spanName) =>
    gained x (u.runStep o x (.hook name anchor (.spanBefore opts spanName)))
  | _ => []

def startedAlong (u : UserCode C σ) (o : Operation) :
    Pipeline (Hook C) → Host C σ × Statement → List SpanRecord
  | [], _ => []
  | step :: p, x => u.startedIn o x step ++ u.startedAlong o p (u.runStep o x step)

/-- The call, and the spans that it starts. A hook that answers nothing has no effect. -/
def perform (u : UserCode C σ) (x : Host C σ × Statement) :
    StatementCall → List SpanRecord × Host C σ × Statement
  | .before opts spanName =>
    let y := (x.1.before opts spanName x.2).getD x
    (gained x y, y)
  | .after opts => ([], ((x.1.after opts x.2).map (·.2)).getD x)
  | .run o => (u.startedAlong o (x.1.database.pipelines o) x, (u.run o x.1 x.2).2)

def performAll (u : UserCode C σ) (x : Host C σ × Statement) :
    List StatementCall → List SpanRecord × Host C σ × Statement
  | [] => ([], x)
  | c :: cs =>
    let (spans, y) := u.perform x c
    let (spans', z) := u.performAll y cs
    (spans ++ spans', z)

/-- A statement from the state `x` on, with the spans that have been started for it. Whatever others
do to the host in between, they do not make an identifier again. -/
inductive Course (u : UserCode C σ) (x : Host C σ × Statement) :
    List SpanRecord → Host C σ × Statement → Prop
  | start : Course u x [] x
  | step {spans : List SpanRecord} {y : Host C σ × Statement} (hy : Course u x spans y)
      (o : Operation) (step : Step (Hook C)) :
      Course u x (spans ++ u.startedIn o y step) (u.runStep o y step)
  | elsewhere {spans : List SpanRecord} {y : Host C σ × Statement} {k : Host C σ}
      (hy : Course u x spans y) (hk : y.1.telemetry.nextIdent ≤ k.telemetry.nextIdent) :
      Course u x spans (k, y.2)

theorem Course.along (h : Course u x spans y) (o : Operation) (p : Pipeline (Hook C)) :
    Course u x (spans ++ u.startedAlong o p y) (p.foldl (u.runStep o) y) := by
  induction p generalizing spans y with
  | nil => exact (List.append_nil spans).symm ▸ h
  | cons step p ih =>
    rw [startedAlong, ← List.append_assoc]
    exact ih (h.step o step)

theorem Course.perform (h : Course u x spans y) (c : StatementCall) :
    Course u x (spans ++ (u.perform y c).1) (u.perform y c).2 := by
  cases c with
  | before opts spanName => exact h.step .query (.hook "" none (.spanBefore opts spanName))
  | after opts => exact h.step .query (.hook "" none (.spanAfter opts))
  | run o => exact h.along o (y.1.database.pipelines o)

theorem Course.performAll (h : Course u x spans y) (cs : List StatementCall) :
    Course u x (spans ++ (u.performAll y cs).1) (u.performAll y cs).2 := by
  induction cs generalizing spans y with
  | nil => exact (List.append_nil spans).symm ▸ h
  | cons c cs ih =>
    rw [UserCode.performAll, ← List.append_assoc]
    exact ih (h.perform c)

/-- The users' hooks leave the statement's context alone, put no span into the call state and do not
make an identifier again. -/
structure KeepsContext (u : UserCode C σ) : Prop where
  context : ∀ code h s, (u.hook code h s).2.context = s.context
  span : ∀ code h s, ∀ cx ∈ (u.hook code h s).2.callState.span, cx ∈ s.callState.span
  idents : ∀ code h s, h.telemetry.nextIdent ≤ (u.hook code h s).1.telemetry.nextIdent

end UserCode

/-- Spans that have been started under one context while the identifiers from `lo` to `hi` were
made. -/
structure Offspring (parent : Context) (lo hi : Nat) (spans : List SpanRecord) : Prop where
  parents : ∀ r ∈ spans, r.parent = parent.spanIdent
  fresh : ∀ r ∈ spans, ∃ n, r.context.span = .fresh n ∧ lo ≤ n ∧ n < hi
  distinct : (spans.map (·.context.span)).Nodup
  trace : ∀ a ∈ parent.active, ∀ r ∈ spans,
    r.context.trace = a.context.trace ∧ a.context.sampled = true

namespace Offspring
variable {parent : Context} {lo mid hi : Nat} {spans spans' : List SpanRecord}

theorem nil (parent : Context) (lo hi : Nat) : Offspring parent lo hi [] :=
  ⟨by simp, by simp, List.nodup_nil, by simp⟩

theorem widen (h : Offspring parent lo hi spans) {lo' hi' : Nat} (hlo : lo' ≤ lo)
    (hhi : hi ≤ hi') : Offspring parent lo' hi' spans :=
  { h with
    fresh := fun r hr => by
      obtain ⟨n, hn, hle, hlt⟩ := h.fresh r hr
      exact ⟨n, hn, Nat.le_trans hlo hle, Nat.lt_of_lt_of_le hlt hhi⟩ }

theorem append (h : Offspring parent lo mid spans) (h' : Offspring parent mid hi spans')
    (hlo : lo ≤ mid) (hhi : mid ≤ hi) : Offspring parent lo hi (spans ++ spans') where
  parents := List.forall_mem_append.mpr ⟨h.parents, h'.parents⟩
  fresh := List.forall_mem_append.mpr
    ⟨(h.widen (Nat.le_refl lo) hhi).fresh, (h'.widen hlo (Nat.le_refl hi)).fresh⟩
  distinct := by
    rw [List.map_append]
    refine List.nodup_append.mpr ⟨h.distinct, h'.distinct, ?_⟩
    simp only [List.forall_mem_map]
    intro r hr r' hr' heq
    obtain ⟨n, hn, -, hlt⟩ := h.fresh r hr
    obtain ⟨m, hm, hle, -⟩ := h'.fresh r' hr'
    rw [hn, hm] at heq
    exact Nat.not_le_of_lt hlt (Ident.fresh.inj heq ▸ hle)
  trace a ha := List.forall_mem_append.mpr ⟨h.trace a ha, h'.trace a ha⟩

/-- A span of the offspring has none of the others as parent, as the identifiers are new. -/
theorem parent_ne (h : Offspring parent lo hi spans)
    (hmade : ∀ n, parent.spanIdent = .fresh n → n < lo) {r r' : SpanRecord} (hr : r ∈ spans)
    (hr' : r' ∈ spans) : r'.parent ≠ r.context.span := by
  intro heq
  obtain ⟨n, hn, hle, -⟩ := h.fresh r hr
  rw [h.parents r' hr', hn] at heq
  exact Nat.not_le_of_lt (hmade n heq) hle

theorem ofStart {a : ActiveSpan} (h : Telemetry.Start parent lo a (spans.map SpanRecord.origin) hi) :
    Offspring parent lo hi spans := by
  rcases h.recorded with hnone | ⟨hone, hsampled, hfresh⟩
  · rw [List.map_eq_nil_iff.mp hnone]
    exact .nil ..
  · obtain ⟨r, rfl, horigin⟩ := List.map_eq_singleton_iff.mp hone
    obtain ⟨hcontext, hparent⟩ := Prod.mk.inj horigin
    have hall {p : SpanRecord → Prop} (hp : p r) : ∀ r' ∈ [r], p r' := List.forall_mem_singleton.mpr hp
    refine ⟨hall hparent, hall ?_, by simp, fun b hb => hall ?_⟩
    · rw [hcontext]
      exact hfresh
    · obtain ⟨htrace, hflag⟩ := h.child b hb
      rw [hcontext]
      exact ⟨htrace, hflag ▸ hsampled⟩

end Offspring

/-- The context of a call state carries on the trace of the statement's context. Without a parent,
it carries one of the recorded spans, unless the provider was the silent one. -/
def Context.PassesOn (parent : Context) (spans : List SpanRecord) (next : Context) : Prop :=
  ∃ a, next.active = some a ∧
    (∀ b ∈ parent.active, a.context.trace = b.context.trace ∧ a.context.sampled = b.context.sampled) ∧
    (parent.active = none → (∃ r ∈ spans, r.context = a.context) ∨ a.context = .zero)

theorem Context.PassesOn.mono {parent next : Context} {spans spans' : List SpanRecord}
    (h : parent.PassesOn spans next) (hsub : ∀ r ∈ spans, r ∈ spans') :
    parent.PassesOn spans' next := by
  obtain ⟨a, ha, hchild, hroot⟩ := h
  exact ⟨a, ha, hchild, fun hnone => (hroot hnone).imp_left fun ⟨r, hr, hcx⟩ => ⟨r, hsub r hr, hcx⟩⟩

namespace UserCode
variable {u : UserCode C σ} {x y z : Host C σ × Statement} {spans spans' : List SpanRecord}
  {opts : Options} {spanName : String}

/-- From one state of a statement to another the context stays, the spans have been started under
it, and so has the span that the call state has got. -/
structure Follows (x : Host C σ × Statement) (spans : List SpanRecord) (y : Host C σ × Statement) :
    Prop where
  context : y.2.context = x.2.context
  idents : x.1.telemetry.nextIdent ≤ y.1.telemetry.nextIdent
  absent : x.2.context = none → spans = []
  offspring : ∀ parent, x.2.context = some parent →
    Offspring parent x.1.telemetry.nextIdent y.1.telemetry.nextIdent spans
  callState : ∀ next ∈ y.2.callState.span, next ∈ x.2.callState.span ∨
    ∃ parent, x.2.context = some parent ∧ parent.PassesOn spans next

theorem Follows.quiet (hcontext : y.2.context = x.2.context)
    (hidents : x.1.telemetry.nextIdent ≤ y.1.telemetry.nextIdent)
    (hspan : ∀ next ∈ y.2.callState.span, next ∈ x.2.callState.span) : Follows x [] y :=
  ⟨hcontext, hidents, fun _ => rfl, fun _ _ => .nil .., fun next hnext => .inl (hspan next hnext)⟩

theorem Follows.refl (x : Host C σ × Statement) : Follows x [] x :=
  .quiet rfl (Nat.le_refl _) fun _ h => h

theorem Follows.trans (h : Follows x spans y) (h' : Follows y spans' z) :
    Follows x (spans ++ spans') z where
  context := h'.context.trans h.context
  idents := Nat.le_trans h.idents h'.idents
  absent hx := by rw [h.absent hx, h'.absent (h.context.trans hx), List.append_nil]
  offspring parent hx :=
    (h.offspring parent hx).append (h'.offspring parent (h.context.trans hx)) h.idents h'.idents
  callState next hnext := by
    rcases h'.callState next hnext with hnext | ⟨parent, hparent, hpass⟩
    · refine (h.callState next hnext).imp_right fun ⟨parent, hparent, hpass⟩ => ?_
      exact ⟨parent, hparent, hpass.mono fun r hr => List.mem_append_left _ hr⟩
    · exact .inr ⟨parent, h.context ▸ hparent, hpass.mono fun r hr => List.mem_append_right _ hr⟩

theorem gained_eq {new : List (SpanContext × Ident)}
    (h : y.1.telemetry.origins = x.1.telemetry.origins ++ new) :
    (gained x y).map SpanRecord.origin = new := by
  have hlength : x.1.telemetry.origins.length = x.1.telemetry.records.length := List.length_map ..
  rw [gained, List.map_drop, ← hlength]
  exact (congrArg (List.drop _) h).trans List.drop_left

theorem gained_self (x : Host C σ × Statement) : gained x x = [] := List.drop_length

/-- What an effective before hook does: it starts a span under the statement's context. -/
theorem before_start (hb : x.1.before opts spanName x.2 = some y) :
    ∃ parent a, x.2.context = some parent ∧ y.2.context = x.2.context ∧
      y.2.callState.span = some ⟨some a⟩ ∧
      y.1.telemetry.origins = x.1.telemetry.origins ++ (gained x y).map SpanRecord.origin ∧
      Telemetry.Start parent x.1.telemetry.nextIdent a ((gained x y).map SpanRecord.origin)
        y.1.telemetry.nextIdent := by
  obtain ⟨provider, parent, attributes, hparent, hstore, hcontext, hcallState⟩ := Host.before_spec hb
  obtain ⟨a, new, hspan, horigins, hstart⟩ :=
    x.1.telemetry.start_spec provider parent spanName attributes
  -- Letting go of the span that was left over does not change where spans come from.
  have hrelease := (Telemetry.releaseAll_sameBirths
    (x.1.telemetry.start provider parent spanName attributes).2 x.2.callState.span.toList).startsNone
  rw [← hstore] at hrelease
  have hgrown := hrelease.origins.trans horigins
  rw [hspan] at hcallState
  rw [← hrelease.nextIdent] at hstart
  rw [gained_eq hgrown]
  exact ⟨parent, a, hparent, hcontext, hcallState, hgrown, hstart⟩

theorem before_follows (hb : x.1.before opts spanName x.2 = some y) : Follows x (gained x y) y := by
  obtain ⟨parent, a, hparent, hcontext, hcallState, -, hstart⟩ := before_start hb
  refine ⟨hcontext, hstart.le, fun hx => ?_, fun cx hcx => ?_, fun next hnext => .inr ?_⟩
  · rw [hx] at hparent
    cases hparent
  · rw [hparent] at hcx
    exact Option.some.inj hcx ▸ .ofStart hstart
  · rw [hcallState] at hnext
    cases hnext
    refine ⟨parent, hparent, a, rfl, hstart.child, fun hroot => (hstart.root hroot).imp_left ?_⟩
    intro hmem
    obtain ⟨r, hr, horigin⟩ := List.mem_map.mp hmem
    exact ⟨r, hr, congrArg Prod.fst horigin⟩

theorem after_startsNone {r : CallReport} (ha : x.1.after opts x.2 = some (r, y)) :
    Telemetry.StartsNone x.1.telemetry y.1.telemetry := by
  obtain ⟨-, -, ha⟩ := Option.map_eq_some_iff.mp ha
  obtain ⟨-, rfl⟩ := Prod.mk.inj ha
  change Telemetry.StartsNone _ (x.1.closeSpan opts x.2).telemetry
  unfold Host.closeSpan
  split
  · exact .refl _
  · exact ((Telemetry.editAll_sameBirths ..).trans (Telemetry.release_sameBirths ..)).startsNone

theorem after_follows {r : CallReport} (ha : x.1.after opts x.2 = some (r, y)) : Follows x [] y := by
  have hidents := Nat.le_of_eq (after_startsNone ha).nextIdent.symm
  obtain ⟨-, -, ha⟩ := Option.map_eq_some_iff.mp ha
  obtain ⟨-, rfl⟩ := Prod.mk.inj ha
  exact .quiet rfl hidents nofun

/-- A step that is no user's hook starts nothing, or it is an effective before hook. -/
theorem runStep_cases (u : UserCode C σ) (o : Operation) (x : Host C σ × Statement)
    {step : Step (Hook C)} (hstep : ∀ name anchor code, step ≠ .hook name anchor (.custom code)) :
    (u.startedIn o x step = [] ∧ Follows x [] (u.runStep o x step) ∧
      Telemetry.StartsNone x.1.telemetry (u.runStep o x step).1.telemetry) ∨
    ∃ opts spanName, u.startedIn o x step = gained x (u.runStep o x step) ∧
      x.1.before opts spanName x.2 = some (u.runStep o x step) := by
  cases step with
  | builtin o' =>
    obtain ⟨user, rows, error, heq⟩ := u.runBuiltin_eq o x.1 x.2
    rw [UserCode.runStep, heq]
    exact .inl ⟨rfl, .quiet rfl (Nat.le_refl _) fun _ h => h, .refl _⟩
  | hook name anchor hook =>
    cases hook with
    | custom code => exact absurd rfl (hstep name anchor code)
    | spanAfter opts =>
      refine .inl ⟨rfl, ?_⟩
      rw [UserCode.runStep, runHook]
      cases ha : x.1.after opts x.2 with
      | none => exact ⟨.refl x, .refl _⟩
      | some y => exact ⟨after_follows ha, after_startsNone ha⟩
    | spanBefore opts spanName =>
      rw [startedIn, UserCode.runStep, runHook]
      cases hb : x.1.before opts spanName x.2 with
      | none => exact .inl ⟨gained_self x, .refl x, .refl _⟩
      | some y => exact .inr ⟨opts, spanName, rfl, hb⟩

theorem runStep_follows (u : UserCode C σ) (o : Operation) (x : Host C σ × Statement)
    {step : Step (Hook C)} (hstep : ∀ name anchor code, step ≠ .hook name anchor (.custom code)) :
    Follows x (u.startedIn o x step) (u.runStep o x step) := by
  rcases u.runStep_cases o x hstep with ⟨hnone, hquiet, -⟩ | ⟨opts, spanName, hgained, hb⟩
  · exact hnone ▸ hquiet
  · exact hgained ▸ before_follows hb

theorem runStep_origins (u : UserCode C σ) (o : Operation) (x : Host C σ × Statement)
    {step : Step (Hook C)} (hstep : ∀ name anchor code, step ≠ .hook name anchor (.custom code)) :
    (u.runStep o x step).1.telemetry.origins =
      x.1.telemetry.origins ++ (u.startedIn o x step).map SpanRecord.origin := by
  rcases u.runStep_cases o x hstep with ⟨hnone, -, hstarts⟩ | ⟨opts, spanName, hgained, hb⟩
  · rw [hstarts.origins, hnone, List.map_nil, List.append_nil]
  · obtain ⟨_, _, -, -, -, hgrown, -⟩ := before_start hb
    exact hgained ▸ hgrown

theorem KeepsContext.runStep (hu : u.KeepsContext) (o : Operation) (x : Host C σ × Statement)
    (step : Step (Hook C)) : Follows x (u.startedIn o x step) (u.runStep o x step) := by
  by_cases hstep : ∃ name anchor code, step = .hook name anchor (.custom code)
  · obtain ⟨name, anchor, code, rfl⟩ := hstep
    exact .quiet (hu.context code x.1 x.2) (hu.idents code x.1 x.2) (hu.span code x.1 x.2)
  · exact u.runStep_follows o x fun name anchor code h => hstep ⟨name, anchor, code, h⟩

theorem Course.follows (hu : u.KeepsContext) (h : Course u x spans y) : Follows x spans y := by
  induction h with
  | start => exact .refl x
  | step hy o step ih => exact ih.trans (hu.runStep o _ step)
  | elsewhere hy hk ih =>
    exact { ih with
      idents := Nat.le_trans ih.idents hk
      offspring := fun parent hx => (ih.offspring parent hx).widen (Nat.le_refl _) hk }

/-- Statements of which each is made under the span in the call state of the one before it, the
first one under the context `root`. The spans are those of all statements, also those that come
after the next statement has been made, and `tip` is the context of the last one's call state. -/
inductive Chain (u : UserCode C σ) (root : Context) : List SpanRecord → Context → Prop
  | root : Chain u root [] root
  | link {spans spans₁ spans₂ : List SpanRecord} {parent next : Context} {h : Host C σ}
      {sql : String} {vars : List Json} {y z : Host C σ × Statement}
      (hparent : Chain u root spans parent)
      (hy : Course u (h, .make (some parent) sql vars) spans₁ y)
      (hnext : next ∈ y.2.callState.span) (hz : Course u y spans₂ z) :
      Chain u root (spans ++ (spans₁ ++ spans₂)) next

theorem Course.passesOn (hu : u.KeepsContext) {h : Host C σ} {parent next : Context} {sql : String}
    {vars : List Json} (hy : Course u (h, .make (some parent) sql vars) spans y)
    (hnext : next ∈ y.2.callState.span) : parent.PassesOn spans next := by
  -- The statement was made with an empty call state, so the span has come into it since.
  rcases (hy.follows hu).callState next hnext with hmade | ⟨_, hparent, hpass⟩
  · cases hmade
  · exact Option.some.inj hparent ▸ hpass

/-- The flag and the trace of the root go along the chain. -/
theorem Chain.inherits (hu : u.KeepsContext) {root tip : Context} {a : ActiveSpan}
    (h : Chain u root spans tip) (ha : root.active = some a) :
    (∃ b, tip.active = some b ∧ b.context.trace = a.context.trace ∧
      b.context.sampled = a.context.sampled) ∧
    ∀ r ∈ spans, r.context.trace = a.context.trace ∧ a.context.sampled = true := by
  induction h with
  | root => exact ⟨⟨a, ha, rfl, rfl⟩, by simp⟩
  | link hparent hy hnext hz ih =>
    obtain ⟨⟨b, hb, htrace, hsampled⟩, hspans⟩ := ih
    obtain ⟨c, hc, hchild, -⟩ := hy.passesOn hu hnext
    obtain ⟨hctrace, hcsampled⟩ := hchild b hb
    -- What comes after the next statement was made is under the same context still.
    have hoffspring := ((hy.follows hu).trans (hz.follows hu)).offspring _ rfl
    refine ⟨⟨c, hc, hctrace.trans htrace, hcsampled.trans hsampled⟩,
      List.forall_mem_append.mpr ⟨hspans, fun r hr => ?_⟩⟩
    obtain ⟨hrtrace, hrsampled⟩ := hoffspring.trace b hb r hr
    exact ⟨hrtrace.trans htrace, hsampled ▸ hrsampled⟩

theorem Chain.governed (hu : u.KeepsContext) {root tip : Context} {a : ActiveSpan}
    (h : Chain u root spans tip) (ha : root.active = some a) :
    (∀ r ∈ spans, r.context.trace = a.context.trace) ∧
      (a.context.sampled = false → spans = []) := by
  have hspans := (h.inherits hu ha).2
  refine ⟨fun r hr => (hspans r hr).1, fun hsampled => ?_⟩
  refine List.eq_nil_iff_forall_not_mem.mpr fun r hr => ?_
  rw [hsampled] at hspans
  cases (hspans r hr).2

/-- The spans that are started for a statement between two of its states. -/
structure Siblings (x : Host C σ × Statement) (spans : List SpanRecord)
    (y : Host C σ × Statement) : Prop where
  context : y.2.context = x.2.context
  /-- Their parent is the active span of the statement's context. -/
  parents : ∀ r ∈ spans, ∃ parent, x.2.context = some parent ∧ r.parent = parent.spanIdent
  distinct : (spans.map (·.context.span)).Nodup
  /-- None of them is another one's parent, as the active span is from before. -/
  siblings : ∀ parent, x.2.context = some parent →
    (∀ n, parent.spanIdent = .fresh n → n < x.1.telemetry.nextIdent) →
      ∀ r ∈ spans, ∀ r' ∈ spans, r'.parent ≠ r.context.span

theorem Follows.toSiblings (h : Follows x spans y) : Siblings x spans y := by
  cases hx : x.2.context with
  | none =>
    rw [h.absent hx]
    exact ⟨h.context, by simp, List.nodup_nil, by simp⟩
  | some parent =>
    have hoffspring := h.offspring parent hx
    refine ⟨h.context, fun r hr => ⟨parent, hx, hoffspring.parents r hr⟩, hoffspring.distinct, ?_⟩
    intro parent' hparent' hmade r hr r' hr'
    obtain rfl : parent = parent' := Option.some.inj (hx.symm.trans hparent')
    exact hoffspring.parent_ne hmade hr hr'

/-- Among the spans of the first statement is the one that begins the trace of all spans behind it;
it is carried by the context that the second statement is made under. -/
def Begins (first : List SpanRecord) (next : Context) (spans : List SpanRecord) : Prop :=
  spans = [] ∨ ∃ r ∈ first, r.parent = .zero ∧ next.active.map (·.context) = some r.context ∧
    ∀ r' ∈ spans, r'.context.trace = r.context.trace

/-- How the spans of statements come from their contexts. -/
structure Parentage (u : UserCode C σ) : Prop where
  calls : ∀ x cs, Course u x (u.performAll x cs).1 (u.performAll x cs).2
  siblings : ∀ x spans y, Course u x spans y → Siblings x spans y
  /-- The spans of a chain are in the trace of the root's active span, and there are none if that is
  not sampled. -/
  chain : ∀ root spans tip, Chain u root spans tip → ∀ a ∈ root.active,
    (∀ r ∈ spans, r.context.trace = a.context.trace) ∧ (a.context.sampled = false → spans = [])
  /-- If the root has no active span, a span of the first statement begins the trace. -/
  begun : ∀ h root sql vars first y next spans tip, root.active = none →
    Course u (h, .make (some root) sql vars) first y → next ∈ y.2.callState.span →
      Chain u next spans tip → Begins first next spans

theorem Chain.begins (hu : u.KeepsContext) {h : Host C σ} {root next tip : Context} {sql : String}
    {vars : List Json} (hroot : root.active = none)
    (hy : Course u (h, .make (some root) sql vars) spans y) (hnext : next ∈ y.2.callState.span)
    (hchain : Chain u next spans' tip) : Begins spans next spans' := by
  obtain ⟨a, ha, -, hbegun⟩ := hy.passesOn hu hnext
  have hspans' := (hchain.inherits hu ha).2
  rcases hbegun hroot with ⟨r, hr, hcontext⟩ | hzero
  · refine .inr ⟨r, hr, ?_, by rw [ha, hcontext]; rfl, fun r' hr' => ?_⟩
    · rw [((hy.follows hu).offspring root rfl).parents r hr, Context.spanIdent, hroot]
      rfl
    · rw [hcontext]
      exact (hspans' r' hr').1
  -- The silent provider has put no span into the context, and nothing is recorded under that.
  · refine .inl (List.eq_nil_iff_forall_not_mem.mpr fun r' hr' => ?_)
    have hsampled := (hspans' r' hr').2
    rw [hzero] at hsampled
    cases hsampled

/-- A step that is no user's hook leaves the context alone, and so does every sequence of calls if
the users' hooks do. -/
theorem spans_follow_context (u : UserCode C σ) :
    (∀ o x step, (∀ name anchor code, step ≠ .hook name anchor (.custom code)) →
      Siblings x (u.startedIn o x step) (u.runStep o x step) ∧
        (u.runStep o x step).1.telemetry.origins =
          x.1.telemetry.origins ++ (u.startedIn o x step).map SpanRecord.origin) ∧
    (u.KeepsContext → Parentage u) := by
  refine ⟨fun o x step hstep => ?_, fun hu => ?_⟩
  · exact ⟨(u.runStep_follows o x hstep).toSiblings, u.runStep_origins o x hstep⟩
  · exact {
      calls := fun x cs => Course.start.performAll cs
      siblings := fun x spans y hy => (hy.follows hu).toSiblings
      chain := fun root spans tip hc a ha => hc.governed hu ha
      begun := fun h root sql vars first y next spans tip hroot hy hnext hc =>
        hc.begins hu hroot hy hnext }

/-- The users' hook takes the statement's context away, or it does nothing. -/
def taking (detach : Bool) : UserCode Unit Unit where
  hook _ h s :=
    if detach then
      ({ h with telemetry := h.telemetry.releaseAll s.context.toList }, { s with context := none })
    else (h, s)
  driver _ _ x := (.ok 1, x)

/-- The users' hook stands ahead of the built-in step. -/
def takingHost : Host Unit Unit :=
  ⟨((Database.create "db" .mysql).register .query (.before "db:query") "take" (.custom ())).2,
    .initial, [], ()⟩

theorem taking_keepsContext : (taking false).KeepsContext :=
  ⟨fun _ _ _ => rfl, fun _ _ _ _ h => h, fun _ _ _ => Nat.le_refl _⟩

/-- A statement under a sampled parent from elsewhere, and one under the span of the first. -/
theorem spans_follow_context_remote :
    let root := Context.ofRemote "a1" "b2" true
    (taking false).KeepsContext ∧ ∃ spans tip, Chain (taking false) root spans tip ∧
      spans.map (·.parent) = [.ofHex "b2", .ofHex "b2", .fresh 1] ∧
        ∀ r ∈ spans, r.context.trace = .ofHex "a1" := by
  intro root
  have hu := taking_keepsContext
  obtain ⟨-, hparentage⟩ := spans_follow_context (taking false)
  let before := StatementCall.before (.ofChanges [.tracer (some (.recording "p"))]) "query"
  let x : Host Unit Unit × Statement := (takingHost, .make (some root) "SELECT 1" [])
  let y := ((taking false).performAll x [before]).2
  have hfirst : Chain (taking false) root _ ⟨some ⟨⟨.ofHex "a1", .fresh 1, true⟩, some 0⟩⟩ :=
    .link .root ((hparentage hu).calls x [before]) rfl ((hparentage hu).calls y [.run .query, before])
  let x' : Host Unit Unit × Statement :=
    (y.1, .make (some ⟨some ⟨⟨.ofHex "a1", .fresh 1, true⟩, some 0⟩⟩) "SELECT 2" [])
  have hsecond := Chain.link hfirst ((hparentage hu).calls x' [before]) rfl .start
  exact ⟨hu, _, _, hsecond, rfl, ((hparentage hu).chain _ _ _ hsecond _ rfl).1⟩

/-- A user's hook can take the context away in a run. And without a parent, each span of a statement
begins a trace. -/
theorem context_taken_in_run :
    let x : Host Unit Unit × Statement := (takingHost, .make (some .empty) "SELECT 1" [])
    let before := StatementCall.before (.ofChanges [.tracer (some (.recording "p"))]) "query"
    x.2.context = some .empty ∧ ((taking true).performAll x [.run .query]).2.2.context = none ∧
      ((taking true).performAll x [before, before]).1.map (·.context.trace) =
        [.fresh 0, .fresh 2] :=
  ⟨rfl, rfl, rfl⟩

end UserCode
end DatabaseTracing
