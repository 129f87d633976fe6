import DatabaseTracing.Proofs.Run.Pairing
import DatabaseTracing.Proofs.Run.Silence
import DatabaseTracing.Proofs.Telemetry.Kinship

/-! # Which spans the global provider has no say in

A ledger is kept beside what is done to a statement: which spans have been started by
sources of their own under contexts that derive from no span of the global source. If two
states of a statement have these spans in common, so have the states behind a run,
whatever the global providers are: the spans that the run adds to the ledgers are pairs.
-/
namespace DatabaseTracing
variable {C σ : Type}

/-! ### What a statement holds -/

/-- The span store, and what a statement holds of it. -/
structure Holdings where
  telemetry : Telemetry
  context : Option Context
  span : Option Context

def Host.holdings (h : Host C σ) (s : Statement) : Holdings :=
  ⟨h.telemetry, s.context, s.callState.span⟩

/-- Whether what a statement holds derives from a span of the global source. -/
structure Marks where
  context : Bool
  span : Bool
  deriving DecidableEq

/-- What users' hooks can do with the spans of a statement without looking at them. -/
inductive Handling where
  | edit (e : SpanEdit)
  /-- Edits the span that the statement was made under. -/
  | editParent (e : SpanEdit)
  | drop
  | detach
  /-- Gives the statement an empty context, or one from elsewhere. -/
  | attach (remote : Option (String × String × Bool))
  | setGlobal (p : Provider)

namespace Handling

def apply (x : Holdings) : Handling → Holdings
  | edit e => { x with telemetry := x.span.elim x.telemetry (x.telemetry.edit · e) }
  | editParent e => { x with telemetry := x.context.elim x.telemetry (x.telemetry.edit · e) }
  | drop => { x with telemetry := x.telemetry.releaseAll x.span.toList, span := none }
  | detach => { x with telemetry := x.telemetry.releaseAll x.context.toList, context := none }
  | attach remote =>
    { x with
      telemetry := x.telemetry.releaseAll x.context.toList
      context := some <| remote.elim .empty fun (trace, span, sampled) =>
        .ofRemote trace span sampled }
  | setGlobal p => { x with telemetry := x.telemetry.setGlobal p }

def mark (m : Marks) : Handling → Marks
  | drop => { m with span := false }
  | detach => { m with context := false }
  | attach _ => { m with context := false }
  | _ => m

end Handling

section
open Telemetry
variable {pairs : List (Context × Context)} {t t' u u' : Telemetry}

/-- Contexts from elsewhere go together. -/
theorem linked_outside (pairs : List (Context × Context)) {c : Context} (hrecord : c.record = none)
    (hident : ∀ a ∈ c.active, ∀ n, a.context.span ≠ .fresh n) : Linked pairs c c := by
  refine ⟨?_, by rw [hrecord]; exact .none⟩
  rcases c with ⟨_ | a⟩
  · exact .none
  · exact .some ⟨rfl, .inl ⟨rfl, hident a rfl⟩⟩

theorem linked_empty (pairs : List (Context × Context)) : Linked pairs .empty .empty :=
  linked_outside pairs rfl fun _ h => by cases h

theorem linked_remote (pairs : List (Context × Context)) (trace span : String) (sampled : Bool) :
    Linked pairs (.ofRemote trace span sampled) (.ofRemote trace span sampled) := by
  refine linked_outside pairs rfl fun a ha n => ?_
  obtain rfl := Option.some.inj ha
  change Ident.ofHex span ≠ .fresh n
  unfold Ident.ofHex
  split <;> exact Ident.noConfusion

theorem tie_none (pairs : List (Context × Context)) (t t' : Telemetry) :
    Tie pairs t t' false none none :=
  ⟨fun _ => .none, nofun⟩

theorem Telemetry.Linked.tie {c c' : Context} (h : Linked pairs c c') (t t' : Telemetry) :
    Tie pairs t t' false (some c) (some c') :=
  ⟨fun _ => .some h, nofun⟩

theorem releaseAll_toList (t : Telemetry) (c : Option Context) :
    t.releaseAll c.toList = c.elim t t.release := by
  cases c <;> rfl

namespace Holdings
variable {m : Marks} {x x' : Holdings}

/-- The stores have the spans of the pairs in common, and what is held goes together. -/
structure Tied (pairs : List (Context × Context)) (m : Marks) (x x' : Holdings) : Prop where
  kin : Kin pairs x.telemetry x'.telemetry
  context : Tie pairs x.telemetry x'.telemetry m.context x.context x'.context
  span : Tie pairs x.telemetry x'.telemetry m.span x.span x'.span

/-- The stores have become others by what was done elsewhere. -/
theorem Tied.elsewhere (h : Tied pairs m x x') {pairs' : List (Context × Context)}
    (hkin : Kin pairs' u u') (hgrown : Grown pairs x.telemetry x'.telemetry pairs' u u') :
    Tied pairs' m { x with telemetry := u } { x' with telemetry := u' } :=
  ⟨hkin, h.context.grown hgrown, h.span.grown hgrown⟩

/-- The same is done to the spans of the call states. -/
theorem Tied.onSpan (h : Tied pairs m x x') {f : Telemetry → Context → Telemetry}
    (hf : Evenhanded f) :
    let y := { x with telemetry := x.span.elim x.telemetry (f x.telemetry) }
    let y' := { x' with telemetry := x'.span.elim x'.telemetry (f x'.telemetry) }
    Tied pairs m y y' ∧ Grown pairs x.telemetry x'.telemetry pairs y.telemetry y'.telemetry := by
  obtain ⟨hkin, hgrown⟩ := h.kin.both hf h.span
  exact ⟨h.elsewhere hkin hgrown, hgrown⟩

theorem Tied.onContext (h : Tied pairs m x x') {f : Telemetry → Context → Telemetry}
    (hf : Evenhanded f) :
    let y := { x with telemetry := x.context.elim x.telemetry (f x.telemetry) }
    let y' := { x' with telemetry := x'.context.elim x'.telemetry (f x'.telemetry) }
    Tied pairs m y y' ∧ Grown pairs x.telemetry x'.telemetry pairs y.telemetry y'.telemetry := by
  obtain ⟨hkin, hgrown⟩ := h.kin.both hf h.context
  exact ⟨h.elsewhere hkin hgrown, hgrown⟩

theorem Tied.apply (h : Tied pairs m x x') (a : Handling) :
    Tied pairs (a.mark m) (a.apply x) (a.apply x') ∧ Grown pairs x.telemetry x'.telemetry pairs
      (a.apply x).telemetry (a.apply x').telemetry := by
  cases a with
  | edit e => exact h.onSpan (editAll_evenhanded [e])
  | editParent e => exact h.onContext (editAll_evenhanded [e])
  | drop =>
    obtain ⟨hx, hgrown⟩ := h.onSpan release_evenhanded
    simp only [Handling.apply, releaseAll_toList]
    exact ⟨⟨hx.kin, hx.context, tie_none ..⟩, hgrown⟩
  | detach =>
    obtain ⟨hx, hgrown⟩ := h.onContext release_evenhanded
    simp only [Handling.apply, releaseAll_toList]
    exact ⟨⟨hx.kin, tie_none .., hx.span⟩, hgrown⟩
  | attach remote =>
    obtain ⟨hx, hgrown⟩ := h.onContext release_evenhanded
    simp only [Handling.apply, releaseAll_toList]
    refine ⟨⟨hx.kin, ?_, hx.span⟩, hgrown⟩
    cases remote with
    | none => exact (linked_empty pairs).tie ..
    | some r => exact (linked_remote pairs ..).tie ..
  | setGlobal p =>
    have hgrown : Grown pairs x.telemetry x'.telemetry pairs (x.telemetry.setGlobal p)
        (x'.telemetry.setGlobal p) := .same (Nat.le_refl _) (Nat.le_refl _)
    have hkin := h.kin.beside (setGlobal_beside _ _ p) (setGlobal_beside _ _ p)
    exact ⟨h.elsewhere hkin hgrown, hgrown⟩

theorem Tied.applyAll (h : Tied pairs m x x') (as : List Handling) :
    Tied pairs (as.foldl Handling.mark m) (as.foldl Handling.apply x) (as.foldl Handling.apply x') ∧
      Grown pairs x.telemetry x'.telemetry pairs (as.foldl Handling.apply x).telemetry
        (as.foldl Handling.apply x').telemetry := by
  induction as generalizing m x x' with
  | nil => exact ⟨h, .same (Nat.le_refl _) (Nat.le_refl _)⟩
  | cons a as ih =>
    obtain ⟨hstep, hgrown⟩ := h.apply a
    obtain ⟨hrest, hlast⟩ := ih hstep
    exact ⟨hrest, hgrown.trans hlast⟩

/-- A span has been started, and the one in the call state makes room for it. -/
def begun (x : Holdings) (started : Context × Telemetry) : Holdings :=
  ⟨started.2.releaseAll x.span.toList, x.context, some started.1⟩

/-- Letting go of the spans that were held before, once others have been started. -/
theorem Tied.replace (h : Tied pairs m x x') {pairs' : List (Context × Context)} {derived : Bool}
    {started started' : Context × Telemetry} (hkin : Kin pairs' started.2 started'.2)
    (hgrown : Grown pairs x.telemetry x'.telemetry pairs' started.2 started'.2)
    (hnew : Tie pairs' started.2 started'.2 derived (some started.1) (some started'.1)) :
    Tied pairs' { m with span := derived } (x.begun started) (x'.begun started') ∧
      Grown pairs x.telemetry x'.telemetry pairs' (x.begun started).telemetry
        (x'.begun started').telemetry := by
  obtain ⟨hrelease, hlast⟩ := hkin.both release_evenhanded (h.span.grown hgrown)
  simp only [begun, releaseAll_toList]
  exact ⟨⟨hrelease, (h.context.grown hgrown).grown hlast, hnew.grown hlast⟩, hgrown.trans hlast⟩

/-- One provider starts spans under contexts that go together: they are a new pair. -/
theorem Tied.begin_own (h : Tied pairs m x x') (hm : m.context = false) (p : Provider)
    (name : String) (attributes : List Attribute) {parent parent' : Context}
    (hx : x.context = some parent) (hx' : x'.context = some parent') :
    let started := x.telemetry.start p parent name attributes
    let started' := x'.telemetry.start p parent' name attributes
    Tied (pairs ++ [(started.1, started'.1)]) { m with span := false } (x.begun started)
        (x'.begun started') ∧
      Grown pairs x.telemetry x'.telemetry (pairs ++ [(started.1, started'.1)])
        (x.begun started).telemetry (x'.begun started').telemetry := by
  intro started started'
  have hlink := h.context.linked hm
  rw [hx, hx'] at hlink
  obtain ⟨hlink⟩ := hlink
  obtain ⟨a, a', ha, ha', hsampled, hstarted⟩ := start_twins (.inl ⟨rfl, nofun⟩) hlink.agree
    x.telemetry x'.telemetry p name attributes
  have ha : started.1 = ⟨some a⟩ := ha
  have ha' : started'.1 = ⟨some a'⟩ := ha'
  have hkin := h.kin.start hstarted
  obtain ⟨hplace, hplace'⟩ := hstarted.place
  have hgrown : Grown pairs x.telemetry x'.telemetry (pairs ++ [(⟨some a⟩, ⟨some a'⟩)]) started.2
      started'.2 :=
    ⟨⟨_, rfl, List.forall_mem_singleton.mpr ⟨fun q hq => (hplace q hq).ge,
      fun q hq => (hplace' q hq).ge⟩⟩, hstarted.length.1, hstarted.length.2⟩
  have hnew : Linked (pairs ++ [(⟨some a⟩, ⟨some a'⟩)]) ⟨some a⟩ ⟨some a'⟩ := by
    refine ⟨.some ⟨hsampled, .inr ⟨_, List.mem_append_right _ List.mem_cons_self, rfl, rfl⟩⟩, ?_⟩
    exact optionRel_mono hstarted.new fun q hq n hn _ => paired_concat.mpr (.inr ⟨hq, hn⟩)
  rw [← ha, ← ha'] at hkin hgrown hnew
  exact h.replace hkin hgrown (hnew.tie ..)

/-- Spans are started that derive from spans of the global source. -/
theorem Tied.begin_derived (h : Tied pairs m x x') (p p' : Provider) (parent parent' : Context)
    (name : String) (attributes : List Attribute) :
    let started := x.telemetry.start p parent name attributes
    let started' := x'.telemetry.start p' parent' name attributes
    Tied pairs { m with span := true } (x.begun started) (x'.begun started') ∧
      Grown pairs x.telemetry x'.telemetry pairs (x.begun started).telemetry
        (x'.begun started').telemetry := by
  intro started started'
  obtain ⟨hlt, hlt'⟩ := h.kin.owned_lt
  obtain ⟨hbeside, hforeign⟩ := start_beside hlt p parent name attributes
  obtain ⟨hbeside', hforeign'⟩ := start_beside hlt' p' parent' name attributes
  refine h.replace (h.kin.beside hbeside hbeside') (.same hbeside.length hbeside'.length) ?_
  refine ⟨nofun, fun _ => ⟨fun d hd => ?_, fun d hd => ?_⟩⟩
  · exact Option.some.inj hd ▸ hforeign
  · exact Option.some.inj hd ▸ hforeign'

end Holdings
end

/-! ### Ledgers -/

/-- The spans that have been started by sources of their own under contexts that derive from no span
of the global source, in the order of their start; and what a statement holds. -/
structure Ledger where
  own : List Context
  marks : Marks

namespace Ledger

/-- A span has been started. -/
def enter (l : Ledger) (derived : Bool) (c : Context) : Ledger :=
  ⟨if derived then l.own else l.own ++ [c], { l.marks with span := derived }⟩

/-- The call state has been emptied. -/
def clear (l : Ledger) : Ledger := ⟨l.own, { l.marks with span := false }⟩

/-- The ledger behind a step. What users' hooks do to spans is told by `plan`. -/
def afterStep (plan : C → Host C σ → Statement → List Handling) (x : Host C σ × Statement)
    (l : Ledger) : Step (Hook C) → Ledger
  | .builtin _ => l
  | .hook _ _ (.spanBefore o spanName) =>
    (x.1.startedSpan o spanName x.2).elim l (l.enter (l.marks.context || o.tracer.isGlobal))
  | .hook _ _ (.spanAfter _) => if x.2.context.isSome then l.clear else l
  | .hook _ _ (.custom code) =>
    ⟨l.own, (plan code x.1 x.2).foldl Handling.mark l.marks⟩

def afterSteps (plan : C → Host C σ → Statement → List Handling) (u : UserCode C σ)
    (o : Operation) : Pipeline (Hook C) → Host C σ × Statement → Ledger → Ledger
  | [], _, l => l
  | s :: p, x, l => afterSteps plan u o p (u.runStep o x s) (l.afterStep plan x s)

end Ledger

namespace UserCode
open Telemetry
variable {u : UserCode C σ} {plan : C → Host C σ → Statement → List Handling}
  {R : σ → σ → Prop} {pairs : List (Context × Context)} {l l' : Ledger}
  {x x' : Host C σ × Statement}

/-- The users' hooks do to a statement's spans what the plan says, and that does not go by what spans
are there, nor does anything else that they do. -/
structure Handles (u : UserCode C σ) (plan : C → Host C σ → Statement → List Handling)
    (R : σ → σ → Prop) : Prop where
  incurious : u.Incurious R
  blind : ∀ code {x y : Host C σ × Statement}, Hushed R x y →
    plan code x.1 x.2 = plan code y.1 y.2
  database : ∀ code {x y : Host C σ × Statement}, Hushed R x y → x.1.database = y.1.database →
    (u.hook code x.1 x.2).1.database = (u.hook code y.1 y.2).1.database
  holdings : ∀ code h s, (u.hook code h s).1.holdings (u.hook code h s).2 =
    (plan code h s).foldl Handling.apply (h.holdings s)

/-- Two states of a statement that differ in other spans than those of the pairs only, which are the
spans in the ledgers. -/
structure Tied (R : σ → σ → Prop) (pairs : List (Context × Context)) (l l' : Ledger)
    (x x' : Host C σ × Statement) : Prop where
  left : pairs.map Prod.fst = l.own
  right : pairs.map Prod.snd = l'.own
  marks : l.marks = l'.marks
  hushed : Hushed R x x'
  database : x.1.database = x'.1.database
  holdings : Holdings.Tied pairs l.marks (x.1.holdings x.2) (x'.1.holdings x'.2)

/-- The states that come next are tied again, perhaps by further pairs. -/
def Leads (R : σ → σ → Prop) (pairs : List (Context × Context)) (x x' : Host C σ × Statement)
    (l l' : Ledger) (y y' : Host C σ × Statement) : Prop :=
  ∃ pairs', Tied R pairs' l l' y y' ∧ Grown pairs x.1.telemetry x'.1.telemetry pairs'
    y.1.telemetry y'.1.telemetry

theorem Leads.of_holdings {pairs' : List (Context × Context)} {y y' : Host C σ × Statement}
    {z z' : Holdings} (hushed : Hushed R y y') (database : y.1.database = y'.1.database)
    (left : pairs'.map Prod.fst = l.own) (right : pairs'.map Prod.snd = l'.own)
    (marks : l.marks = l'.marks) (hy : y.1.holdings y.2 = z) (hy' : y'.1.holdings y'.2 = z')
    (h : Holdings.Tied pairs' l.marks z z' ∧
      Grown pairs x.1.telemetry x'.1.telemetry pairs' z.telemetry z'.telemetry) :
    Leads R pairs x x' l l' y y' := by
  subst hy hy'
  exact ⟨pairs', ⟨left, right, marks, hushed, database, h.1⟩, h.2⟩

theorem Tied.refl (h : Tied R pairs l l' x x') : Leads R pairs x x' l l' x x' :=
  ⟨pairs, h, .same (Nat.le_refl _) (Nat.le_refl _)⟩

/-- What an effective before hook comes to. -/
theorem before_begun (x : Host C σ × Statement) {parent : Context} (hx : x.2.context = some parent)
    (o : Options) (spanName : String) :
    let started := x.1.telemetry.start (o.tracer.resolve x.1.telemetry) parent spanName
      x.1.spanAttributes
    x.1.startedSpan o spanName x.2 = some started.1 ∧
      ∃ y, x.1.before o spanName x.2 = some y ∧ y.1.database = x.1.database ∧
        y.1.holdings y.2 = (x.1.holdings x.2).begun started := by
  intro started
  have hb : x.1.before o spanName x.2 = some
      ({ x.1 with telemetry := started.2.releaseAll x.2.callState.span.toList },
        { x.2 with callState := ⟨true, some started.1⟩ }) :=
    Option.map_eq_some_iff.mpr ⟨parent, hx, rfl⟩
  have hspan : x.1.startedSpan o spanName x.2 = some started.1 :=
    Option.map_eq_some_iff.mpr ⟨parent, hx, rfl⟩
  exact ⟨hspan, _, hb, rfl, rfl⟩

theorem Tied.before (h : Tied R pairs l l' x x') (o : Options) (spanName : String) :
    Leads R pairs x x'
      ((x.1.startedSpan o spanName x.2).elim l (l.enter (l.marks.context || o.tracer.isGlobal)))
      ((x'.1.startedSpan o spanName x'.2).elim l' (l'.enter (l'.marks.context || o.tracer.isGlobal)))
      ((x.1.before o spanName x.2).getD x) ((x'.1.before o spanName x'.2).getD x') := by
  have hhushed := (h.hushed.before o o spanName).2
  have hcontext := h.hushed.statement.context
  cases hx : x.2.context <;> cases hx' : x'.2.context <;> rw [hx, hx'] at hcontext
  · simpa [Host.startedSpan, Host.before, hx, hx'] using h.refl
  · cases hcontext
  · cases hcontext
  · rename_i parent parent'
    obtain ⟨hspan, y, hb, hdatabase, hy⟩ := before_begun x hx o spanName
    obtain ⟨hspan', y', hb', hdatabase', hy'⟩ := before_begun x' hx' o spanName
    have hsame : y.1.database = y'.1.database := hdatabase.trans (h.database.trans hdatabase'.symm)
    have hattributes : x.1.spanAttributes = x'.1.spanAttributes := by
      rw [Host.spanAttributes, Host.spanAttributes, h.database]
    rw [hb, hb', Option.getD_some, Option.getD_some] at hhushed ⊢
    rw [hspan, hspan', Option.elim_some, Option.elim_some, ← h.marks, ← hattributes]
    rw [← hattributes] at hy'
    cases hderived : l.marks.context || o.tracer.isGlobal with
    | true =>
      exact .of_holdings hhushed hsame h.left h.right (congrArg (Marks.mk ·.context true) h.marks)
        hy hy' (h.holdings.begin_derived ..)
    | false =>
      obtain ⟨hmark, hsource⟩ := Bool.or_eq_false_iff.mp hderived
      have hresolve : o.tracer.resolve x.1.telemetry = o.tracer.resolve x'.1.telemetry := by
        cases htracer : o.tracer with
        | global => simp [htracer, TracerSource.isGlobal] at hsource
        | provider p => rfl
      rw [← hresolve] at hy' ⊢
      refine .of_holdings hhushed hsame ?_ ?_ (congrArg (Marks.mk ·.context false) h.marks)
        hy hy' (h.holdings.begin_own hmark _ spanName _ hx hx')
      · rw [List.map_append, h.left]
        rfl
      · rw [List.map_append, h.right]
        rfl

/-- What an effective after hook comes to: it edits the span and lets go of it. -/
theorem after_closed (x : Host C σ × Statement) (hx : x.2.context.isSome = true) (o : Options) :
    ∃ y, (x.1.after o x.2).map (·.2) = some y ∧ y.1.database = x.1.database ∧
      y.1.holdings y.2 = Handling.drop.apply { x.1.holdings x.2 with
        telemetry := x.2.callState.span.elim x.1.telemetry
          (x.1.telemetry.editAll · (o.closingEdits x.1.database.dialect x.2)) } := by
  obtain ⟨parent, hparent⟩ := Option.isSome_iff_exists.mp hx
  obtain ⟨t, hclose, -⟩ := Host.closeSpan_frame o x.1 x.2
  have ha : (x.1.after o x.2).map (·.2) = some
      ((x.1.closeSpan o x.2).logged ((x.1.report o x.2).event x.1.database.name),
        { x.2 with callState := .empty }) :=
    Option.map_eq_some_iff.mpr ⟨_, Option.map_eq_some_iff.mpr ⟨parent, hparent, rfl⟩, rfl⟩
  refine ⟨_, ha, (congrArg Host.database hclose :), ?_⟩
  simp only [Host.holdings, Host.logged, Host.closeSpan, Handling.apply, CallState.empty]
  cases x.2.callState.span <;> rfl

theorem Hushed.closingEdits (h : Hushed R x x') (hdatabase : x.1.database = x'.1.database)
    (o : Options) : o.closingEdits x.1.database.dialect x.2 =
      o.closingEdits x'.1.database.dialect x'.2 := by
  simp only [Options.closingEdits, Options.recordedSql, Options.recordedRows, Options.errorEdits,
    hdatabase, h.statement.sql, h.statement.vars, h.statement.rowsAffected, h.statement.error]

theorem Tied.after (h : Tied R pairs l l' x x') (o : Options) :
    Leads R pairs x x' (if x.2.context.isSome then l.clear else l)
      (if x'.2.context.isSome then l'.clear else l')
      (((x.1.after o x.2).map (·.2)).getD x) (((x'.1.after o x'.2).map (·.2)).getD x') := by
  have hhushed := (h.hushed.after (rfl : o.silent = o.silent)).2
  have hcontext := h.hushed.statement.context
  cases hx : x.2.context.isSome with
  | false =>
    have hx' := hcontext.symm.trans hx
    simp only [Option.isSome_eq_false_iff, Option.isNone_iff_eq_none] at hx hx'
    simpa [Host.after, hx, hx'] using h.refl
  | true =>
    have hx' := hcontext.symm.trans hx
    obtain ⟨y, ha, hdatabase, hy⟩ := after_closed x hx o
    obtain ⟨y', ha', hdatabase', hy'⟩ := after_closed x' hx' o
    rw [ha, ha', Option.getD_some, Option.getD_some] at hhushed ⊢
    rw [hx', if_pos rfl, if_pos rfl]
    rw [← h.hushed.closingEdits h.database o] at hy'
    obtain ⟨hedited, hgrown⟩ := h.holdings.onSpan
      (Telemetry.editAll_evenhanded (o.closingEdits x.1.database.dialect x.2))
    obtain ⟨hdropped, hlast⟩ := hedited.apply .drop
    exact .of_holdings hhushed (hdatabase.trans (h.database.trans hdatabase'.symm)) h.left h.right
      (congrArg (Marks.mk ·.context false) h.marks) hy hy' ⟨hdropped, hgrown.trans hlast⟩

theorem Tied.runStep (hu : u.Handles plan R) (h : Tied R pairs l l' x x') (o : Operation)
    (s : Step (Hook C)) :
    Leads R pairs x x' (l.afterStep plan x s) (l'.afterStep plan x' s) (u.runStep o x s)
      (u.runStep o x' s) := by
  have hhushed := h.hushed.runStep hu.incurious o (rfl : s.silent = s.silent)
  cases s with
  | builtin o' =>
    obtain ⟨user, rows, error, hy⟩ := u.runBuiltin_eq o x.1 x.2
    obtain ⟨user', rows', error', hy'⟩ := u.runBuiltin_eq o x'.1 x'.2
    rw [UserCode.runStep, UserCode.runStep, hy, hy'] at hhushed ⊢
    exact .of_holdings hhushed h.database h.left h.right h.marks rfl rfl
      ⟨h.holdings, .same (Nat.le_refl _) (Nat.le_refl _)⟩
  | hook name anchor body =>
    cases body with
    | spanBefore opts spanName => exact h.before opts spanName
    | spanAfter opts => exact h.after opts
    | custom code =>
      have hholdings := hu.holdings code x.1 x.2
      have hholdings' := hu.holdings code x'.1 x'.2
      rw [← hu.blind code h.hushed] at hholdings'
      refine .of_holdings hhushed (hu.database code h.hushed h.database) h.left h.right ?_
        hholdings hholdings' (h.holdings.applyAll _)
      rw [Ledger.afterStep, Ledger.afterStep, h.marks, hu.blind code h.hushed]

theorem Tied.runSteps (hu : u.Handles plan R) (h : Tied R pairs l l' x x') (o : Operation)
    (p : Pipeline (Hook C)) :
    Leads R pairs x x' (.afterSteps plan u o p x l) (.afterSteps plan u o p x' l')
      (p.foldl (u.runStep o) x) (p.foldl (u.runStep o) x') := by
  induction p generalizing pairs l l' x x' with
  | nil => exact h.refl
  | cons s p ih =>
    obtain ⟨pairs₁, hstep, hgrown⟩ := h.runStep hu o s
    obtain ⟨pairs₂, hrest, hlast⟩ := ih hstep
    exact ⟨pairs₂, hrest, hgrown.trans hlast⟩

end UserCode
end DatabaseTracing
