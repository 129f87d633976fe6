import DatabaseTracing.Proofs.Lists
import DatabaseTracing.Proofs.Run.Crowd
import DatabaseTracing.Proofs.Run.Pairing
import DatabaseTracing.Proofs.Run.Transparency
import DatabaseTracing.Proofs.Telemetry.Twins

/-! # Statements at once

The hooks of one handle are called on several statements, in any order. A statement
keeps what belongs to its call in its own call state, so its calls come to the same as
if the other statements were not there: the same answers, exports and log entries, up
to the identifiers of the spans. Only the order in which the calls of different
statements are made shows, in the order of exports and log entries.
-/
namespace DatabaseTracing
variable {C σ : Type}

namespace Telemetry
variable {t t' : Telemetry} {c c' : Context} {m n : Nat}

/-- The contexts carry the same span in the two stores, up to identifiers. -/
structure SameSpan (t t' : Telemetry) (c c' : Context) : Prop where
  flags : c.active.map (·.context.sampled) = c'.active.map (·.context.sampled)
  carry : Carry Eq t t' c c'

/-- Letting go of the same span on either side. -/
theorem Carry.release (h : Carry Eq t t' c c') :
    (t.exportedSince (t.release c)).map SpanRecord.content
        = (t'.exportedSince (t'.release c')).map SpanRecord.content ∧
      ∀ m n, c.record ≠ some m → c'.record ≠ some n → TwinsAt Eq t t' m n →
        TwinsAt Eq (t.release c) (t'.release c') m n := by
  rcases h.cases with ⟨hc, hc'⟩ | ⟨p, q, r, r', hc, hc', hr, hr', htwin⟩
  · rw [release_of_unrecorded hc, release_of_unrecorded hc']
    exact ⟨by simp [exportedSince_of_exports_eq], fun m n _ _ hmn => hmn⟩
  · have hstep := release_twins hc hc' hr hr' htwin
    refine ⟨hstep.content_exportedSince ⟨r, r', hr, hr', htwin⟩, fun m n hm hn hmn => ?_⟩
    refine hstep.twinsAt_ne ?_ ?_ hmn
    · rintro rfl
      exact hm hc
    · rintro rfl
      exact hn hc'

/-- Ending the same span on either side, and letting go of it. -/
theorem Carry.close (h : Carry Eq t t' c c') {es : List SpanEdit} (hes : .finish ∈ es) :
    (t.exportedSince ((t.editAll c es).release c)).map SpanRecord.content
      = (t'.exportedSince ((t'.editAll c' es).release c')).map SpanRecord.content := by
  rcases h.cases with ⟨hc, hc'⟩ | ⟨p, q, r, r', hc, hc', hr, hr', htwin⟩
  · simp [editAll_of_unrecorded, release_of_unrecorded, hc, hc', exportedSince_of_exports_eq]
  · exact (close_twins hc hc' hr hr' htwin hes).content_exportedSince ⟨r, r', hr, hr', htwin⟩

/-- The same start on either side, where the same span, if any, is let go of. -/
theorem replace_mirrored {old old' : Option Context} (h : Option.Rel (t.SameSpan t') old old')
    (p : Provider) (parent : Context) (name : String) (attributes : List Attribute) :
    let u := t.start p parent name attributes
    let u' := t'.start p parent name attributes
    (t.exportedSince (u.2.releaseAll old.toList)).map SpanRecord.content
        = (t'.exportedSince (u'.2.releaseAll old'.toList)).map SpanRecord.content ∧
      SameSpan (u.2.releaseAll old.toList) (u'.2.releaseAll old'.toList) u.1 u'.1 := by
  intro u u'
  obtain ⟨a, a', ha, ha', hflags, hstarted⟩ :=
    start_twins rfl (.refl (fun _ => rfl) parent) t t' p name attributes
  obtain ⟨hexports, hexports'⟩ := hstarted.exports
  have hnew := hstarted.new
  have hu : u.1 = ⟨some a⟩ := ha
  have hu' : u'.1 = ⟨some a'⟩ := ha'
  rw [hu, hu', exportedSince_congr hexports, exportedSince_congr hexports']
  rcases h with @⟨c, c', hold⟩ | _
  · have hcarry := hold.carry.mono fun m _ n _ => hstarted.twinsAt
    obtain ⟨hne, hne'⟩ := hold.carry.ne_length
    obtain ⟨hout, hkept⟩ := hcarry.release
    refine ⟨hout, congrArg some hflags, optionRel_mono hnew ?_⟩
    exact fun m _ n _ ⟨hm, hn, htwins⟩ => hkept m n (hm ▸ hne) (hn ▸ hne') htwins
  · refine ⟨?_, congrArg some hflags, optionRel_mono hnew fun m _ n _ h => h.2.2⟩
    rw [exportedSince_of_exports_eq (by rfl), exportedSince_of_exports_eq (by rfl)]

end Telemetry

namespace HookCall

/-- What comes of a call: what it answers, the spans that it exports and what it logs. -/
structure Upshot where
  answered : Bool
  report : Option CallReport
  exported : List SpanRecord
  logged : List LogEvent

def answered (x : Host C σ × Statement) : HookCall → Bool
  | before o spanName => (x.1.before o spanName x.2).isSome
  | after o => (x.1.after o x.2).isSome
  | setContext _ => true

def report (x : Host C σ × Statement) : HookCall → Option CallReport
  | after o => (x.1.after o x.2).map (·.1)
  | _ => none

def upshot (x : Host C σ × Statement) (c : HookCall) : Upshot where
  answered := c.answered x
  report := c.report x
  exported := (x.1.telemetry.exportedSince (c.apply x).1.telemetry).map SpanRecord.content
  logged := (c.apply x).1.log.drop x.1.log.length

/-- The statements are in the same state of their calls, each on its host: only the identifiers of
the spans differ, and what others have left in the stores and the logs. -/
structure Mirrors (x y : Host C σ × Statement) : Prop where
  database : x.1.database = y.1.database
  provider : x.1.telemetry.globalProvider = y.1.telemetry.globalProvider
  statement : x.2.Alike y.2
  started : x.2.callState.started = y.2.callState.started
  span : Option.Rel (x.1.telemetry.SameSpan y.1.telemetry) x.2.callState.span y.2.callState.span

variable {x y : Host C σ × Statement}

theorem Mirrors.resolve (h : Mirrors x y) (source : TracerSource) :
    source.resolve x.1.telemetry = source.resolve y.1.telemetry := by
  cases source with
  | global => exact h.provider
  | provider p => rfl

theorem Mirrors.report (h : Mirrors x y) (o : Options) : x.1.report o x.2 = y.1.report o y.2 := by
  have hspan := optionRel_isSome h.span
  simp only [Host.report, Options.recordedSql, Options.recordedRows, h.database, h.started,
    h.statement.sql, h.statement.vars, h.statement.rowsAffected, hspan]

theorem Mirrors.closingEdits (h : Mirrors x y) (o : Options) :
    o.closingEdits x.1.database.dialect x.2 = o.closingEdits y.1.database.dialect y.2 := by
  simp only [Options.closingEdits, Options.recordedSql, Options.recordedRows, Options.errorEdits,
    h.database, h.statement.sql, h.statement.vars, h.statement.rowsAffected, h.statement.error]

theorem exportedSince_self (t : Telemetry) : t.exportedSince t = [] :=
  Telemetry.exportedSince_of_exports_eq rfl

theorem Mirrors.before (h : Mirrors x y) (o : Options) (spanName : String) :
    upshot x (.before o spanName) = upshot y (.before o spanName) ∧
      Mirrors (apply x (.before o spanName)) (apply y (.before o spanName)) := by
  cases hy : y.2.context with
  | none =>
    have hx : x.2.context = none := h.statement.context.trans hy
    simp [upshot, answered, HookCall.report, apply, Host.before, hx, hy, exportedSince_self, h]
  | some parent =>
    have hx : x.2.context = some parent := h.statement.context.trans hy
    obtain ⟨hout, hspan⟩ := Telemetry.replace_mirrored h.span (o.tracer.resolve y.1.telemetry)
      parent spanName y.1.spanAttributes
    have hattributes : x.1.spanAttributes = y.1.spanAttributes := by
      rw [Host.spanAttributes, Host.spanAttributes, h.database]
    simp only [upshot, answered, HookCall.report, apply, Host.before, hx, hy, Option.map_some,
      Option.getD_some, Option.isSome_some, h.resolve, hattributes, List.drop_length]
    refine ⟨by rw [hout], ⟨h.database, ?_, ?_, rfl, .some hspan⟩⟩
    · simp [h.provider]
    · exact ⟨rfl, h.statement.sql, h.statement.vars, h.statement.rowsAffected, h.statement.error⟩

theorem Mirrors.closeSpan (h : Mirrors x y) (o : Options) :
    (x.1.telemetry.exportedSince (x.1.closeSpan o x.2).telemetry).map SpanRecord.content =
      (y.1.telemetry.exportedSince (y.1.closeSpan o y.2).telemetry).map SpanRecord.content := by
  have hspan := h.span
  unfold Host.closeSpan
  rw [h.closingEdits o]
  cases hx : x.2.callState.span <;> cases hy : y.2.callState.span <;> rw [hx, hy] at hspan
  · simp [exportedSince_self]
  · cases hspan
  · cases hspan
  · obtain ⟨hsame⟩ := hspan
    exact hsame.carry.close (o.finish_mem_closingEdits _ _)

theorem Mirrors.after (h : Mirrors x y) (o : Options) :
    upshot x (.after o) = upshot y (.after o) ∧
      Mirrors (apply x (.after o)) (apply y (.after o)) := by
  cases hy : y.2.context with
  | none =>
    have hx : x.2.context = none := h.statement.context.trans hy
    simp [upshot, answered, HookCall.report, apply, Host.after, hx, hy, exportedSince_self, h]
  | some parent =>
    have hx : x.2.context = some parent := h.statement.context.trans hy
    have hout := h.closeSpan o
    obtain ⟨t, hclose, ht⟩ := Host.closeSpan_frame o x.1 x.2
    obtain ⟨t', hclose', ht'⟩ := Host.closeSpan_frame o y.1 y.2
    rw [hclose, hclose'] at hout
    simp only [upshot, answered, HookCall.report, apply, Host.after, hx, hy, Option.map_some,
      Option.getD_some, Option.isSome_some, h.report, h.database, Host.logged, hclose, hclose',
      List.drop_left, hout]
    refine ⟨trivial, ⟨rfl, ?_, ?_, rfl, .none⟩⟩
    · exact ht.trans (h.provider.trans ht'.symm)
    · exact ⟨rfl, h.statement.sql, h.statement.vars, h.statement.rowsAffected, h.statement.error⟩

theorem Mirrors.hook (h : Mirrors x y) {c : HookCall} (hc : c.isHook = true) :
    upshot x c = upshot y c ∧ Mirrors (apply x c) (apply y c) := by
  cases c with
  | before o spanName => exact h.before o spanName
  | after o => exact h.after o
  | setContext cx => cases hc

/-- What a call of a hook may do. The spans of other statements are left alone. -/
structure Moves (x y : Host C σ × Statement) : Prop where
  database : y.1.database = x.1.database
  provider : y.1.telemetry.globalProvider = x.1.telemetry.globalProvider
  log : x.1.log <+: y.1.log
  keeps : x.1.telemetry.Keeps y.1.telemetry
  pending : ∀ p ∈ y.2.pending, p < y.1.telemetry.records.length ∧
    (x.2.pending = some p ∨ p = x.1.telemetry.records.length)
  length : x.1.telemetry.records.length ≤ y.1.telemetry.records.length
  others : ∀ p < x.1.telemetry.records.length, x.2.pending ≠ some p →
    x.1.telemetry.SameAt p y.1.telemetry

/-- The span in the call state is one of the recorded ones, if it is recorded. -/
def Known (x : Host C σ × Statement) : Prop :=
  ∀ p ∈ x.2.pending, p < x.1.telemetry.records.length

theorem Moves.refl (hx : Known x) : Moves x x :=
  ⟨rfl, rfl, List.prefix_refl _, .refl _, fun p hp => ⟨hx p hp, .inl hp⟩, Nat.le_refl _,
    fun p _ _ => .refl p _⟩

theorem before_moves (hx : Known x) (o : Options) (spanName : String) :
    Moves x (apply x (.before o spanName)) := by
  cases hcontext : x.2.context with
  | none => rw [apply_of_absent hcontext rfl]; exact .refl hx
  | some parent =>
    simp only [apply, Host.before, hcontext, Option.map_some, Option.getD_some]
    obtain ⟨hkeeps, hsame, hlength, hnew⟩ := x.1.telemetry.start_frame
      (o.tracer.resolve x.1.telemetry) parent spanName x.1.spanAttributes
    obtain ⟨htkeeps, htlength, htsame⟩ : let t := (x.1.telemetry.start
        (o.tracer.resolve x.1.telemetry) parent spanName x.1.spanAttributes).2
        t.Keeps (t.releaseAll x.2.callState.span.toList) ∧
          (t.releaseAll x.2.callState.span.toList).records.length = t.records.length ∧
            ∀ i, x.2.pending ≠ some i → t.SameAt i (t.releaseAll x.2.callState.span.toList) := by
      intro t
      cases hspan : x.2.callState.span with
      | none => exact ⟨.refl t, rfl, fun i _ => .refl i t⟩
      | some c =>
        have hpending : x.2.pending = c.record := by rw [Statement.pending, hspan]; rfl
        rw [hpending]
        refine (Telemetry.release_touch fun p hp => ?_).keeps
        exact Nat.lt_of_lt_of_le (hx p (hpending ▸ hp)) hlength
    refine ⟨rfl, by simp, List.prefix_refl _, hkeeps.trans htkeeps, fun p hp => ?_,
      htlength ▸ hlength, fun p hp hne => (hsame p hp).trans (htsame p hne)⟩
    obtain ⟨heq, hlt⟩ := hnew p hp
    exact ⟨htlength ▸ hlt, .inr heq⟩

theorem after_moves (hx : Known x) (o : Options) : Moves x (apply x (.after o)) := by
  cases hcontext : x.2.context with
  | none => rw [apply_of_absent hcontext rfl]; exact .refl hx
  | some parent =>
    obtain ⟨t, hclose, ht⟩ := Host.closeSpan_frame o x.1 x.2
    have htouch : x.1.telemetry.Touch x.2.pending t := by
      have htelemetry := congrArg Host.telemetry hclose
      unfold Host.closeSpan at htelemetry
      cases hspan : x.2.callState.span with
      | none =>
        rw [hspan] at htelemetry
        exact (show x.1.telemetry = t from htelemetry) ▸ .nothing
      | some c =>
        have hpending : x.2.pending = c.record := by rw [Statement.pending, hspan]; rfl
        rw [hspan] at htelemetry
        rw [hpending, ← show _ = t from htelemetry]
        exact Telemetry.close_touch (fun p hp => hx p (hpending ▸ hp))
          (o.finish_mem_closingEdits _ _)
    obtain ⟨hkeeps, hlength, hsame⟩ := htouch.keeps
    simp only [apply, Host.after, hcontext, Option.map_some, Option.getD_some, Host.logged, hclose]
    exact ⟨rfl, ht, List.prefix_append _ _, hkeeps, (fun p hp => by cases hp),
      Nat.le_of_eq hlength.symm, fun p _ hne => hsame p hne⟩

theorem hook_moves (hx : Known x) {c : HookCall} (hc : c.isHook = true) :
    Moves x (apply x c) := by
  cases c with
  | before o spanName => exact before_moves hx o spanName
  | after o => exact after_moves hx o
  | setContext cx => cases hc

/-- What others do does not show, if the span in the call state stays as it is. -/
theorem Mirrors.of_others (h : Mirrors x y) {k : Host C σ} (hdatabase : k.database = x.1.database)
    (hprovider : k.telemetry.globalProvider = x.1.telemetry.globalProvider)
    (hspan : ∀ p ∈ x.2.pending, x.1.telemetry.SameAt p k.telemetry) : Mirrors (k, x.2) y where
  database := hdatabase.trans h.database
  provider := hprovider.trans h.provider
  statement := h.statement
  started := h.started
  span := by
    refine optionRel_mono h.span fun c hc c' _ hsame => ⟨hsame.flags, ?_⟩
    refine hsame.carry.mono fun m hm n _ ⟨r, r', hr, hr', htwin⟩ => ⟨r, r', ?_, hr', htwin⟩
    have hpending : m ∈ x.2.pending := by
      rw [Statement.pending, show x.2.callState.span = some c from hc]
      exact hm
    exact (hspan m hpending).record.trans hr

theorem Known.mirrors (hx : Known x) : Mirrors x x where
  database := rfl
  provider := rfl
  statement := .refl _
  started := rfl
  span := by
    cases hspan : x.2.callState.span with
    | none => exact .none
    | some c =>
      refine .some ⟨rfl, ?_⟩
      cases hc : c.record with
      | none => rw [Telemetry.Carry, hc]; exact .none
      | some p =>
        have hp : p ∈ x.2.pending := by rw [Statement.pending, hspan]; exact hc
        have hr := List.getElem?_eq_getElem (hx p hp)
        rw [Telemetry.Carry, hc]
        exact .some ⟨_, _, hr, hr, .refl rfl⟩

end HookCall

namespace Crowd
variable {ι : Type} {x a : Crowd ι C σ} {e : ι × HookCall} {es : List (ι × HookCall)} {i : ι}

/-- No two statements have the same recorded span in their call states. -/
structure Separate (x : Crowd ι C σ) : Prop where
  known : ∀ i, HookCall.Known (x.state i)
  apart : ∀ i j p, (x.statement i).pending = some p → (x.statement j).pending = some p → i = j
  ended : x.host.telemetry.Sealed

theorem Separate.moves (hx : x.Separate) (he : e.2.isHook = true) :
    HookCall.Moves (x.state e.1) (e.2.apply (x.state e.1)) :=
  HookCall.hook_moves (hx.known e.1) he

theorem Separate.pending_ne (hx : x.Separate) {i j : ι} (hij : i ≠ j) {p : Nat}
    (hp : p ∈ (x.statement i).pending) : (x.statement j).pending ≠ some p :=
  fun h => hij (hx.apart i j p hp h)

variable [DecidableEq ι]

def call (x : Crowd ι C σ) (e : ι × HookCall) : Crowd ι C σ := x.put e.1 (e.2.apply (x.state e.1))

def callAll (x : Crowd ι C σ) (es : List (ι × HookCall)) : Crowd ι C σ := es.foldl call x

/-- What comes of each of the calls. -/
def course (x : Crowd ι C σ) : List (ι × HookCall) → List (ι × HookCall.Upshot)
  | [] => []
  | e :: es => (e.1, e.2.upshot (x.state e.1)) :: course (x.call e) es

/-- What comes of the calls on one of the statements. -/
def upshots (x : Crowd ι C σ) (es : List (ι × HookCall)) (i : ι) : List HookCall.Upshot :=
  ((x.course es).filter (·.1 = i)).map (·.2)

theorem upshots_cons_self (x : Crowd ι C σ) (i : ι) (c : HookCall) (es : List (ι × HookCall)) :
    x.upshots ((i, c) :: es) i = c.upshot (x.state i) :: (x.call (i, c)).upshots es i := by
  simp [upshots, course]

theorem upshots_cons_ne (h : e.1 ≠ i) (x : Crowd ι C σ) (es : List (ι × HookCall)) :
    x.upshots (e :: es) i = (x.call e).upshots es i := by
  simp [upshots, course, h]

theorem Separate.call (hx : x.Separate) (he : e.2.isHook = true) : (x.call e).Separate := by
  have hmoves := hx.moves he
  have hold (j : ι) (hj : j ≠ e.1) : ((x.call e).statement j).pending = (x.statement j).pending :=
    congrArg (·.2.pending) (state_put_ne hj x _)
  have hnew : ((x.call e).statement e.1).pending = (e.2.apply (x.state e.1)).2.pending :=
    congrArg (·.2.pending) (state_put_self x _ _)
  -- A span that has just been started is recorded behind all others.
  have hapart (j : ι) (hj : j ≠ e.1) (p : Nat) (hp : ((x.call e).statement e.1).pending = some p)
      (hpj : ((x.call e).statement j).pending = some p) : False := by
    rw [hold j hj] at hpj
    rw [hnew] at hp
    rcases (hmoves.pending p hp).2 with hmine | rfl
    · exact hx.pending_ne (Ne.symm hj) hmine hpj
    · exact Nat.lt_irrefl _ (hx.known j _ hpj)
  refine ⟨fun j p hp => ?_, fun i j p hi hj => ?_, hx.ended.keeps hmoves.keeps⟩
  · by_cases hj : j = e.1
    · subst hj
      exact (hmoves.pending p (hnew ▸ hp)).1
    · exact Nat.lt_of_lt_of_le (hx.known j p (hold j hj ▸ hp)) hmoves.length
  · by_contra hij
    by_cases hie : i = e.1
    · subst hie
      exact hapart j (Ne.symm hij) p hi hj
    · by_cases hje : j = e.1
      · subst hje
        exact hapart i hij p hj hi
      · exact hij (hx.apart i j p (hold i hie ▸ hi) (hold j hje ▸ hj))

/-- One statement in the crowd and on its own, where only its own calls are made. -/
theorem Separate.mirrors (hx : x.Separate) (ha : a.Separate)
    (hm : HookCall.Mirrors (x.state i) (a.state i)) (hes : ∀ e ∈ es, e.2.isHook = true) :
    x.upshots es i = a.upshots (es.filter (·.1 = i)) i ∧
      HookCall.Mirrors ((x.callAll es).state i) ((a.callAll (es.filter (·.1 = i))).state i) := by
  induction es generalizing x a with
  | nil => exact ⟨rfl, hm⟩
  | cons e es ih =>
    obtain ⟨he, htail⟩ := List.forall_mem_cons.mp hes
    obtain ⟨j, c⟩ := e
    by_cases hj : j = i
    · subst hj
      obtain ⟨hupshot, hnext⟩ := hm.hook he
      have hnext' : HookCall.Mirrors ((x.call (j, c)).state j) ((a.call (j, c)).state j) := by
        rw [Crowd.call, Crowd.call, state_put_self, state_put_self]
        exact hnext
      obtain ⟨hrest, hlast⟩ := ih (hx.call he) (ha.call he) hnext' htail
      rw [List.filter_cons_of_pos (by simp), upshots_cons_self, upshots_cons_self, hupshot, hrest]
      exact ⟨rfl, hlast⟩
    · have hmoves := hx.moves he
      have hnext : HookCall.Mirrors ((x.call (j, c)).state i) (a.state i) := by
        rw [Crowd.call, state_put_ne (Ne.symm hj)]
        refine hm.of_others hmoves.database hmoves.provider fun p hp => ?_
        exact hmoves.others p (hx.known i p hp) (hx.pending_ne (Ne.symm hj) hp)
      rw [List.filter_cons_of_neg (by simpa using hj), upshots_cons_ne hj]
      exact ih (hx.call he) ha hnext htail

/-- All exports and all log entries are those of the calls, in the order of the calls. -/
theorem Separate.gathered (hx : x.Separate) (hes : ∀ e ∈ es, e.2.isHook = true) :
    (x.callAll es).host.telemetry.exported.map SpanRecord.content =
        x.host.telemetry.exported.map SpanRecord.content ++ (x.course es).flatMap (·.2.exported) ∧
      (x.callAll es).host.log = x.host.log ++ (x.course es).flatMap (·.2.logged) := by
  induction es generalizing x with
  | nil => exact ⟨(List.append_nil _).symm, (List.append_nil _).symm⟩
  | cons e es ih =>
    obtain ⟨he, htail⟩ := List.forall_mem_cons.mp hes
    have hmoves := hx.moves he
    obtain ⟨hexported, hlog⟩ := ih (hx.call he) htail
    have hhost : (x.call e).host = (e.2.apply (x.state e.1)).1 := rfl
    have hstep : (x.call e).host.telemetry.exported.map SpanRecord.content =
        x.host.telemetry.exported.map SpanRecord.content ++ (e.2.upshot (x.state e.1)).exported := by
      have hdata := congrArg (List.map SpanRecord.content) (hx.ended.data_exported hmoves.keeps)
      rw [List.map_append, List.map_map, List.map_map, List.map_map] at hdata
      exact hdata
    have hsteplog : (x.call e).host.log = x.host.log ++ (e.2.upshot (x.state e.1)).logged := by
      obtain ⟨new, hnew⟩ := hmoves.log
      have hdrop : (e.2.upshot (x.state e.1)).logged = new := by
        rw [HookCall.upshot, ← hnew, List.drop_left]
      rw [hdrop, hhost, ← hnew]
      rfl
    have hcall : x.callAll (e :: es) = (x.call e).callAll es := rfl
    rw [hcall, hexported, hlog, hstep, hsteplog, course, List.flatMap_cons, List.flatMap_cons,
      List.append_assoc, List.append_assoc]
    exact ⟨rfl, rfl⟩

/-- What calls on several statements come to: for each statement, to what its own calls come to when
they are made alone. -/
structure Unmixed (x : Crowd ι C σ) (es : List (ι × HookCall)) : Prop where
  upshots : ∀ i, x.upshots es i = x.upshots (es.filter (·.1 = i)) i
  states : ∀ i, HookCall.Mirrors ((x.callAll es).state i)
    ((x.callAll (es.filter (·.1 = i))).state i)
  exported : (x.callAll es).host.telemetry.exported.map SpanRecord.content =
    x.host.telemetry.exported.map SpanRecord.content ++ (x.course es).flatMap (·.2.exported)
  log : (x.callAll es).host.log = x.host.log ++ (x.course es).flatMap (·.2.logged)
  /-- If the calls are interleaved otherwise, the same comes of them in another order. -/
  order : ∀ es', (∀ i, es'.filter (·.1 = i) = es.filter (·.1 = i)) →
    (x.course es').Perm (x.course es)

/-- Statements do not mix, however their calls are interleaved. -/
theorem calls_do_not_mix (hx : x.Separate) (hes : ∀ e ∈ es, e.2.isHook = true) : x.Unmixed es := by
  have halone (es : List (ι × HookCall)) (hes : ∀ e ∈ es, e.2.isHook = true) (i : ι) :=
    hx.mirrors hx (hx.known i).mirrors hes
  obtain ⟨hexported, hlog⟩ := hx.gathered hes
  refine ⟨fun i => (halone es hes i).1, fun i => (halone es hes i).2, hexported, hlog, ?_⟩
  intro es' hsame
  have hes' : ∀ e ∈ es', e.2.isHook = true := by
    intro e he
    have hmem : e ∈ es'.filter (·.1 = e.1) := List.mem_filter.mpr ⟨he, by simp⟩
    rw [hsame] at hmem
    exact hes e (List.mem_filter.mp hmem).1
  refine perm_of_filter_fst_eq fun i => ?_
  have hupshots := (halone es' hes' i).1
  rw [hsame] at hupshots
  exact hupshots.trans (halone es hes i).1.symm

/-- Two statements that have not been worked on, one under a remote span. -/
def pair : Crowd Bool Nat Unit where
  host := ⟨.create "db" .mysql, .initial, [], ()⟩
  statement
    | true => .make (some .empty) "SELECT 1" []
    | false => .make (some (.ofRemote "a1" "b2" true)) "SELECT ?" [.null]

theorem calls_do_not_mix_pair :
    let o := Options.default.apply (.tracer (some (.recording "p")))
    let es : List (Bool × HookCall) := [(true, .before o "query"), (false, .before o "query"),
      (true, .after o), (false, .after o)]
    pair.Separate ∧ (∀ e ∈ es, e.2.isHook = true) ∧ (pair.course es).length = 4 ∧
      pair.Unmixed es := by
  intro o es
  have hpending : ∀ i, (pair.statement i).pending = none := by decide
  have hseparate : pair.Separate := by
    refine ⟨fun i p hp => ?_, fun i j p hi _ => ?_, nofun⟩
    · rw [show (pair.state i).2.pending = none from hpending i] at hp
      cases hp
    · rw [hpending i] at hi
      cases hi
  have hes : ∀ e ∈ es, e.2.isHook = true := by decide
  exact ⟨hseparate, hes, rfl, calls_do_not_mix hseparate hes⟩

end Crowd
end DatabaseTracing
