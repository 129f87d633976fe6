import DatabaseTracing.Proofs.Run.Holding
import DatabaseTracing.Proofs.Run.OneSpan
import Mathlib.Data.List.Induction

/-! # Before and after on one statement

The two hooks are called on one statement in any order, and its context comes and
goes in between. A call that finds a context is effective. An after hook ends the span
of the latest effective before hook, unless another effective call has come since; it
reports as much, and does without a span otherwise.
-/
namespace DatabaseTracing
variable {C σ : Type}

namespace Host

/-- The statement gets another context, or none, and lets go of the one it had. -/
def setContext (cx : Option Context) (h : Host C σ) (s : Statement) : Host C σ × Statement :=
  ({ h with
      telemetry := (cx.elim h.telemetry h.telemetry.retain).releaseAll s.context.toList },
    { s with context := cx })

/-- The context of the span that the before hook would start. -/
def startedSpan (o : Options) (spanName : String) (h : Host C σ) (s : Statement) :
    Option Context :=
  s.context.map fun parent =>
    (h.telemetry.start (o.tracer.resolve h.telemetry) parent spanName h.spanAttributes).1

theorem closeSpan_log (o : Options) (h : Host C σ) (s : Statement) :
    (h.closeSpan o s).log = h.log := by
  unfold closeSpan
  split <;> rfl

end Host

/-- What is done to a statement. -/
inductive HookCall where
  | before (o : Options) (spanName : String)
  | after (o : Options)
  | setContext (cx : Option Context)

namespace HookCall

def isHook : HookCall → Bool
  | setContext _ => false
  | _ => true

/-- A hook that answers nothing has no effect. -/
def apply (x : Host C σ × Statement) : HookCall → Host C σ × Statement
  | before o spanName => (x.1.before o spanName x.2).getD x
  | after o => ((x.1.after o x.2).map (·.2)).getD x
  | setContext cx => x.1.setContext cx x.2

def applyAll (x : Host C σ × Statement) (cs : List HookCall) : Host C σ × Statement :=
  cs.foldl apply x

variable {x y : Host C σ × Statement} {cs pre post : List HookCall} {c : HookCall}
  {o : Options} {spanName : String} {others : Multiset Context}

@[simp] theorem applyAll_concat (x : Host C σ × Statement) (cs : List HookCall) (c : HookCall) :
    applyAll x (cs ++ [c]) = apply (applyAll x cs) c := by
  rw [applyAll, List.foldl_append]
  rfl

/-- The before hook that is called behind `pre` is the latest effective call of a hook. -/
structure Latest (x : Host C σ × Statement) (cs pre : List HookCall) (o : Options)
    (spanName : String) (post : List HookCall) : Prop where
  split : cs = pre ++ .before o spanName :: post
  effective : (applyAll x pre).2.context ≠ none
  quiet : ∀ l c r, post = l ++ c :: r → c.isHook = true →
    (applyAll x (pre ++ .before o spanName :: l)).2.context = none

theorem Latest.now (x : Host C σ × Statement) {cs : List HookCall}
    (hc : (applyAll x cs).2.context ≠ none) (o : Options) (spanName : String) :
    Latest x (cs ++ [.before o spanName]) cs o spanName [] :=
  ⟨rfl, hc, fun l c r h => by simp at h⟩

/-- It was the latest before the last call, too, if that is not effective, or it is the last call. -/
theorem latest_concat (h : Latest x (cs ++ [c]) pre o spanName post) :
    (pre = cs ∧ c = .before o spanName) ∨
      ∃ post', Latest x cs pre o spanName post' ∧
        (c.isHook = true → (applyAll x cs).2.context = none) := by
  obtain ⟨hsplit, heffective, hquiet⟩ := h
  rcases List.eq_nil_or_concat post with rfl | ⟨post', d, rfl⟩
  · obtain ⟨rfl, hd⟩ := List.append_inj' hsplit rfl
    exact .inl ⟨rfl, List.singleton_inj.mp hd⟩
  · rw [List.concat_eq_append, ← List.cons_append, ← List.append_assoc] at hsplit
    obtain ⟨rfl, hd⟩ := List.append_inj' hsplit rfl
    obtain rfl := List.singleton_inj.mp hd
    refine .inr ⟨post', ⟨rfl, heffective, fun l d r hpost hd => ?_⟩, fun hhook => ?_⟩
    · exact hquiet l d (r ++ [c]) (by simp [hpost]) hd
    · exact hquiet post' c [] (by simp) hhook

/-- It stays the latest through a call that is not effective. -/
theorem Latest.concat (h : Latest x cs pre o spanName post)
    (hc : c.isHook = true → (applyAll x cs).2.context = none) :
    Latest x (cs ++ [c]) pre o spanName (post ++ [c]) where
  split := by rw [h.split, List.append_assoc, List.cons_append]
  effective := h.effective
  quiet l d r hpost hd := by
    rcases List.eq_nil_or_concat r with rfl | ⟨r', e, rfl⟩
    · obtain ⟨rfl, he⟩ := List.append_inj' hpost rfl
      obtain rfl := List.singleton_inj.mp he
      exact h.split ▸ hc hd
    · rw [List.concat_eq_append, ← List.cons_append, ← List.append_assoc] at hpost
      obtain ⟨rfl, -⟩ := List.append_inj' hpost rfl
      exact h.quiet l d r' rfl hd

theorem apply_of_absent (hy : y.2.context = none) (hc : c.isHook = true) : apply y c = y := by
  cases c with
  | before o spanName => simp [apply, Host.before, hy]
  | after o => simp [apply, Host.after, hy]
  | setContext cx => cases hc

theorem before_of_present {parent : Context} (hy : y.2.context = some parent) (o : Options)
    (spanName : String) : ∃ h cx, y.1.startedSpan o spanName y.2 = some cx ∧
      y.1.before o spanName y.2 = some (h, { y.2 with callState := ⟨true, some cx⟩ }) := by
  simp [Host.before, Host.startedSpan, hy]

theorem after_of_present {parent : Context} (hy : y.2.context = some parent) (o : Options) :
    y.1.after o y.2 = some (y.1.report o y.2,
      (y.1.closeSpan o y.2).logged ((y.1.report o y.2).event y.1.database.name),
      { y.2 with callState := .empty }) := by
  simp [Host.after, hy]

/-- A context that comes to the statement is held by somebody, unless it carries no recorded span. -/
def Permitted (others : Multiset Context) (y : Host C σ × Statement) : HookCall → Prop
  | setContext cx => ∀ c ∈ cx, c ∈ (↑y.2.held + others : Multiset Context) ∨ c.record = none
  | _ => True

/-- The account of the statement and of those who hold contexts besides. -/
def account (others : Multiset Context) (y : Host C σ × Statement) : Account :=
  (y.1.account y.2).beside others

theorem setContext_leads {cx : Option Context} (hc : (setContext cx).Permitted others y) :
    Account.Leads (account others y) (cx.toList.map .retain ++ y.2.context.toList.map .release)
      (account others (apply y (setContext cx))) := by
  have hretain : Account.Leads (account others y) (cx.toList.map .retain)
      ⟨cx.elim y.1.telemetry y.1.telemetry.retain, ↑cx.toList + (↑y.2.held + others)⟩ := by
    cases cx with
    | none => exact ⟨trivial, congrArg (Account.mk _) (Multiset.zero_add _).symm⟩
    | some c => exact Account.leads_retain _ (hc c rfl)
  have hheld : (↑cx.toList + (↑y.2.held + others) : Multiset Context) =
      ↑y.2.context.toList + (↑cx.toList + ↑y.2.callState.span.toList + others) := by
    have hswap : ∀ a b c : Multiset Context, a + (b + c) = b + (a + c) := fun a b c => by
      rw [← Multiset.add_assoc, Multiset.add_comm a, Multiset.add_assoc]
    simp only [Statement.held, ← Multiset.coe_add, Multiset.add_assoc]
    exact hswap ..
  rw [hheld] at hretain
  exact hretain.trans (Account.leads_releaseAll _ _ _)

/-- What holds of a statement on which these calls have been made. -/
structure Paired (others : Multiset Context) (x : Host C σ × Statement) (cs : List HookCall) :
    Prop where
  balanced : (account others (applyAll x cs)).Balanced
  idle : (∀ pre o spanName post, ¬ Latest x cs pre o spanName post) →
    (applyAll x cs).2.callState = .empty
  /-- The span of the latest effective before hook is in the call state and in progress. -/
  pending : ∀ pre o spanName post, Latest x cs pre o spanName post → ∃ cx : Context,
    (applyAll x pre).1.startedSpan o spanName (applyAll x pre).2 = some cx ∧
      (applyAll x cs).2.callState = ⟨true, some cx⟩ ∧
        ∀ i, cx.record = some i → i ∉ (applyAll x cs).1.telemetry.exports

theorem apply_reaches (hc : c.Permitted others y) :
    (account others y).Reaches (account others (apply y c)) := by
  cases c with
  | before o spanName =>
    rw [apply]
    cases hb : y.1.before o spanName y.2 with
    | none => exact .refl _
    | some z => exact (Host.before_reaches hb).beside others
  | after o =>
    rw [apply]
    cases ha : y.1.after o y.2 with
    | none => exact .refl _
    | some z => exact (Host.after_reaches ha).beside others
  | setContext cx => exact ⟨_, setContext_leads hc⟩

theorem span_mem_held {cx : Context} (others : Multiset Context)
    (hy : y.2.callState.span = some cx) : cx ∈ (account others y).held := by
  refine Multiset.mem_add.mpr (.inl (Multiset.mem_coe.mpr ?_))
  rw [Statement.held, hy]
  exact List.mem_append_right _ (List.mem_singleton_self cx)

theorem before_in_progress {h : Host C σ} {s : Statement} {cx : Context} {i : Nat}
    (hy : (account others y).Balanced) (hb : y.1.before o spanName y.2 = some (h, s))
    (hcx : y.1.startedSpan o spanName y.2 = some cx) (hs : s.callState.span = some cx)
    (hi : cx.record = some i) : i ∉ h.telemetry.exports := by
  have hnew : i ∉ y.1.telemetry.exports := by
    intro hm
    obtain ⟨r, hr, -⟩ := (hy.exported i).mp hm
    obtain ⟨parent, -, rfl⟩ := Option.map_eq_some_iff.mp hcx
    obtain ⟨_, ⟨hnone, -⟩ | ⟨_, -, -, hlast, -⟩⟩ := y.1.telemetry.start_cases
      (o.tracer.resolve y.1.telemetry) parent spanName y.1.spanAttributes
    · rw [hi] at hnone
      cases hnone
    · rw [hi] at hlast
      obtain rfl := Option.some.inj hlast
      exact Nat.lt_irrefl _ (List.getElem?_eq_some_iff.mp hr).1
  obtain ⟨_, _, _, hleads⟩ := Host.before_leads hb
  exact hy.not_mem_exports (hleads.beside others) (Account.not_told (by simp) i) hnew
    (span_mem_held (y := (h, s)) others hs) hi

theorem setContext_in_progress {cx : Option Context} {span : Context} {i : Nat}
    (hy : (account others y).Balanced) (hc : (setContext cx).Permitted others y)
    (hs : y.2.callState.span = some span) (hi : span.record = some i)
    (hin : i ∉ y.1.telemetry.exports) :
    i ∉ (apply y (setContext cx)).1.telemetry.exports :=
  hy.not_mem_exports (setContext_leads hc) (Account.not_told (by simp) i) hin
    (span_mem_held (y := apply y (setContext cx)) others hs) hi

/-- A call that is no effective hook leaves the call state and the span in it as they are. -/
theorem Paired.concat_idle (h : Paired others x cs) (hc : c.Permitted others (applyAll x cs))
    (hskip : c.isHook = true → (applyAll x cs).2.context = none) :
    Paired others x (cs ++ [c]) := by
  have hstate : (apply (applyAll x cs) c).2.callState = (applyAll x cs).2.callState := by
    cases hhook : c.isHook with
    | true => rw [apply_of_absent (hskip hhook) hhook]
    | false => cases c <;> first | rfl | cases hhook
  have hin : ∀ span i, (applyAll x cs).2.callState.span = some span → span.record = some i →
      i ∉ (applyAll x cs).1.telemetry.exports →
        i ∉ (apply (applyAll x cs) c).1.telemetry.exports := by
    intro span i hs hi hin
    cases hhook : c.isHook with
    | true => rwa [apply_of_absent (hskip hhook) hhook]
    | false =>
      cases c with
      | before | after => cases hhook
      | setContext cx => exact setContext_in_progress h.balanced hc hs hi hin
  refine ⟨?_, fun hnone => ?_, fun pre o spanName post hl => ?_⟩
  · rw [applyAll_concat]
    exact h.balanced.reaches (apply_reaches hc)
  · rw [applyAll_concat, hstate]
    exact h.idle fun pre o spanName post hl => hnone pre o spanName _ (hl.concat hskip)
  · rw [applyAll_concat, hstate]
    rcases latest_concat hl with ⟨rfl, rfl⟩ | ⟨post', hl, -⟩
    · exact absurd (hskip rfl) hl.effective
    · obtain ⟨cx, hcx, hcall, hrun⟩ := h.pending pre o spanName post' hl
      exact ⟨cx, hcx, hcall, fun i hi => hin cx i (by rw [hcall]) hi (hrun i hi)⟩

theorem Paired.concat (h : Paired others x cs) (hc : c.Permitted others (applyAll x cs)) :
    Paired others x (cs ++ [c]) := by
  by_cases hskip : c.isHook = true → (applyAll x cs).2.context = none
  · exact h.concat_idle hc hskip
  obtain ⟨hhook, hpresent⟩ := Classical.not_imp.mp hskip
  obtain ⟨parent, hparent⟩ := Option.ne_none_iff_exists'.mp hpresent
  have hbalanced := h.balanced.reaches (apply_reaches hc)
  -- An effective call is the latest itself, or it is an after hook and leaves nothing behind.
  have hlast : ∀ {pre o spanName post}, Latest x (cs ++ [c]) pre o spanName post →
      pre = cs ∧ c = .before o spanName := by
    intro pre o spanName post hl
    rcases latest_concat hl with hnow | ⟨_, _, hquiet⟩
    · exact hnow
    · exact absurd (hquiet hhook) hpresent
  refine ⟨by rwa [applyAll_concat], fun hnone => ?_, fun pre o spanName post hl => ?_⟩
  · rw [applyAll_concat]
    cases c with
    | before o spanName => exact absurd (.now x hpresent o spanName) (hnone cs o spanName [])
    | after o => rw [apply, after_of_present hparent, Option.map_some, Option.getD_some]
    | setContext cx => cases hhook
  · obtain ⟨rfl, rfl⟩ := hlast hl
    obtain ⟨k, cx, hcx, hb⟩ := before_of_present hparent o spanName
    rw [applyAll_concat, apply, hb, Option.getD_some]
    exact ⟨cx, hcx, rfl, fun i hi => before_in_progress h.balanced hb hcx rfl hi⟩

/-- Each call is permitted when it is made. -/
def Permits (others : Multiset Context) (x : Host C σ × Statement) (cs : List HookCall) : Prop :=
  ∀ pre c post, cs = pre ++ c :: post → c.Permitted others (applyAll x pre)

theorem Permits.left {ds : List HookCall} (h : Permits others x (cs ++ ds)) :
    Permits others x cs := fun pre c post hs => h pre c (post ++ ds) (by simp [hs])

theorem Permits.paired (hx : (account others x).Balanced) (hs : x.2.callState = .empty)
    (h : Permits others x cs) : Paired others x cs := by
  induction cs using List.reverseRecOn with
  | nil => exact ⟨hx, fun _ => hs, fun pre o spanName post hl => by simpa using hl.split⟩
  | append_singleton cs c ih => exact (ih h.left).concat (h cs c [] rfl)

theorem Permits.balanced (hx : (account others x).Balanced) (h : Permits others x cs) :
    (account others (applyAll x cs)).Balanced := by
  induction cs using List.reverseRecOn with
  | nil => exact hx
  | append_singleton cs c ih =>
    rw [applyAll_concat]
    exact (ih h.left).reaches (apply_reaches (h cs c [] rfl))

theorem Permits.mem_exports (hx : (account others x).Balanced) {ds : List HookCall}
    (h : Permits others x (cs ++ ds)) {i : Nat} (hi : i ∈ (applyAll x cs).1.telemetry.exports) :
    i ∈ (applyAll x (cs ++ ds)).1.telemetry.exports := by
  induction ds using List.reverseRecOn with
  | nil => rwa [List.append_nil]
  | append_singleton ds c ih =>
    rw [← List.append_assoc] at h ⊢
    obtain ⟨calls, hcalls⟩ := apply_reaches (h (cs ++ ds) c [] rfl)
    have hstep := (h.left.balanced hx).mem_exports_calls hcalls.permits (ih h.left)
    rw [hcalls.calls] at hstep
    rwa [applyAll_concat]

/-- What the after hook makes of the span that it finds. -/
theorem closeSpan_exports (hy : (account others y).Balanced) {cx : Context}
    (hs : y.2.callState.span = some cx)
    (hin : ∀ i, cx.record = some i → i ∉ y.1.telemetry.exports) (o : Options) :
    (y.1.closeSpan o y.2).telemetry.exports = y.1.telemetry.exports ++ cx.record.toList := by
  cases hi : cx.record with
  | none =>
    simp only [Host.closeSpan, hs, Telemetry.editAll_of_unrecorded hi,
      Telemetry.release_of_unrecorded hi, Option.toList_none, List.append_nil]
  | some i =>
    obtain ⟨r, hr⟩ := hy.exists_record (Account.holdersOf_pos (span_mem_held others hs) hi)
    have hended : r.ended = false := by
      rw [Bool.eq_false_iff]
      exact fun hended => hin i hi ((hy.exported i).mpr ⟨r, hr, hended⟩)
    rw [Host.closeSpan_eq o hs hi hr hended]
    rfl

/-- How the hooks answer on a statement which these calls have brought from `x` to `y`. -/
structure Answers (x : Host C σ × Statement) (cs : List HookCall) (y : Host C σ × Statement) :
    Prop where
  /-- Both hooks answer nothing exactly if the context is missing, and then they leave all as it is. -/
  before_absent : ∀ o spanName, y.1.before o spanName y.2 = none ↔ y.2.context = none
  after_absent : ∀ o, y.1.after o y.2 = none ↔ y.2.context = none
  unchanged : y.2.context = none → ∀ o spanName,
    apply y (.before o spanName) = y ∧ apply y (.after o) = y
  /-- An after hook reports the call, and tells whether there was a span to end. -/
  reports : ∀ o r h s, y.1.after o y.2 = some (r, h, s) →
    (r.spanEnded = true ↔ ∃ pre o' spanName post, Latest x cs pre o' spanName post) ∧
      (r.spanEnded = false → r.elapsed = .zero ∧ h.telemetry = y.1.telemetry) ∧
        s = { y.2 with callState := .empty } ∧
          h.log = y.1.log ++ [r.event y.1.database.name]
  /-- It is the span of the latest effective before hook, and it was in progress until then. -/
  ends : ∀ pre o' spanName post, Latest x cs pre o' spanName post → ∃ cx : Context,
    (applyAll x pre).1.startedSpan o' spanName (applyAll x pre).2 = some cx ∧
      (∀ i, cx.record = some i → i ∉ y.1.telemetry.exports) ∧
        ∀ o r h s, y.1.after o y.2 = some (r, h, s) → r.elapsed = .measured ∧
          h.telemetry.exports = y.1.telemetry.exports ++ cx.record.toList
  /-- A before hook that an effective after hook has answered is not the latest effective call any
  more, and a span that has ended does not end again. -/
  once : ∀ ds o ds', cs = ds ++ .after o :: ds' → (applyAll x ds).2.context ≠ none →
    (∀ pre o' spanName post post', Latest x ds pre o' spanName post →
      ¬ Latest x cs pre o' spanName post') ∧
        ∀ i ∈ (applyAll x (ds ++ [.after o])).1.telemetry.exports, i ∈ y.1.telemetry.exports

theorem Paired.spanEnded_iff (h : Paired others x cs) (o : Options) :
    ((applyAll x cs).1.report o (applyAll x cs).2).spanEnded = true ↔
      ∃ pre o' spanName post, Latest x cs pre o' spanName post := by
  rw [Host.report]
  constructor
  · intro hspan
    by_contra hnone
    have hidle := h.idle fun pre o' spanName post hl => hnone ⟨pre, o', spanName, post, hl⟩
    rw [hidle] at hspan
    cases hspan
  · rintro ⟨pre, o', spanName, post, hl⟩
    obtain ⟨cx, -, hcall, -⟩ := h.pending pre o' spanName post hl
    rw [hcall]
    rfl

theorem Paired.report_of_not_spanEnded (h : Paired others x cs) (o : Options)
    (hended : ((applyAll x cs).1.report o (applyAll x cs).2).spanEnded = false) :
    ((applyAll x cs).1.report o (applyAll x cs).2).elapsed = .zero ∧
      (applyAll x cs).1.closeSpan o (applyAll x cs).2 = (applyAll x cs).1 := by
  have hidle : (applyAll x cs).2.callState = .empty := by
    refine h.idle fun pre o' spanName post hl => ?_
    rw [(h.spanEnded_iff o).mpr ⟨pre, o', spanName, post, hl⟩] at hended
    cases hended
  simp [Host.report, Host.closeSpan, hidle, CallState.empty]

theorem Latest.not_after {ds ds' post' : List HookCall} (hl : Latest x ds pre o spanName post)
    {o' : Options} (hd : (applyAll x ds).2.context ≠ none) (hcs : cs = ds ++ .after o' :: ds') :
    ¬ Latest x cs pre o spanName post' := by
  intro hl'
  have hsplit := hl'.split
  rw [hcs, hl.split, List.append_assoc, List.cons_append] at hsplit
  have hpost := (List.cons.inj (List.append_cancel_left hsplit)).2
  refine hd ?_
  rw [hl.split]
  exact hl'.quiet post (.after o') ds' hpost.symm rfl

/-- However often and in whatever order the hooks are called, and the context comes and goes. -/
theorem hooks_pair (hx : (account others x).Balanced) (hs : x.2.callState = .empty)
    (h : Permits others x cs) : Answers x cs (applyAll x cs) := by
  have hpaired := h.paired hx hs
  have hafter : ∀ {o r k s}, (applyAll x cs).1.after o (applyAll x cs).2 = some (r, k, s) →
      r = (applyAll x cs).1.report o (applyAll x cs).2 ∧
        k = ((applyAll x cs).1.closeSpan o (applyAll x cs).2).logged
          (r.event (applyAll x cs).1.database.name) ∧
        s = { (applyAll x cs).2 with callState := .empty } := by
    intro o r k s ha
    obtain ⟨parent, -, ha⟩ := Option.map_eq_some_iff.mp ha
    cases ha
    exact ⟨rfl, rfl, rfl⟩
  refine ⟨fun o spanName => Option.map_eq_none_iff, fun o => Option.map_eq_none_iff,
    fun habsent o spanName => ⟨apply_of_absent habsent rfl, apply_of_absent habsent rfl⟩,
    fun o r k s ha => ?_, fun pre o' spanName post hl => ?_, fun ds o ds' hcs hd => ⟨?_, ?_⟩⟩
  · obtain ⟨rfl, rfl, rfl⟩ := hafter ha
    refine ⟨hpaired.spanEnded_iff o, fun hended => ?_, rfl, ?_⟩
    · obtain ⟨hzero, hclose⟩ := hpaired.report_of_not_spanEnded o hended
      exact ⟨hzero, (congrArg Host.telemetry hclose :)⟩
    · exact congrArg (· ++ _) (Host.closeSpan_log o _ _)
  · obtain ⟨cx, hcx, hcall, hin⟩ := hpaired.pending pre o' spanName post hl
    refine ⟨cx, hcx, hin, fun o r k s ha => ?_⟩
    obtain ⟨rfl, rfl, rfl⟩ := hafter ha
    refine ⟨by simp [Host.report, hcall], ?_⟩
    exact closeSpan_exports hpaired.balanced (by rw [hcall]) hin o
  · exact fun pre o' spanName post post' hl => hl.not_after hd hcs
  · intro i hi
    have hsplit : cs = (ds ++ [.after o]) ++ ds' := by simp [hcs]
    rw [hsplit] at h ⊢
    exact h.mem_exports hx hi

/-- Contexts that carry no recorded span need nobody to hold them. -/
theorem permits_of_unrecorded (others : Multiset Context) (x : Host C σ × Statement)
    (hcs : ∀ cx, setContext (some cx) ∈ cs → cx.record = none) : Permits others x cs := by
  rintro pre c post rfl
  cases c with
  | before | after => trivial
  | setContext cx =>
    rintro k rfl
    exact .inr (hcs k (by simp))

/-- A statement under a context without a span, on a handle with nothing but the built-in steps. -/
def paired : Host Nat Unit × Statement :=
  (⟨.create "db" .mysql, .initial, [], ()⟩, .make (some .empty) "SELECT 1" [])

/-- The context is lost between the two hooks and regained, and both hooks are called twice. -/
theorem hooks_pair_regained :
    ∃ cs : List HookCall, Permits 0 paired cs ∧ paired.2.callState = .empty ∧
      cs.length = 7 ∧ Answers paired cs (applyAll paired cs) := by
  have hempty : Context.empty ∈ (0 : Multiset Context) ∨ Context.empty.record = none := .inr rfl
  have hbalanced : (account 0 paired).Balanced :=
    Account.balanced_initial.reaches (Account.reaches_retain .initial hempty)
  let o := Options.default.apply (.tracer (some (.recording "p")))
  have hpermits : Permits 0 paired [.before o "query", .setContext none, .after o,
      .setContext (some .empty), .before o "query", .after o, .after o] := by
    refine permits_of_unrecorded 0 paired fun cx hcx => ?_
    obtain rfl : cx = .empty := by simpa using hcx
    rfl
  exact ⟨_, hpermits, rfl, rfl, hooks_pair hbalanced rfl hpermits⟩

end HookCall
end DatabaseTracing
