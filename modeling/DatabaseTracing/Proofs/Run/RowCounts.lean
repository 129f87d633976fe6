import DatabaseTracing.Proofs.Run.FirstError
import DatabaseTracing.Proofs.Run.Reporting

/-! # The row count on the span

What the driver answers is the result of the run, and the after hook reports and logs it.
On the span the count is a signed number. So it is the driver's on a span that is in
progress and has room, up to the greatest signed number; a greater count turns negative.
-/
namespace DatabaseTracing
variable {C σ : Type}

theorem toInt_toInt64_eq_iff (n : UInt64) : n.toInt64.toInt = n.toNat ↔ n.toNat < 2 ^ 63 := by
  have hn := n.toNat_lt
  rw [toInt_toInt64, Int.bmod_def]
  split <;> omega

def Attribute.rowCount? : Attribute → Option Int64
  | ("db.otel.rows_affected", .integer n) => some n
  | _ => none

/-- The row counts that have been put on the span, in order. -/
def SpanRecord.rowCounts (span : SpanRecord) : List Int64 :=
  span.attributes.filterMap Attribute.rowCount?

theorem SpanRecord.ClosedWith.rowCounts {span span' : SpanRecord} {r : CallReport} {n : UInt64}
    (h : span.ClosedWith r [] span') (hn : r.rowsAffected = some n) :
    span'.rowCounts = span.rowCounts ++
      if span.attributes.length + 2 ≤ attributeLimit then [n.toInt64] else [] := by
  have hattributes : r.attributes ++ SpanEdit.attributes [] =
      [("db.statement", .text r.sql), ("db.otel.rows_affected", .integer n.toInt64)] := by
    rw [CallReport.attributes, hn]
    rfl
  rw [SpanRecord.rowCounts, h.attributes, hattributes, List.filterMap_append]
  refine congrArg (span.rowCounts ++ ·) ?_
  split
  · rw [List.take_of_length_le (by simp; omega)]
    rfl
  · obtain hnone | hone : attributeLimit - span.attributes.length = 0 ∨
        attributeLimit - span.attributes.length = 1 := by omega
    · rw [hnone]
      rfl
    · rw [hone]
      rfl

/-- Whatever has been done to the span before, closing it leaves one count more on it, or none. -/
theorem Host.closeSpan_rowCounts {opts : Options} (hopts : opts.logResult = true) {h : Host C σ}
    {s : Statement} (herror : s.error = none) {cx : Context} {i : Nat} {span : SpanRecord}
    (hspan : s.callState.span = some cx) (hcx : cx.record = some i)
    (hr : h.telemetry.records[i]? = some span) :
    ∃ span', (h.closeSpan opts s).telemetry.records[i]? = some span' ∧ span'.ended = true ∧
      span'.rowCounts = span.rowCounts ++
        if span.ended = false ∧ span.attributes.length + 2 ≤ SpanRecord.attributeLimit
        then [s.rowsAffected.toInt64] else [] := by
  have hfinish := opts.finish_mem_closingEdits h.database.dialect s
  have hself := Telemetry.records_update_self hr
  have htelemetry : (h.closeSpan opts s).telemetry =
      (h.telemetry.editAll cx (opts.closingEdits h.database.dialect s)).release cx := by
    rw [closeSpan, hspan]
  rw [htelemetry, Telemetry.close_eq_update hcx hr hfinish]
  refine ⟨_, hself .., by simp [SpanRecord.ended_edited, hfinish], ?_⟩
  cases hended : span.ended with
  | true =>
    rw [SpanRecord.edited_of_ended hended]
    simp [SpanRecord.rowCounts]
  | false =>
    have htag : opts.errorEdits s = [] := by rw [Options.errorEdits, herror]
    have hclosed := opts.closedWith_edited hended h s (span.holders - 1)
    have hrows : (h.report opts s).rowsAffected = some s.rowsAffected := if_pos hopts
    rw [htag] at hclosed
    simpa using hclosed.rowCounts hrows

namespace UserCode
variable {u : UserCode C σ} {o : Operation} {opts : Options} {h : Host C σ} {s : Statement}
  {l q r : Pipeline (Hook C)} {n : UInt64}

/-- In a run, users' hooks leave the statement as they find it. -/
def SparesStatement (u : UserCode C σ) (o : Operation) (h : Host C σ) (s : Statement) : Prop :=
  ∀ name x y, u.HookTurn o h s name x y → y.2 = x.2

namespace SparesStatement

theorem alike (hu : u.SparesStatement o h s) (hsound : (h.database.pipelines o).Sound o)
    (hp : h.database.pipelines o = l ++ q ++ r) (hq : ∀ step ∈ q, step.isBuiltin = false) :
    ((l ++ q).foldl (u.runStep o) (h, s)).2.Alike (l.foldl (u.runStep o) (h, s)).2 := by
  refine runSteps_along (R := fun x y => y.2.Alike x.2) (fun _ => .refl _)
    (fun hxy hyz => hyz.trans hxy) hsound hp fun step hmem => ?_
  have hin : step ∈ h.database.pipelines o := by simp [hp, hmem]
  refine runStep_at_turn hin (hq step hmem) (fun _ _ halike => halike.statement) ?_
  intro x y hturn
  rw [hu _ x y hturn]
  exact .refl _

/-- Steps that are no tracing hooks leave alone what those go by. -/
theorem context_callState (hu : u.SparesStatement o h s)
    (hsound : (h.database.pipelines o).Sound o) (hp : h.database.pipelines o = l ++ q ++ r)
    (hq : ∀ step ∈ q, step.isTracing = false) :
    let x := l.foldl (u.runStep o) (h, s)
    let y := (l ++ q).foldl (u.runStep o) (h, s)
    y.2.context = x.2.context ∧ y.2.callState = x.2.callState := by
  refine runSteps_along (R := fun x y => y.2.context = x.2.context ∧
    y.2.callState = x.2.callState) (fun _ => ⟨rfl, rfl⟩)
    (fun hxy hyz => ⟨hyz.1.trans hxy.1, hyz.2.trans hxy.2⟩) hsound hp fun step hmem => ?_
  have hin : step ∈ h.database.pipelines o := by simp [hp, hmem]
  refine runStep_untraced (P := fun x y => y.2.context = x.2.context ∧
    y.2.callState = x.2.callState) hin (hq step hmem) (fun x => ?_) fun x y hturn => ?_
  · have hapart := runBuiltin_apart u o 0 x
    exact ⟨hapart.context, hapart.callState⟩
  · rw [hu _ x y hturn]
    exact ⟨rfl, rfl⟩

/-- Behind the driver, the statement has the driver's count. -/
theorem alike_behind (hu : u.SparesStatement o h s) (hsound : (h.database.pipelines o).Sound o)
    (hp : h.database.pipelines o = l ++ .builtin o :: (q ++ r))
    (hhooks : ∀ step ∈ l ++ (q ++ r), step.isBuiltin = false) (herror : s.error = none)
    (hdriver : let x := u.reaching o o.builtinStep h s
      (u.driver o x.2 x.1.user).1 = .ok n) :
    ((l ++ .builtin o :: q).foldl (u.runStep o) (h, s)).2.Alike { s with rowsAffected := n } := by
  obtain ⟨hl, hqr⟩ := List.forall_mem_append.mp hhooks
  have hbehind : h.database.pipelines o = (l ++ [.builtin o]) ++ q ++ r := by simp [hp]
  have hx := hu.alike (l := []) hsound hp hl
  have hy := hu.alike hsound hbehind fun step hmem => hqr step (List.mem_append_left r hmem)
  have hturn : u.reaching o o.builtinStep h s = l.foldl (u.runStep o) (h, s) :=
    reaching_eq u hsound hp s
  rw [List.foldl_concat] at hy
  rw [List.nil_append] at hx
  rw [← hturn] at hx hy
  have hnone : (u.reaching o o.builtinStep h s).2.error = none := hx.error.trans herror
  have hstep : (u.runStep o (u.reaching o o.builtinStep h s) (.builtin o)).2 =
      { (u.reaching o o.builtinStep h s).2 with rowsAffected := n } := by
    simp only [runStep, runBuiltin, hnone, Option.isSome_none, Bool.false_eq_true, if_false,
      hdriver]
  have hsteps : l ++ .builtin o :: q = (l ++ [.builtin o]) ++ q := by simp
  rw [hsteps]
  refine hy.trans ?_
  rw [hstep]
  exact ⟨hx.context, hx.sql, hx.vars, rfl, hx.error⟩

end SparesStatement

/-- The after hook finds the driver's count, and the run answers it. -/
theorem SparesStatement.counted (hu : u.SparesStatement o h s)
    (he : Pipelines.Equipped σ opts h.database.pipelines) (herror : s.error = none)
    (hdriver : let x := u.reaching o o.builtinStep h s
      (u.driver o x.2 x.1.user).1 = .ok n) :
    (u.reaching o (Stage.name ⟨o, .after⟩) h s).2.Alike { s with rowsAffected := n } ∧
      (u.run o h s).2.2.Alike { s with rowsAffected := n } := by
  have hsound := he.sound o
  have hplaced := he.placed ⟨o, .after⟩
  obtain ⟨l, r, hp, hhooks⟩ := exists_split_builtin he.wellFormed o
  have hahead : (h.database.pipelines o).Ahead (Step.builtin o : Step (Hook C)).name
      (Stage.step (C := C) opts ⟨o, .after⟩).name := by
    rw [Stage.step_name]
    exact hplaced.beside
  obtain ⟨q, r', rfl⟩ := hsound.split_behind hplaced.mem hp hahead
  have hsplit : h.database.pipelines o =
      (l ++ .builtin o :: q) ++ Stage.step opts ⟨o, .after⟩ :: r' := by
    rw [hp, List.append_assoc, List.cons_append]
  rw [reaching_stage u hsound hsplit]
  refine ⟨hu.alike_behind hsound hp hhooks herror hdriver, ?_⟩
  have hall := hu.alike_behind (r := []) hsound (hp.trans (by rw [List.append_nil]))
    (by rwa [List.append_nil]) herror hdriver
  rw [← hp] at hall
  exact hall

/-- The after hook finds the span that the before hook has started. -/
theorem SparesStatement.started (hu : u.SparesStatement o h s)
    (he : Pipelines.Equipped σ opts h.database.pipelines) (hcontext : s.context ≠ none) :
    let w := u.reaching o (Stage.name ⟨o, .before⟩) h s
    let y := u.reaching o (Stage.name ⟨o, .after⟩) h s
    ∃ cx, w.1.startedSpan opts (opts.spanName o) w.2 = some cx ∧
      y.2.callState = ⟨true, some cx⟩ := by
  obtain ⟨parent, hparent⟩ := Option.ne_none_iff_exists'.mp hcontext
  obtain ⟨l, m, r, hlayout⟩ := he.layout o
  have hsound := he.sound o
  have hbetween : h.database.pipelines o = (l ++ [Stage.step opts ⟨o, .before⟩]) ++ m ++
      Stage.step opts ⟨o, .after⟩ :: r := by
    simp only [hlayout.steps, List.append_assoc, List.cons_append, List.nil_append]
  have hbefore := reaching_stage u hsound hlayout.steps s
  have hafter := reaching_stage u hsound hlayout.steps_after s
  obtain ⟨hlm, -⟩ := List.forall_mem_append.mp hlayout.untraced
  obtain ⟨hl, hm⟩ := List.forall_mem_append.mp hlm
  obtain ⟨hfirst, -⟩ := hu.context_callState (l := []) hsound hlayout.steps hl
  obtain ⟨-, hlast⟩ := hu.context_callState hsound hbetween hm
  obtain ⟨k, cx, hcx, hb⟩ := HookCall.before_of_present (hfirst.trans hparent) opts (opts.spanName o)
  refine ⟨cx, by rwa [hbefore], ?_⟩
  have hstep : u.runStep o (l.foldl (u.runStep o) (h, s)) (Stage.step opts ⟨o, .before⟩) =
      (k, { (l.foldl (u.runStep o) (h, s)).2 with callState := ⟨true, some cx⟩ }) :=
    congrArg (Option.getD · _) hb
  rw [List.append_assoc, List.singleton_append, List.foldl_concat, hstep] at hlast
  rw [hafter]
  exact hlast

/-- A span that has been closed is exported as it is. -/
theorem Careful.exported_of_after (hu : u.Careful) {others : Multiset Context}
    {y : Host C σ × Statement} (hy : (HookCall.account others y).Balanced)
    (p : Pipeline (Hook C)) {i : Nat} {span : SpanRecord}
    (hr : y.1.telemetry.records[i]? = some span) (hended : span.ended = true) :
    let z := p.foldl (u.runStep o) y
    i ∈ z.1.telemetry.exports ∧
      (z.1.telemetry.records[i]?).map SpanRecord.data = some span.data := by
  intro z
  obtain ⟨calls, hcalls⟩ := (hu.runSteps o p y).beside others
  have hi : i ∈ y.1.telemetry.exports := (hy.exported i).mpr ⟨span, hr, hended⟩
  have hz : z.1.telemetry = ((HookCall.account others y).calls calls).telemetry :=
    (congrArg Account.telemetry hcalls.calls).symm
  rw [hz]
  refine ⟨hy.mem_exports_calls hcalls.permits hi, ?_⟩
  refine (hy.data_calls hcalls.permits hi).trans ?_
  exact congrArg (Option.map SpanRecord.data) hr

/-- The after hook's count, on the span as it is exported in the end. -/
theorem Careful.rowCounts_exported (hcareful : u.Careful) (hopts : opts.logResult = true)
    {others : Multiset Context} {y : Host C σ × Statement}
    (hy : (HookCall.account others y).Balanced) {parent : Context}
    (hparent : y.2.context = some parent) (herror : y.2.error = none) {cx : Context}
    (hspan : y.2.callState.span = some cx) {i : Nat} (hi : cx.record = some i) :
    let z := (Stage.step opts ⟨o, .after⟩ :: r).foldl (u.runStep o) y
    i ∈ z.1.telemetry.exports ∧ ∃ span span', y.1.telemetry.records[i]? = some span ∧
      (z.1.telemetry.records[i]?).map SpanRecord.data = some span' ∧
        span'.rowCounts = span.rowCounts ++
          if span.ended = false ∧ span.attributes.length + 2 ≤ SpanRecord.attributeLimit
          then [y.2.rowsAffected.toInt64] else [] := by
  intro z
  set y' := u.runStep o y (Stage.step opts ⟨o, .after⟩)
  have hheld : cx ∈ (HookCall.account others y).held := HookCall.span_mem_held others hspan
  obtain ⟨span, hr⟩ := hy.exists_record (Account.holdersOf_pos hheld hi)
  obtain ⟨span', hr', hended, hcounts⟩ := Host.closeSpan_rowCounts hopts herror hspan hi hr
  have hclosed : y'.1.telemetry = (y.1.closeSpan opts y.2).telemetry := by
    have hstep : y' = ((y.1.after opts y.2).map (·.2)).getD y := rfl
    rw [hstep, HookCall.after_of_present hparent]
    rfl
  have hleft : (HookCall.account others y').Balanced :=
    hy.reaches ((hcareful.runStep o y _).beside others)
  obtain ⟨hexported, hdata⟩ :=
    hcareful.exported_of_after hleft r (o := o) (hclosed ▸ hr') hended
  exact ⟨hexported, span, _, hr, hdata, hcounts⟩

/-- The driver's count, on a run to `z` in which the before hook finds `w` and the after hook `y`. -/
structure Counted (opts : Options) (o : Operation) (n : UInt64) (w y z : Host C σ × Statement) :
    Prop where
  /-- It is reported and logged, once. -/
  reported : ∃ r y' e, y.1.after opts y.2 = some (r, y') ∧ r.rowsAffected = some n ∧
    y'.1.log = y.1.log ++ [e] ∧ e.value? "rows_affected" = some (.count n.toNat)
  /-- It is on the exported span, if that has taken it and the count is small enough. -/
  exported : ∃ cx, w.1.startedSpan opts (opts.spanName o) w.2 = some cx ∧
    y.2.callState = ⟨true, some cx⟩ ∧ ∀ i ∈ cx.record, i ∈ z.1.telemetry.exports ∧
      ∃ span span', y.1.telemetry.records[i]? = some span ∧
        (z.1.telemetry.records[i]?).map SpanRecord.data = some span' ∧
          ((∃ k, span'.rowCounts = span.rowCounts ++ [k] ∧ k.toInt = (n.toNat : Int)) ↔
            span.ended = false ∧ span.attributes.length + 2 ≤ SpanRecord.attributeLimit ∧
              n.toNat < 2 ^ 63)

theorem exists_concat_ite_iff {P : Prop} [Decidable P] {counts : List Int64} {k : Int64} {n : Int} :
    (∃ k', (counts ++ if P then [k] else []) = counts ++ [k'] ∧ k'.toInt = n) ↔
      P ∧ k.toInt = n := by
  split <;> simp_all

theorem row_counts_agree_iff {others : Multiset Context}
    (he : Pipelines.Equipped σ opts h.database.pipelines) (hopts : opts.logResult = true)
    (hcareful : u.Careful) (hbalanced : (HookCall.account others (h, s)).Balanced)
    (hu : u.SparesStatement o h s) (hcontext : s.context ≠ none) (herror : s.error = none)
    (hdriver : let x := u.reaching o o.builtinStep h s
      (u.driver o x.2 x.1.user).1 = .ok n) :
    (u.run o h s).1 = .ok n ∧ Counted opts o n (u.reaching o (Stage.name ⟨o, .before⟩) h s)
      (u.reaching o (Stage.name ⟨o, .after⟩) h s) (u.run o h s).2 := by
  obtain ⟨hy, hz⟩ := hu.counted he herror hdriver
  obtain ⟨cx, hcx, hspan⟩ := hu.started he hcontext
  obtain ⟨parent, hparent⟩ := Option.ne_none_iff_exists'.mp hcontext
  have hresult : (u.run o h s).1 = .ok n := hz.result_eq.trans (by rw [Statement.result, herror])
  set y := u.reaching o (Stage.name ⟨o, .after⟩) h s
  have hafter := HookCall.after_of_present (hy.context.trans hparent) opts
  have hrows : (y.1.report opts y.2).rowsAffected = some n :=
    (if_pos hopts).trans (congrArg some hy.rowsAffected)
  have hlogged := (CallReport.values_event (y.1.report opts y.2) y.1.database.name).2
  rw [hrows] at hlogged
  refine ⟨hresult, ⟨_, _, _, hafter, hrows,
    congrArg (· ++ _) (Host.closeSpan_log ..), hlogged⟩, cx, hcx, hspan, fun i hi => ?_⟩
  obtain ⟨l, r, hp⟩ := List.append_of_mem (he.placed ⟨o, .after⟩).mem
  have hturn : y = l.foldl (u.runStep o) (h, s) := reaching_stage u (he.sound o) hp s
  have hfound : (HookCall.account others y).Balanced :=
    hbalanced.reaches (hturn ▸ (hcareful.runSteps o l (h, s)).beside others)
  have hrun : (u.run o h s).2 = (Stage.step opts ⟨o, .after⟩ :: r).foldl (u.runStep o) y := by
    rw [hturn, ← List.foldl_append, ← hp]
    rfl
  obtain ⟨hexported, span, span', hr, hdata, hcounts⟩ := hcareful.rowCounts_exported hopts hfound
    (hy.context.trans hparent) (hy.error.trans herror) (by rw [hspan]) hi
  rw [hrun]
  refine ⟨hexported, span, span', hr, hdata, ?_⟩
  rw [hcounts, exists_concat_ite_iff, hy.rowsAffected, toInt_toInt64_eq_iff, and_assoc]

/-- A hook edits the span of the call. The driver always answers the same count. -/
def decorating : UserCode SpanEdit UInt64 where
  hook e h s := ({ h with telemetry := s.callState.span.elim h.telemetry (h.telemetry.edit · e) }, s)
  driver _ _ n := (.ok n, n)

/-- The plugin has been set up, then users have registered these hooks for queries. -/
def decoratedHost (n : UInt64) (hooks : List (String × SpanEdit)) : Host SpanEdit UInt64 :=
  let h := ((Host.mk (.create "db" .mysql) .initial [] n).setUp (Tracing.setup exporting)).2
  let pipelines := h.database.pipelines.calls
    (hooks.map fun hook => .register .query (.after "db:query") hook.1 (.custom hook.2))
  { h with database := { h.database with pipelines } }

theorem decoratedHost_equipped (n : UInt64) (hooks : List (String × SpanEdit)) :
    Pipelines.Equipped UInt64 exporting (decoratedHost n hooks).database.pipelines := by
  have hnone : ∀ c ∈ ([] : List (Pipelines.Call (Hook SpanEdit))), c.Usual := by simp
  refine .setUp (h := ⟨.create "db" .mysql, .initial, [], n⟩) hnone rfl rfl ?_
  intro d hd
  obtain ⟨hook, -, rfl⟩ := List.mem_map.mp hd
  exact ⟨.inl (.register ..), fun stage he => by cases he⟩

theorem decorating_careful : decorating.Careful := by
  intro e h s
  change Account.Reaches ⟨h.telemetry, s.held⟩
    ⟨s.callState.span.elim h.telemetry (h.telemetry.edit · e), s.held⟩
  cases hspan : s.callState.span with
  | none => exact .refl _
  | some cx =>
    have hheld : cx ∈ (↑s.held : Multiset Context) := by simp [Statement.held, hspan]
    exact Account.reaches_edit h.telemetry hheld e

theorem decorating_sparesStatement {h : Host SpanEdit UInt64} :
    decorating.SparesStatement o h s := by
  intro name x y hturn
  cases hturn with
  | intro hmem => rfl

/-- The greatest count that fits, on a span that a user's hook has put an attribute on. -/
theorem row_counts_agree_iff_greatest :
    let n : UInt64 := 9223372036854775807
    let h := decoratedHost n [("decorate", .attribute "k" (.text "v"))]
    let s := Statement.make (some .empty) "SELECT 1" []
    Pipelines.Equipped UInt64 exporting h.database.pipelines ∧ exporting.logResult = true ∧
      decorating.Careful ∧ (HookCall.account 0 (h, s)).Balanced ∧
      decorating.SparesStatement .query h s ∧ s.context ≠ none ∧ s.error = none ∧
      (decorating.run .query h s).1 = .ok n ∧
      Counted exporting .query n (decorating.reaching .query (Stage.name ⟨.query, .before⟩) h s)
        (decorating.reaching .query (Stage.name ⟨.query, .after⟩) h s)
        (decorating.run .query h s).2 := by
  intro n h s
  have he : Pipelines.Equipped UInt64 exporting h.database.pipelines := decoratedHost_equipped ..
  have hempty : Context.empty ∈ (0 : Multiset Context) ∨ Context.empty.record = none := .inr rfl
  have hbalanced : (HookCall.account 0 (h, s)).Balanced :=
    Account.balanced_initial.reaches (Account.reaches_retain .initial hempty)
  have hu : decorating.SparesStatement .query h s := decorating_sparesStatement
  have hcontext : s.context ≠ none := nofun
  exact ⟨he, rfl, decorating_careful, hbalanced, hu, hcontext, rfl,
    row_counts_agree_iff he rfl decorating_careful hbalanced hu hcontext rfl rfl⟩

/-- The next count is negative on the span. -/
theorem row_count_wraps :
    let n : UInt64 := 9223372036854775808
    let h := decoratedHost n []
    let s := Statement.make (some .empty) "SELECT 1" []
    Pipelines.Equipped UInt64 exporting h.database.pipelines ∧
      decorating.SparesStatement .query h s ∧ (decorating.run .query h s).1 = .ok n ∧
      (decorating.run .query h s).2.1.telemetry.exported.map SpanRecord.rowCounts =
        [[-9223372036854775808]] :=
  ⟨decoratedHost_equipped .., decorating_sparesStatement, rfl, by decide +kernel⟩

end UserCode
end DatabaseTracing
