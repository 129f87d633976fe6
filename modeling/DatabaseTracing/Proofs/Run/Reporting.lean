import DatabaseTracing.Proofs.Run.Pairing
import DatabaseTracing.Proofs.Run.SpanStatus
import Mathlib.Data.Int.ModEq

/-! # What the after hook tells

The after hook answers a report, logs an event and ends the span that it finds in the call
state. All three get the same SQL, and the row count if results are logged; a statement
that has failed has its error put on the span before that ends. Nothing else changes but the
call state, which is emptied.

An error tag may be any code. `closeSpanBy` calls it where the edits of the options' own tag
are made, and `tagCalls` lists its calls.
-/
namespace DatabaseTracing
variable {C σ : Type}

theorem toInt_toInt64 (n : UInt64) : n.toInt64.toInt = Int.bmod n.toNat (2 ^ 64) :=
  BitVec.toInt_eq_toNat_bmod n.toBitVec

def LogEvent.value? (e : LogEvent) (name : String) : Option LogValue := e.fields.lookup name

theorem CallReport.values_event (r : CallReport) (database : String) :
    (r.event database).value? "sql" = some (.plain r.sql) ∧
      (r.event database).value? "rows_affected" = r.rowsAffected.map (.count ·.toNat) := by
  rcases r with ⟨elapsed, sql, _ | n, spanEnded⟩ <;> exact ⟨rfl, rfl⟩

/-- What the report says, as it is put on a span. -/
def CallReport.attributes (r : CallReport) : List Attribute :=
  ("db.statement", .text r.sql) ::
    r.rowsAffected.toList.map fun n => ("db.otel.rows_affected", .integer n.toInt64)

namespace Options
variable (o : Options) (d : Dialect) (s : Statement)

/-- What is put on the span ahead of the error. -/
def callEdits : List SpanEdit := (o.callAttributes d s).map fun a => .attribute a.1 a.2

theorem finish_notMem_callEdits : .finish ∉ o.callEdits d s := by
  simp [callEdits]

theorem filterMap_callEdits {α : Type} (f : SpanEdit → Option α) :
    (o.callEdits d s).filterMap f =
      (o.callAttributes d s).filterMap fun a => f (.attribute a.1 a.2) := by
  rw [callEdits, List.filterMap_map]
  rfl

theorem closingEdits_eq :
    o.closingEdits d s = o.callEdits d s ++ (o.errorEdits s ++ [.finish]) := by
  cases hrows : o.recordedRows s <;>
    simp [closingEdits, callEdits, callAttributes, hrows, rowsAttribute]

theorem takeWhile_closingEdits : (o.closingEdits d s).takeWhile (· ≠ .finish) =
    o.callEdits d s ++ (o.errorEdits s).takeWhile (· ≠ .finish) := by
  have hcall : ∀ e ∈ o.callEdits d s, decide (e ≠ .finish) = true := by
    intro e he
    refine decide_eq_true ?_
    rintro rfl
    exact o.finish_notMem_callEdits d s he
  rw [closingEdits_eq, List.takeWhile_append_of_pos hcall,
    SpanEdit.takeWhile_append_finish]

end Options

/-- The span has ended, and what the report says has been put on it and then the edits of a tag. A
span that is full takes no more attributes, and no more events. -/
structure SpanRecord.ClosedWith (span : SpanRecord) (r : CallReport) (tag : List SpanEdit)
    (span' : SpanRecord) : Prop where
  ended : span'.ended = true
  attributes : span'.attributes = span.attributes ++
    (r.attributes ++ SpanEdit.attributes tag).take (attributeLimit - span.attributes.length)
  events : span'.events =
    span.events ++ (SpanEdit.events tag).take (eventLimit - span.events.length)
  status : span'.status = (SpanEdit.statuses tag).foldl .raise span.status
  birth : span'.birth = span.birth

theorem Options.closedWith_edited {span : SpanRecord} (hspan : span.ended = false) (o : Options)
    (h : Host C σ) (s : Statement) (holders : Nat) :
    span.ClosedWith (h.report o s) (o.errorEdits s)
      { span.edited (o.closingEdits h.database.dialect s) with holders } := by
  have htakeWhile := o.takeWhile_closingEdits h.database.dialect s
  have hcall {α : Type} (f : SpanEdit → Option α) := o.filterMap_callEdits h.database.dialect s f
  refine ⟨?_, ?_, ?_, ?_, span.birth_edited _⟩
  · simp [SpanRecord.ended_edited, o.finish_mem_closingEdits]
  · have hattributes : (o.callEdits h.database.dialect s).filterMap SpanEdit.attribute? =
        (h.report o s).attributes := (hcall _).trans List.filterMap_some
    rw [SpanRecord.edited_eq_foldl hspan, htakeWhile]
    refine (SpanRecord.attributes_foldl ..).trans ?_
    rw [List.filterMap_append, hattributes]
    rfl
  · rw [SpanRecord.edited_eq_foldl hspan, htakeWhile]
    refine (SpanRecord.events_foldl ..).trans ?_
    rw [List.filterMap_append, hcall]
    simp [SpanEdit.event?, SpanEdit.events]
  · rw [SpanRecord.edited_eq_foldl hspan, htakeWhile]
    refine (SpanRecord.status_foldl ..).trans ?_
    rw [List.filterMap_append, hcall]
    simp [SpanEdit.status?, SpanEdit.statuses]

/-! ### Tags that are code -/

/-- An error tag is called with the context of a span and an error. -/
abbrev TagCode (C σ : Type) := Context → DatabaseError → Host C σ → Host C σ

/-- The code that makes the edits of the options' tag. -/
def Options.tagCode (o : Options) : TagCode C σ := fun cx e h =>
  { h with telemetry := h.telemetry.editAll cx (o.errorTag e) }

/-- A call of a tag, and whether the span was in progress. -/
structure TagCall where
  span : Context
  error : DatabaseError
  inProgress : Bool

/-- The same code, with its calls noted. -/
def TagCode.noting (tag : TagCode C σ) : TagCode C (σ × List TagCall) := fun cx e h =>
  (tag cx e (h.mapUser (·.1))).mapUser fun x =>
    (x, h.user.2 ++ [⟨cx, e, cx.record.any h.telemetry.inProgress⟩])

namespace Host

/-- Ends the call's span with any code for the tag. -/
def closeSpanBy (tag : TagCode C σ) (o : Options) (h : Host C σ) (s : Statement) : Host C σ :=
  match s.callState.span with
  | none => h
  | some cx =>
    let told := { h with telemetry := h.telemetry.editAll cx (o.callEdits h.database.dialect s) }
    let tagged := s.failure?.elim told fun e => tag cx e told
    { tagged with telemetry := (tagged.telemetry.edit cx .finish).release cx }

/-- The calls of the tag when the span is closed. -/
def tagCalls (tag : TagCode C σ) (o : Options) (h : Host C σ) (s : Statement) : List TagCall :=
  ((h.mapUser fun x => (x, [])).closeSpanBy tag.noting o s).user.2

theorem closeSpan_eq_closeSpanBy (o : Options) (h : Host C σ) (s : Statement) :
    h.closeSpan o s = h.closeSpanBy o.tagCode o s := by
  unfold closeSpan closeSpanBy
  cases s.callState.span with
  | none => rfl
  | some cx =>
    rw [o.closingEdits_eq, Options.errorEdits_eq]
    cases s.failure? with
    | none => simp [Telemetry.editAll]
    | some e => simp [Telemetry.editAll, Options.tagCode]

/-- A stored span of a statement that has failed is tagged once, while it is in progress. -/
theorem tagCalls_eq (tag : TagCode C σ) (o : Options) (h : Host C σ) (s : Statement) :
    h.tagCalls tag o s = match s.callState.span, s.failure? with
      | some cx, some e => [⟨cx, e, cx.record.any h.telemetry.inProgress⟩]
      | _, _ => [] := by
  unfold tagCalls closeSpanBy
  cases s.callState.span with
  | none => rfl
  | some cx =>
    cases s.failure? with
    | none => rfl
    | some e =>
      have hprogress := Telemetry.inProgress_editAll
        (o.finish_notMem_callEdits h.database.dialect s) h.telemetry cx
      exact congrArg (fun f => [TagCall.mk cx e (cx.record.any f)]) (funext hprogress)

/-! ### What is told and what is left alone -/

theorem closeSpan_settled (o : Options) {h : Host C σ} {s : Statement} {i : Nat}
    {span : SpanRecord} (hr : h.telemetry.records[i]? = some span)
    (hended : s.pending = some i → span.ended = true) :
    (h.closeSpan o s).telemetry.exports.count i = h.telemetry.exports.count i ∧
      ∃ span', (h.closeSpan o s).telemetry.records[i]? = some span' ∧ span'.data = span.data := by
  unfold closeSpan
  cases hspan : s.callState.span with
  | none => exact ⟨rfl, span, hr, rfl⟩
  | some cx =>
    by_cases hcx : cx.record = some i
    · have hended := hended (by rw [Statement.pending, hspan]; exact hcx)
      dsimp only
      rw [Telemetry.close_eq_update hcx hr (o.finish_mem_closingEdits ..), hended,
        SpanRecord.edited_of_ended hended]
      exact ⟨rfl, _, Telemetry.records_update_self hr .., rfl⟩
    · have hsame := (Telemetry.editAll_sameAt hcx h.telemetry
        (o.closingEdits h.database.dialect s)).trans (Telemetry.release_sameAt hcx _)
      exact ⟨hsame.exports, span, hsame.record.trans hr, rfl⟩

/-- Of the call, the report, the log and the span tell the same; of the rest, nothing changes. -/
structure Reported (o : Options) (h : Host C σ) (s : Statement) (r : CallReport) (h' : Host C σ)
    (s' : Statement) : Prop where
  sql : r.sql = if o.logSqlParameters then h.database.dialect.explain s.sql s.vars else s.sql
  rows : r.rowsAffected = if o.logResult then some s.rowsAffected else none
  elapsed : r.elapsed = if s.callState.started then .measured else .zero
  spanEnded : r.spanEnded = s.callState.span.isSome
  logged : ∃ e, h'.log = h.log ++ [e] ∧ e.level = .debug ∧
    e.value? "sql" = some (.plain r.sql) ∧
      e.value? "rows_affected" = r.rowsAffected.map (.count ·.toNat)
  /-- A span in progress gets the same, as far as it has room, and ends. -/
  span : ∀ cx i span, s.callState.span = some cx → cx.record = some i →
    h.telemetry.records[i]? = some span → span.ended = false →
      h'.telemetry.exports = h.telemetry.exports ++ [i] ∧
        ∃ span', h'.telemetry.records[i]? = some span' ∧
          span.ClosedWith r (o.errorEdits s) span'
  wraps : ∀ n ∈ r.rowsAffected, n.toInt64.toInt ≡ n.toNat [ZMOD 2 ^ 64]
  /-- The tag is made by code that is called once, or not at all. -/
  coded : h' = (h.closeSpanBy o.tagCode o s).logged (r.event h.database.name)
  tagged : ∀ (tag : TagCode C σ) cx e, s.callState.span = some cx → s.error = some e →
    e ≠ .recordNotFound → h.tagCalls tag o s = [⟨cx, e, cx.record.any h.telemetry.inProgress⟩]
  untagged : ∀ tag : TagCode C σ, s.callState.span = none ∨
    (∀ e, s.error = some e → e = .recordNotFound) → h.tagCalls tag o s = []
  /-- Other spans, and one that has ended, are left alone. -/
  settled : ∀ i span, h.telemetry.records[i]? = some span →
    (s.pending = some i → span.ended = true) →
      h'.telemetry.exports.count i = h.telemetry.exports.count i ∧
        ∃ span', h'.telemetry.records[i]? = some span' ∧ span'.data = span.data
  births : h.telemetry.SameBirths h'.telemetry
  rest : h'.database = h.database ∧ h'.user = h.user
  statement : s' = { s with callState := .empty }

theorem after_reported (o : Options) (h : Host C σ) {s : Statement} (hs : s.context ≠ none) :
    ∃ r h' s', h.after o s = some (r, h', s') ∧ Reported o h s r h' s' := by
  obtain ⟨parent, hparent⟩ := Option.ne_none_iff_exists'.mp hs
  have hafter := HookCall.after_of_present (y := (h, s)) hparent o
  refine ⟨_, _, _, hafter, ?_⟩
  obtain ⟨t, hclose, -⟩ := closeSpan_frame o h s
  have hfailure (e : DatabaseError) :
      s.failure? = some e ↔ s.error = some e ∧ e ≠ .recordNotFound := by
    rw [Statement.failure?_eq_some_iff, Statement.result_eq_error_iff]
  exact {
    sql := rfl
    rows := rfl
    elapsed := rfl
    spanEnded := rfl
    logged := ⟨_, congrArg (· ++ _) (closeSpan_log o h s), rfl, CallReport.values_event ..⟩
    span cx i span hspan hcx hr hended := by
      have hi := (List.getElem?_eq_some_iff.mp hr).1
      have hclosed := o.closedWith_edited hended h s
      rw [closeSpan_eq o hspan hcx hr hended]
      exact ⟨rfl, _, List.getElem?_set_self hi, hclosed _⟩
    wraps n _ := by
      rw [toInt_toInt64]
      exact Int.bmod_emod
    coded := by rw [closeSpan_eq_closeSpanBy]
    tagged tag cx e hcx he hfound := by
      rw [tagCalls_eq, hcx, (hfailure e).mpr ⟨he, hfound⟩]
    untagged tag hnone := by
      rw [tagCalls_eq]
      rcases hnone with hspan | hfound
      · rw [hspan]
      · have hnone : s.failure? = none := Option.eq_none_iff_forall_ne_some.mpr fun e he =>
          ((hfailure e).mp he).2 (hfound e ((hfailure e).mp he).1)
        rw [hnone]
        cases s.callState.span <;> rfl
    settled i span hr hended := closeSpan_settled o hr hended
    births := closeSpan_sameBirths o h s
    rest := by rw [hclose]; exact ⟨rfl, rfl⟩
    statement := rfl }

/-- The statement's span has started, and that many attributes more have been put on it. -/
def decorated (o : Options) (n : Nat) : Host Nat Unit × Statement :=
  let x := HookCall.apply HookCall.paired (.before o "query")
  let edits := List.replicate n (.attribute "k" (.text "v"))
  ({ x.1 with telemetry := x.2.callState.span.elim x.1.telemetry (x.1.telemetry.editAll · edits) },
    x.2)

/-- There is room for one more attribute, and the tag ends the span. -/
theorem after_reported_one_left :
    ∃ o : Options, ∃ h : Host Nat Unit, ∃ s : Statement, s.context ≠ none ∧
      s.error = some (.query "lost") ∧ o.errorTag (.query "lost") = [.finish] ∧
        h.telemetry.records.map (·.attributes.length) = [127] ∧
          ∃ r h' s', h.after o s = some (r, h', s') ∧ Reported o h s r h' s' := by
  let o := Options.ofChanges
    [.tracer (some (.recording "p")), .logResult true, .errorTag fun _ => [.finish]]
  let x := decorated o 125
  let s := { x.2 with error := some (.query "lost") }
  have hcontext : s.context ≠ none := nofun
  exact ⟨o, x.1, s, hcontext, rfl, rfl, by decide +kernel, after_reported o x.1 hcontext⟩

/-- A span that is full gets nothing more, not even the SQL. -/
theorem after_full :
    let o := Options.ofChanges [.tracer (some (.recording "p"))]
    let x := decorated o 126
    x.2.pending = some 0 ∧ x.1.telemetry.inProgress 0 = true ∧
      ∃ r h' s', x.1.after o x.2 = some (r, h', s') ∧
        h'.telemetry.records.map (·.attributes) = x.1.telemetry.records.map (·.attributes) ∧
          ∀ span ∈ h'.telemetry.records, ("db.statement", .text r.sql) ∉ span.attributes := by
  refine ⟨rfl, by decide +kernel, _, _, _, rfl, ?_, ?_⟩
  · decide +kernel
  · decide +kernel

end Host
end DatabaseTracing
