import DatabaseTracing.Telemetry.Store
import Mathlib.Data.List.Basic

/-! # Edits of a recorded span

A sequence of edits acts on one record: in order, up to the edit that ends the span.
Attributes and events are appended as far as the span takes them, and the end puts the
span on the list of exports once.
-/
namespace DatabaseTracing

/-- Of the items that are appended one after the other, those stay for which there is room. -/
theorem foldl_appendUpTo {α : Type} (limit : Nat) (xs ys : List α) :
    ys.foldl (appendUpTo limit) xs = xs ++ ys.take (limit - xs.length) := by
  induction ys generalizing xs with
  | nil => simp
  | cons y ys ih =>
    rw [List.foldl_cons, ih, appendUpTo]
    by_cases hroom : xs.length < limit
    · obtain ⟨n, hn⟩ := Nat.exists_eq_add_of_lt hroom
      have hleft : limit - xs.length = n + 1 := by omega
      simp [hroom, hleft, ← Nat.sub_sub]
    · have hfull : limit - xs.length = 0 := by omega
      simp [hroom, hfull]

namespace SpanEdit

def attribute? : SpanEdit → Option Attribute
  | .attribute key value => some (key, value)
  | _ => none

def event? : SpanEdit → Option SpanEvent
  | .event e => some e.clipped
  | _ => none

def status? : SpanEdit → Option SpanStatus
  | .status s => some s
  | _ => none

/-- The attributes that the edits add, up to the end of the span. -/
def attributes (es : List SpanEdit) : List Attribute :=
  (es.takeWhile (· ≠ .finish)).filterMap attribute?

/-- The events that the edits record, up to the end of the span, as a span keeps them. -/
def events (es : List SpanEdit) : List SpanEvent := (es.takeWhile (· ≠ .finish)).filterMap event?

/-- The statuses that the edits set, up to the end of the span. -/
def statuses (es : List SpanEdit) : List SpanStatus :=
  (es.takeWhile (· ≠ .finish)).filterMap status?

theorem attributes_cons {e : SpanEdit} (he : e ≠ .finish) (es : List SpanEdit) :
    attributes (e :: es) = e.attribute?.toList ++ attributes es := by
  rw [attributes, List.takeWhile_cons_of_pos (by simpa using he), List.filterMap_cons]
  cases e.attribute? <;> rfl

theorem takeWhile_append_finish (es : List SpanEdit) :
    (es ++ [finish]).takeWhile (· ≠ finish) = es.takeWhile (· ≠ finish) := by
  induction es with
  | nil => rfl
  | cons e es ih => rw [List.cons_append, List.takeWhile_cons, List.takeWhile_cons, ih]

theorem attributes_append_finish (es : List SpanEdit) :
    attributes (es ++ [.finish]) = attributes es :=
  congrArg (List.filterMap attribute?) (takeWhile_append_finish es)

end SpanEdit

namespace SpanRecord
variable {r : SpanRecord} {e : SpanEdit} {es : List SpanEdit}

/-- The record after the edits; those that come after its end do nothing. -/
def edited (r : SpanRecord) (es : List SpanEdit) : SpanRecord :=
  es.foldl (fun r e => if r.ended then r else r.apply e) r

theorem edited_cons (hr : r.ended = false) (e : SpanEdit) (es : List SpanEdit) :
    r.edited (e :: es) = (r.apply e).edited es := by
  simp [edited, hr]

theorem edited_of_ended (hr : r.ended = true) (es : List SpanEdit) : r.edited es = r := by
  induction es with
  | nil => rfl
  | cons e es ih => simpa [edited, hr] using ih

theorem ended_apply (r : SpanRecord) (e : SpanEdit) :
    (r.apply e).ended = (r.ended || decide (e = .finish)) := by
  cases e <;> simp [apply]

/-- What a span has from its start on stays, and so do its holders. -/
theorem fixed_apply (r : SpanRecord) (e : SpanEdit) :
    (r.apply e).birth = r.birth ∧ (r.apply e).holders = r.holders := by
  cases e <;> exact ⟨rfl, rfl⟩

theorem fixed_edited (r : SpanRecord) (es : List SpanEdit) :
    (r.edited es).birth = r.birth ∧ (r.edited es).holders = r.holders := by
  induction es generalizing r with
  | nil => exact ⟨rfl, rfl⟩
  | cons e es ih =>
    cases hr : r.ended with
    | true =>
      rw [edited_of_ended hr]
      exact ⟨rfl, rfl⟩
    | false =>
      rw [edited_cons hr, (ih (r.apply e)).1, (ih (r.apply e)).2]
      exact r.fixed_apply e

theorem birth_edited (r : SpanRecord) (es : List SpanEdit) : (r.edited es).birth = r.birth :=
  (r.fixed_edited es).1

theorem holders_edited (r : SpanRecord) (es : List SpanEdit) :
    (r.edited es).holders = r.holders :=
  (r.fixed_edited es).2

theorem ended_edited (r : SpanRecord) (es : List SpanEdit) :
    (r.edited es).ended = (r.ended || decide (.finish ∈ es)) := by
  induction es generalizing r with
  | nil => simp [edited]
  | cons e es ih =>
    cases hr : r.ended with
    | true => rw [edited_of_ended hr, hr, Bool.true_or]
    | false =>
      rw [edited_cons hr, ih, ended_apply, hr, Bool.false_or, Bool.false_or]
      simp [eq_comm]

/-- The edits up to the end of the span are made one after the other. -/
theorem edited_eq_foldl (hr : r.ended = false) (es : List SpanEdit) : r.edited es =
    { (es.takeWhile (· ≠ .finish)).foldl apply r with ended := decide (.finish ∈ es) } := by
  induction es generalizing r with
  | nil => simp [edited, ← hr]
  | cons e es ih =>
    rw [edited_cons hr]
    by_cases he : e = .finish
    · subst he
      simp [edited_of_ended, apply]
    · have hended : (r.apply e).ended = false := by simp [ended_apply, hr, he]
      simp [ih hended, he, Ne.symm he]

/-- Attributes are appended as far as there is room. -/
theorem attributes_foldl (r : SpanRecord) (es : List SpanEdit) :
    (es.foldl apply r).attributes = r.attributes ++
      (es.filterMap SpanEdit.attribute?).take (attributeLimit - r.attributes.length) := by
  rw [← foldl_appendUpTo]
  induction es generalizing r with
  | nil => rfl
  | cons e es ih => cases e <;> exact ih _

theorem events_foldl (r : SpanRecord) (es : List SpanEdit) :
    (es.foldl apply r).events = r.events ++
      (es.filterMap SpanEdit.event?).take (eventLimit - r.events.length) := by
  rw [← foldl_appendUpTo]
  induction es generalizing r with
  | nil => rfl
  | cons e es ih => cases e <;> exact ih _

theorem status_foldl (r : SpanRecord) (es : List SpanEdit) :
    (es.foldl apply r).status = (es.filterMap SpanEdit.status?).foldl .raise r.status := by
  induction es generalizing r with
  | nil => rfl
  | cons e es ih => cases e <;> exact ih _

theorem attributes_edited (hr : r.ended = false) (hroom : r.attributes.length ≤ attributeLimit)
    (es : List SpanEdit) : (r.edited es).attributes =
      (r.attributes ++ SpanEdit.attributes es).take attributeLimit := by
  rw [edited_eq_foldl hr, List.take_append, List.take_of_length_le hroom]
  exact attributes_foldl r _

end SpanRecord

namespace Telemetry
variable {t : Telemetry} {c : Context} {i : Nat} {r : SpanRecord} {e : SpanEdit}

theorem edit_of_unrecorded (hc : c.record = none) (t : Telemetry) (e : SpanEdit) :
    t.edit c e = t := by
  simp only [edit, hc]

theorem editAll_of_unrecorded (hc : c.record = none) (t : Telemetry) (es : List SpanEdit) :
    t.editAll c es = t := by
  induction es generalizing t with
  | nil => rfl
  | cons e es ih => exact (congrArg (editAll · c es) (edit_of_unrecorded hc t e)).trans (ih t)

theorem release_of_unrecorded (hc : c.record = none) (t : Telemetry) : t.release c = t := by
  simp only [release, hc]

theorem edit_of_ended (hc : c.record = some i) (hr : t.records[i]? = some r)
    (hended : r.ended = true) (e : SpanEdit) : t.edit c e = t := by
  simp [edit, hc, editRecord, inProgress, hr, hended]

theorem edit_in_progress (hc : c.record = some i) (hr : t.records[i]? = some r)
    (hended : r.ended = false) (e : SpanEdit) : t.edit c e =
      { t with
        records := t.records.set i (r.apply e)
        exports := if e = .finish then t.exports ++ [i] else t.exports } := by
  have hmodify : t.records.modify i (·.apply e) = t.records.set i (r.apply e) := by
    rw [List.modify_eq_set_getElem?, hr]
    rfl
  simp [edit, hc, editRecord, inProgress, hr, hended, hmodify]

theorem inProgress_edit (he : e ≠ .finish) (t : Telemetry) (c : Context) (i : Nat) :
    (t.edit c e).inProgress i = t.inProgress i := by
  unfold edit
  cases c.record with
  | none => rfl
  | some j =>
    dsimp only
    unfold editRecord
    split
    · by_cases hj : j = i
      · simp [inProgress, hj, SpanRecord.ended_apply, he, Option.any_map]
      · simp [inProgress, List.getElem?_modify_ne _ _ hj]
    · rfl

/-- Edits other than the end leave every span in progress. -/
theorem inProgress_editAll {es : List SpanEdit} (hes : .finish ∉ es) (t : Telemetry) (c : Context)
    (i : Nat) : (t.editAll c es).inProgress i = t.inProgress i := by
  induction es generalizing t with
  | nil => rfl
  | cons e es ih =>
    obtain ⟨he, hes⟩ := List.ne_and_not_mem_of_not_mem_cons hes
    exact (ih hes (t.edit c e)).trans (inProgress_edit (Ne.symm he) t c i)

/-- All edits of a span in one: its record is edited, and it is exported if that ends it. -/
theorem editAll_eq (hc : c.record = some i) (hr : t.records[i]? = some r) (es : List SpanEdit) :
    t.editAll c es =
      { t with
        records := t.records.set i (r.edited es)
        exports := if r.ended = false ∧ .finish ∈ es then t.exports ++ [i] else t.exports } := by
  have hi : i < t.records.length := (List.getElem?_eq_some_iff.mp hr).1
  have hself : t.records.set i r = t.records := by
    rw [← (List.getElem?_eq_some_iff.mp hr).2]
    exact List.set_getElem_self hi
  induction es generalizing t r with
  | nil => simp [editAll, SpanRecord.edited, hself]
  | cons e es ih =>
    have hstep : t.editAll c (e :: es) = (t.edit c e).editAll c es := rfl
    cases hended : r.ended with
    | true =>
      rw [hstep, edit_of_ended hc hr hended, ih hr hi hself, SpanRecord.edited_of_ended hended,
        SpanRecord.edited_of_ended hended]
      simp [hended]
    | false =>
      rw [hstep, edit_in_progress hc hr hended,
        ih (r := r.apply e) (by simp [hi]) (by simpa using hi) (by simp),
        SpanRecord.edited_cons hended, List.set_set, SpanRecord.ended_apply, hended]
      by_cases he : e = .finish
      · simp [he]
      · simp [he, Ne.symm he]

/-- Letting go of a span that has ended changes nothing but the number of its holders. -/
theorem release_of_ended (hc : c.record = some i) (hr : t.records[i]? = some r)
    (hended : r.ended = true) : t.release c =
      { t with records := t.records.set i { r with holders := r.holders - 1 } } := by
  have hi : i < t.records.length := (List.getElem?_eq_some_iff.mp hr).1
  have hmodify : t.records.modify i (fun r => { r with holders := r.holders - 1 }) =
      t.records.set i { r with holders := r.holders - 1 } := by
    rw [List.modify_eq_set_getElem?, hr]
    rfl
  simp [release, hc, hmodify, editRecord, inProgress, hi, hended]

/-- Nothing changes for the span recorded at `i`, or to be recorded there. Others may be started. -/
structure SameAt (i : Nat) (t t' : Telemetry) : Prop where
  count : t.records.length ≤ t'.records.length
  record : t'.records[i]? = t.records[i]?
  exports : t'.exports.count i = t.exports.count i

theorem SameAt.refl (i : Nat) (t : Telemetry) : t.SameAt i t := ⟨Nat.le_refl _, rfl, rfl⟩

theorem SameAt.trans {t' t'' : Telemetry} (h : t.SameAt i t') (h' : t'.SameAt i t'') :
    t.SameAt i t'' :=
  ⟨Nat.le_trans h.count h'.count, h'.record.trans h.record, h'.exports.trans h.exports⟩

theorem editRecord_sameAt {j : Nat} (hj : j ≠ i) (t : Telemetry) (e : SpanEdit) :
    t.SameAt i (t.editRecord j e) := by
  unfold editRecord
  split
  · refine ⟨Nat.le_of_eq (List.length_modify ..).symm, List.getElem?_modify_ne _ _ hj, ?_⟩
    split
    · rw [List.count_append, List.count_singleton, if_neg (by simpa using hj), Nat.add_zero]
    · rfl
  · exact .refl i t

theorem release_sameAt (hc : c.record ≠ some i) (t : Telemetry) : t.SameAt i (t.release c) := by
  unfold release
  cases hrecord : c.record with
  | none => exact .refl i t
  | some j =>
    have hj : j ≠ i := fun he => hc (he ▸ hrecord)
    have hholders : t.SameAt i { t with
        records := t.records.modify j fun r => { r with holders := r.holders - 1 } } :=
      ⟨Nat.le_of_eq (List.length_modify ..).symm, List.getElem?_modify_ne _ _ hj, rfl⟩
    dsimp only
    split
    · exact hholders.trans (editRecord_sameAt hj _ _)
    · exact hholders

theorem edit_sameAt (hc : c.record ≠ some i) (t : Telemetry) (e : SpanEdit) :
    t.SameAt i (t.edit c e) := by
  unfold edit
  cases hrecord : c.record with
  | none => exact .refl i t
  | some j => exact editRecord_sameAt (fun he => hc (hrecord.trans (congrArg some he))) t e

theorem editAll_sameAt (hc : c.record ≠ some i) (t : Telemetry) (es : List SpanEdit) :
    t.SameAt i (t.editAll c es) := by
  induction es generalizing t with
  | nil => exact .refl i t
  | cons e es ih => exact (edit_sameAt hc t e).trans (ih (t.edit c e))

theorem releaseAll_sameAt {cs : List Context} (hcs : ∀ c ∈ cs, c.record ≠ some i)
    (t : Telemetry) : t.SameAt i (t.releaseAll cs) := by
  induction cs generalizing t with
  | nil => exact .refl i t
  | cons c cs ih =>
    obtain ⟨hc, hcs⟩ := List.forall_mem_cons.mp hcs
    exact (release_sameAt hc t).trans (ih hcs (t.release c))

end Telemetry

/-- Spans started under the context are recorded: it has no active span, or a sampled one. -/
def Context.Sampling (c : Context) : Prop := ∀ a ∈ c.active, a.context.sampled = true

theorem Telemetry.start_recording (t : Telemetry) (label : String) {parent : Context}
    (hp : parent.Sampling) (name : String) (attributes : List Attribute) :
    ∃ context outer, t.start (.recording label) parent name attributes =
      (⟨some ⟨context, some t.records.length⟩⟩,
        { t with
          nextIdent := t.nextIdent + 2
          records := t.records ++ [⟨⟨label, tracerName, name, .client, context, outer⟩,
            attributes, [], .unset, false, 1⟩] }) := by
  obtain ⟨_ | a⟩ := parent
  · exact ⟨_, _, rfl⟩
  · have hsampled : a.context.sampled = true := hp a rfl
    refine ⟨⟨a.context.trace, .fresh (t.nextIdent + 1), true⟩, a.context.span, ?_⟩
    simp [Telemetry.start, hsampled]

/-- Otherwise, or by the silent provider, nothing is recorded. -/
theorem Telemetry.start_unrecorded (t : Telemetry) {p : Provider} {parent : Context}
    (hp : p = .noop ∨ ¬ parent.Sampling) (name : String) (attributes : List Attribute) :
    (t.start p parent name attributes).1.record = none := by
  rcases hp with rfl | hp
  · rfl
  · rcases parent with ⟨_ | a⟩
    · exact (hp nofun).elim
    · have hsampled : a.context.sampled = false :=
        Bool.eq_false_iff.mpr fun h => hp fun b hb => Option.some.inj hb ▸ h
      cases p with
      | noop => rfl
      | recording label => simp [Telemetry.start, hsampled, Context.record]

end DatabaseTracing
