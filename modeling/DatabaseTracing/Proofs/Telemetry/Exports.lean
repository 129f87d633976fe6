import DatabaseTracing.Proofs.Telemetry.Births
import DatabaseTracing.Proofs.Telemetry.Holders

/-! # Exported spans stay as they are

A holder that ends a span, or lets go of it, changes one record. What has been exported
before has ended, and so it stays what it was; what a call exports comes behind it.
-/
namespace DatabaseTracing.Telemetry
variable {t u : Telemetry} {c : Context} {p : Nat} {r r' : SpanRecord}

theorem records_update_self (hr : t.records[p]? = some r') (r : SpanRecord) (ends : Bool) :
    (t.update p r ends).records[p]? = some r :=
  List.getElem?_set_self (List.getElem?_eq_some_iff.mp hr).1

theorem records_update_ne {i : Nat} (hi : i ≠ p) (t : Telemetry) (r : SpanRecord) (ends : Bool) :
    (t.update p r ends).records[i]? = t.records[i]? :=
  List.getElem?_set_ne (Ne.symm hi)

@[simp] theorem length_records_update (t : Telemetry) (p : Nat) (r : SpanRecord) (ends : Bool) :
    (t.update p r ends).records.length = t.records.length :=
  List.length_set

theorem update_update (t : Telemetry) (p : Nat) (r r' : SpanRecord) (ends : Bool) :
    (t.update p r ends).update p r' false = t.update p r' ends := by
  simp [update]

theorem editAll_eq_update (hc : c.record = some p) (hr : t.records[p]? = some r)
    (es : List SpanEdit) :
    t.editAll c es = t.update p (r.edited es) (decide (r.ended = false ∧ .finish ∈ es)) := by
  simp only [editAll_eq hc hr es, update, decide_eq_true_eq]

/-- A holder that ends the span and lets go of it. -/
theorem close_eq_update (hc : c.record = some p) (hr : t.records[p]? = some r)
    {es : List SpanEdit} (hes : .finish ∈ es) : (t.editAll c es).release c =
      t.update p { r.edited es with holders := r.holders - 1 } (!r.ended) := by
  have hended : (r.edited es).ended = true := by simp [SpanRecord.ended_edited, hes]
  have hends : (decide (r.ended = false ∧ .finish ∈ es)) = !r.ended := by simp [hes]
  have hself := records_update_self hr (r.edited es) (!r.ended)
  have hrelease := release_eq_update hc hself
  rw [hended, Bool.not_true, Bool.false_and, update_update, Bool.true_or] at hrelease
  rw [editAll_eq_update hc hr, hends, hrelease, ← hended, SpanRecord.holders_edited]

@[simp] theorem globalProvider_releaseAll (t : Telemetry) (cs : List Context) :
    (t.releaseAll cs).globalProvider = t.globalProvider :=
  (releaseAll_sameBirths t cs).globalProvider

@[simp] theorem globalProvider_start (t : Telemetry) (p : Provider) (parent : Context)
    (name : String) (attributes : List Attribute) :
    (t.start p parent name attributes).2.globalProvider = t.globalProvider := by
  obtain ⟨_, ⟨-, ht⟩ | ⟨_, -, -, -, ht⟩⟩ := t.start_cases p parent name attributes <;> rw [ht]

/-! ### What is exported since -/

/-- The spans that have been exported since the store was `t`. -/
def exportedSince (t u : Telemetry) : List SpanRecord :=
  (u.exports.drop t.exports.length).filterMap (u.records[·]?)

theorem exportedSince_of_exports_eq (h : u.exports = t.exports) : t.exportedSince u = [] := by
  simp [exportedSince, h]

theorem exportedSince_update (hr : t.records[p]? = some r') (r : SpanRecord) (ends : Bool) :
    t.exportedSince (t.update p r ends) = if ends then [r] else [] := by
  cases ends with
  | false => exact exportedSince_of_exports_eq rfl
  | true =>
    have hself := records_update_self hr r true
    have hnew : (t.update p r true).exports.drop t.exports.length = [p] := by simp [update]
    rw [exportedSince, hnew, List.filterMap_cons, hself]
    rfl

theorem exportedSince_congr {s t u : Telemetry} (h : t.exports = s.exports) :
    s.exportedSince u = t.exportedSince u := by
  rw [exportedSince, exportedSince, h]

/-- From one store to the other more spans may have been exported, and those that had ended are as
they were. -/
structure Keeps (t u : Telemetry) : Prop where
  exports : t.exports <+: u.exports
  ended : ∀ (p : Nat) (r : SpanRecord), t.records[p]? = some r → r.ended = true →
    ∃ r' : SpanRecord, u.records[p]? = some r' ∧ r'.ended = true ∧ r'.data = r.data
  new : ∀ p ∈ u.exports, p ∈ t.exports ∨ ∃ r : SpanRecord, u.records[p]? = some r ∧ r.ended = true

/-- Every exported span has ended. -/
def Sealed (t : Telemetry) : Prop :=
  ∀ p ∈ t.exports, ∃ r : SpanRecord, t.records[p]? = some r ∧ r.ended = true

theorem Keeps.refl (t : Telemetry) : Keeps t t :=
  ⟨List.prefix_refl _, fun _ r hr hended => ⟨r, hr, hended, rfl⟩, fun _ hp => .inl hp⟩

theorem Keeps.trans {u v : Telemetry} (h : Keeps t u) (h' : Keeps u v) : Keeps t v where
  exports := h.exports.trans h'.exports
  ended p r hr hended := by
    obtain ⟨s, hs, hends, hdata⟩ := h.ended p r hr hended
    obtain ⟨s', hs', hends', hdata'⟩ := h'.ended p s hs hends
    exact ⟨s', hs', hends', hdata'.trans hdata⟩
  new p hp := by
    rcases h'.new p hp with hu | hv
    · rcases h.new p hu with ht | ⟨r, hr, hended⟩
      · exact .inl ht
      · obtain ⟨r', hr', hended', -⟩ := h'.ended p r hr hended
        exact .inr ⟨r', hr', hended'⟩
    · exact .inr hv

theorem Keeps.update {p : Nat} {r r' : SpanRecord} {ends : Bool} (hr : t.records[p]? = some r)
    (hended : r.ended = true → r'.ended = true ∧ r'.data = r.data)
    (hends : ends = true → r'.ended = true) : Keeps t (t.update p r' ends) where
  exports := by
    unfold Telemetry.update
    cases ends
    · exact List.prefix_refl _
    · exact List.prefix_append _ _
  ended i s hs hold := by
    by_cases hi : i = p
    · subst hi
      obtain rfl : r = s := Option.some.inj (hr.symm.trans hs)
      exact ⟨r', records_update_self hr r' ends, hended hold⟩
    · exact ⟨s, (records_update_ne hi t r' ends).trans hs, hold, rfl⟩
  new i hi := by
    cases ends with
    | false => exact .inl hi
    | true =>
      rcases List.mem_append.mp hi with hi | hi
      · exact .inl hi
      · obtain rfl := List.mem_singleton.mp hi
        exact .inr ⟨r', records_update_self hr r' true, hends rfl⟩

theorem Sealed.keeps (ht : t.Sealed) {u : Telemetry} (h : Keeps t u) : u.Sealed := by
  intro p hp
  rcases h.new p hp with hold | hnew
  · obtain ⟨r, hr, hended⟩ := ht p hold
    obtain ⟨r', hr', hended', -⟩ := h.ended p r hr hended
    exact ⟨r', hr', hended'⟩
  · exact hnew

/-- What was exported is followed by what has been exported since. -/
theorem Sealed.data_exported (ht : t.Sealed) {u : Telemetry} (h : Keeps t u) :
    u.exported.map SpanRecord.data =
      t.exported.map SpanRecord.data ++ (t.exportedSince u).map SpanRecord.data := by
  obtain ⟨new, hnew⟩ := h.exports
  have hdrop : u.exports.drop t.exports.length = new := by rw [← hnew, List.drop_left]
  have hsame : (t.exports.filterMap (u.records[·]?)).map SpanRecord.data
      = (t.exports.filterMap (t.records[·]?)).map SpanRecord.data := by
    rw [List.map_filterMap, List.map_filterMap]
    refine List.filterMap_congr fun p hp => ?_
    obtain ⟨r, hr, hended⟩ := ht p hp
    obtain ⟨r', hr', -, hdata⟩ := h.ended p r hr hended
    rw [hr, hr', Option.map_some, Option.map_some, hdata]
  rw [exported, exported, exportedSince, hdrop, ← hnew, List.filterMap_append, List.map_append,
    hsame]

theorem update_sameAt {i p : Nat} (hi : i ≠ p) (t : Telemetry) (r : SpanRecord) (ends : Bool) :
    t.SameAt i (t.update p r ends) := by
  refine ⟨Nat.le_of_eq (length_records_update ..).symm, records_update_ne hi t r ends, ?_⟩
  unfold Telemetry.update
  cases ends with
  | false => rfl
  | true => simp [Ne.symm hi]

/-- A start leaves what has been recorded before as it is. -/
theorem start_frame (t : Telemetry) (p : Provider) (parent : Context) (name : String)
    (attributes : List Attribute) :
    let u := t.start p parent name attributes
    Keeps t u.2 ∧ (∀ i < t.records.length, t.SameAt i u.2) ∧
      t.records.length ≤ u.2.records.length ∧
        ∀ i ∈ u.1.record, i = t.records.length ∧ i < u.2.records.length := by
  intro u
  obtain ⟨n, ⟨hnone, ht⟩ | ⟨r, -, -, hlast, ht⟩⟩ := t.start_cases p parent name attributes
  · have hu : u.2 = { t with nextIdent := n } := ht
    rw [hu]
    refine ⟨⟨List.prefix_refl _, fun _ s hs hended => ⟨s, hs, hended, rfl⟩, fun _ hi => .inl hi⟩,
      fun i _ => ⟨Nat.le_refl _, rfl, rfl⟩, Nat.le_refl _, fun i hi => ?_⟩
    rw [hnone] at hi
    cases hi
  · have hu : u.2 = { t with records := t.records ++ [r], nextIdent := n } := ht
    have hold (i : Nat) (hi : i < t.records.length) : (t.records ++ [r])[i]? = t.records[i]? :=
      List.getElem?_append_left hi
    have hlength : t.records.length ≤ (t.records ++ [r]).length := by simp
    rw [hu]
    refine ⟨⟨List.prefix_refl _, fun i s hs hended => ?_, fun i hi => .inl hi⟩,
      fun i hi => ⟨hlength, hold i hi, rfl⟩, hlength, fun i hi => ?_⟩
    · exact ⟨s, (hold i (List.getElem?_eq_some_iff.mp hs).1).trans hs, hended, rfl⟩
    · rw [hlast] at hi
      obtain rfl := Option.some.inj hi
      exact ⟨rfl, by simp⟩

/-- Nothing has happened to the store, or the record at `pending` has changed, if it had not ended. -/
inductive Touch (t : Telemetry) (pending : Option Nat) : Telemetry → Prop
  | nothing : Touch t pending t
  | update {p : Nat} {r r' : SpanRecord} {ends : Bool} (hp : pending = some p)
      (hr : t.records[p]? = some r)
      (hended : r.ended = true → r'.ended = true ∧ r'.data = r.data)
      (hends : ends = true → r'.ended = true) : Touch t pending (t.update p r' ends)

theorem Touch.keeps {u : Telemetry} {pending : Option Nat} (h : Touch t pending u) :
    Keeps t u ∧ u.records.length = t.records.length ∧ ∀ i, pending ≠ some i → t.SameAt i u := by
  cases h with
  | nothing => exact ⟨.refl t, rfl, fun i _ => .refl i t⟩
  | update hp hr hended hends =>
    refine ⟨.update hr hended hends, length_records_update .., fun i hi => ?_⟩
    refine update_sameAt ?_ t _ _
    rintro rfl
    exact hi hp

theorem Touch.eq_of_none {u : Telemetry} (h : Touch t none u) : u = t := by
  cases h with
  | nothing => rfl
  | update hp => cases hp

/-- What a holder does comes to an update of one record, if the context carries a recorded span. -/
theorem touch_of_update (hc : ∀ p ∈ c.record, p < t.records.length)
    (hnone : c.record = none → u = t)
    (hsome : ∀ p r, c.record = some p → t.records[p]? = some r → ∃ r' ends,
      u = t.update p r' ends ∧ (r.ended = true → r'.ended = true ∧ r'.data = r.data) ∧
        (ends = true → r'.ended = true)) : Touch t c.record u := by
  cases hrecord : c.record with
  | none =>
    rw [hnone hrecord]
    exact .nothing
  | some p =>
    have hr := List.getElem?_eq_getElem (hc p hrecord)
    obtain ⟨r', ends, rfl, hended, hends⟩ := hsome p _ hrecord hr
    exact .update rfl hr hended hends

theorem release_touch (hc : ∀ p ∈ c.record, p < t.records.length) :
    Touch t c.record (t.release c) := by
  refine touch_of_update hc (release_of_unrecorded · t) fun p r hp hr =>
    ⟨_, _, release_eq_update hp hr, fun hended => ?_, fun hends => ?_⟩
  · simp [hended, SpanRecord.data]
  · rw [(Bool.and_eq_true_iff.mp hends).2, Bool.or_true]

theorem retain_touch (hc : ∀ p ∈ c.record, p < t.records.length) :
    Touch t c.record (t.retain c) := by
  refine touch_of_update hc (fun hp => ?_) fun p r hp hr =>
    ⟨_, _, retain_eq_update hp hr, fun hended => ⟨hended, rfl⟩, fun hends => by cases hends⟩
  simp only [retain, hp]

theorem editAll_touch (hc : ∀ p ∈ c.record, p < t.records.length) (es : List SpanEdit) :
    Touch t c.record (t.editAll c es) := by
  refine touch_of_update hc (editAll_of_unrecorded · t es) fun p r hp hr =>
    ⟨_, _, editAll_eq_update hp hr es, fun hended => ?_, fun hends => ?_⟩
  · rw [SpanRecord.edited_of_ended hended]
    exact ⟨hended, rfl⟩
  · simp [SpanRecord.ended_edited, (of_decide_eq_true hends).2]

theorem close_touch (hc : ∀ p ∈ c.record, p < t.records.length) {es : List SpanEdit}
    (hes : .finish ∈ es) : Touch t c.record ((t.editAll c es).release c) := by
  have hended (r : SpanRecord) : (r.edited es).ended = true := by
    simp [SpanRecord.ended_edited, hes]
  refine touch_of_update hc (fun hp => ?_) fun p r hp hr =>
    ⟨_, _, close_eq_update hp hr hes, fun h => ⟨hended r, ?_⟩, fun _ => hended r⟩
  · rw [editAll_of_unrecorded hp, release_of_unrecorded hp]
  · rw [SpanRecord.edited_of_ended h]
    rfl

end DatabaseTracing.Telemetry
