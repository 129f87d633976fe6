import DatabaseTracing.Proofs.Lists
import DatabaseTracing.Proofs.Telemetry.Edits
import Mathlib.Data.Multiset.AddSub
import Mathlib.Data.Multiset.Filter

/-! # Spans and those who hold them

An account is the span store together with the contexts that somebody holds. The calls
that a holder may make keep it balanced: each recorded span counts its holders, a span
is exported once, when it ends, and a span that has not ended is held. It ends when
it is told to, or else when its last holder lets go of it; and it stays as it was
exported.
-/
namespace DatabaseTracing

structure Account where
  telemetry : Telemetry
  /-- The contexts that are held, each as often as it is. -/
  held : Multiset Context

/-- What can be done to the span store. -/
inductive SpanCall where
  | start (p : Provider) (parent : Context) (name : String) (attributes : List Attribute)
  | edit (c : Context) (e : SpanEdit)
  | retain (c : Context)
  | release (c : Context)
  | setGlobal (p : Provider)

namespace SpanCall

/-- Whoever starts a span holds it. -/
def apply (x : Account) : SpanCall → Account
  | .start p parent name attributes =>
    let started := x.telemetry.start p parent name attributes
    ⟨started.2, started.1 ::ₘ x.held⟩
  | .edit c e => ⟨x.telemetry.edit c e, x.held⟩
  | .retain c => ⟨x.telemetry.retain c, c ::ₘ x.held⟩
  | .release c => ⟨x.telemetry.release c, x.held.erase c⟩
  | .setGlobal p => ⟨x.telemetry.setGlobal p, x.held⟩

/-- A recorded span is reached only by a context that is held. -/
def Permitted (held : Multiset Context) : SpanCall → Prop
  | .edit c _ => c ∈ held
  | .retain c => c ∈ held ∨ c.record = none
  | .release c => c ∈ held
  | _ => True

/-- The call tells the recorded span to end. -/
def Ends (c : SpanCall) (i : Nat) : Prop := ∃ cx : Context, c = .edit cx .finish ∧ cx.record = some i

end SpanCall

namespace Account

/-- How often the span is held. -/
def holdersOf (x : Account) (i : Nat) : Nat := x.held.countP fun c => c.record = some i

structure Balanced (x : Account) : Prop where
  once : x.telemetry.exports.Nodup
  exported : ∀ i, i ∈ x.telemetry.exports ↔
    ∃ r : SpanRecord, x.telemetry.records[i]? = some r ∧ r.ended = true
  holders : ∀ (i : Nat) (r : SpanRecord), x.telemetry.records[i]? = some r → r.holders = x.holdersOf i
  known : ∀ i, 0 < x.holdersOf i → i < x.telemetry.records.length
  alive : ∀ (i : Nat) (r : SpanRecord), x.telemetry.records[i]? = some r → r.ended = false → 0 < r.holders

theorem balanced_initial : Balanced ⟨.initial, 0⟩ where
  once := List.nodup_nil
  exported := by simp [Telemetry.initial]
  holders := by simp [Telemetry.initial]
  known := by simp [holdersOf]
  alive := by simp [Telemetry.initial]

end Account

/-- The record as it is exported. Who holds the span is not part of it. -/
def SpanRecord.data (r : SpanRecord) : SpanRecord := { r with holders := 0 }

namespace Telemetry
variable {t : Telemetry} {c : Context} {i : Nat} {r : SpanRecord}

/-- The record at position `i` becomes another one and is exported if it ends by that. -/
def update (t : Telemetry) (i : Nat) (r : SpanRecord) (ends : Bool) : Telemetry :=
  { t with
    records := t.records.set i r
    exports := if ends then t.exports ++ [i] else t.exports }

theorem edit_eq_update (hc : c.record = some i) (hr : t.records[i]? = some r) (e : SpanEdit) :
    t.edit c e = t.update i (r.edited [e]) (decide (r.ended = false ∧ e = .finish)) := by
  have h := editAll_eq hc hr [e]
  simp only [List.mem_singleton, eq_comm (a := SpanEdit.finish)] at h
  refine h.trans ?_
  simp [update]

theorem retain_eq_update (hc : c.record = some i) (hr : t.records[i]? = some r) :
    t.retain c = t.update i { r with holders := r.holders + 1 } false := by
  have hmodify : t.records.modify i (fun r => { r with holders := r.holders + 1 }) =
      t.records.set i { r with holders := r.holders + 1 } := by
    rw [List.modify_eq_set_getElem?, hr]
    rfl
  simp [retain, hc, hmodify, update]

/-- The last holder's going ends a span in progress. -/
theorem release_eq_update (hc : c.record = some i) (hr : t.records[i]? = some r) :
    t.release c = t.update i
      { r with holders := r.holders - 1, ended := r.ended || r.holders - 1 == 0 }
      (!r.ended && r.holders - 1 == 0) := by
  have hi : i < t.records.length := (List.getElem?_eq_some_iff.mp hr).1
  have hmodify : t.records.modify i (fun r => { r with holders := r.holders - 1 }) =
      t.records.set i { r with holders := r.holders - 1 } := by
    rw [List.modify_eq_set_getElem?, hr]
    rfl
  cases hended : r.ended with
  | true =>
    rw [release_of_ended hc hr hended]
    simp [update, hended]
  | false =>
    cases hlast : r.holders - 1 == 0 with
    | true =>
      simp [release, hc, hmodify, hlast, editRecord, inProgress, hended, update, hi,
        SpanRecord.apply, List.modify_eq_set_getElem?]
    | false => simp [release, hc, hmodify, hlast, hended, update, hi]

/-- A started span is recorded behind the others, in progress and held once, or not at all. -/
theorem start_cases (t : Telemetry) (p : Provider) (parent : Context) (name : String)
    (attributes : List Attribute) :
    ∃ n, (t.start p parent name attributes).1.record = none ∧
        (t.start p parent name attributes).2 = { t with nextIdent := n } ∨
      ∃ r : SpanRecord, r.ended = false ∧ r.holders = 1 ∧
        (t.start p parent name attributes).1.record = some t.records.length ∧
        (t.start p parent name attributes).2 =
          { t with records := t.records ++ [r], nextIdent := n } := by
  cases p with
  | noop => exact ⟨t.nextIdent, .inl ⟨rfl, rfl⟩⟩
  | recording label =>
    refine ⟨t.nextIdent + 2, ?_⟩
    rcases parent with ⟨_ | a⟩
    · exact .inr ⟨_, rfl, rfl, rfl, rfl⟩
    · simp only [start, Option.map_some]
      split
      · exact .inr ⟨_, rfl, rfl, rfl, rfl⟩
      · exact .inl ⟨rfl, rfl⟩

end Telemetry

namespace Account

/-- A call changes the record of a span that is held, and perhaps the number of its holders. -/
structure Change (x : Account) (c : SpanCall) (y : Account) (i : Nat) (r r' : SpanRecord)
    (ends : Bool) : Prop where
  record : x.telemetry.records[i]? = some r
  held : 0 < x.holdersOf i
  telemetry : y.telemetry = x.telemetry.update i r' ends
  ended : r'.ended = (r.ended || ends)
  fresh : ends = true → r.ended = false
  data : r.ended = true → r'.data = r.data
  holders : r'.holders = y.holdersOf i
  others : ∀ j, j ≠ i → y.holdersOf j = x.holdersOf j
  alive : r'.ended = false → 0 < r'.holders
  /-- A span ends as it is told to, or as its last holder goes. -/
  cause : ends = true → c.Ends i ∨ y.holdersOf i = 0
  told : ∀ j, c.Ends j → j = i ∧ r'.ended = true

/-- All that a call can do. -/
inductive Effect (x : Account) (c : SpanCall) (y : Account) : Prop
  | quiet (records : y.telemetry.records = x.telemetry.records)
      (exports : y.telemetry.exports = x.telemetry.exports)
      (holders : ∀ i, y.holdersOf i = x.holdersOf i) (told : ∀ i, ¬ c.Ends i)
  | start {r : SpanRecord} (records : y.telemetry.records = x.telemetry.records ++ [r])
      (exports : y.telemetry.exports = x.telemetry.exports) (ended : r.ended = false)
      (one : r.holders = 1)
      (holders : ∀ i, y.holdersOf i =
        x.holdersOf i + if i = x.telemetry.records.length then 1 else 0)
      (told : ∀ i, ¬ c.Ends i)
  | change {i : Nat} {r r' : SpanRecord} {ends : Bool} (h : Change x c y i r r' ends)

theorem holdersOf_cons (t : Telemetry) (c : Context) (held : Multiset Context) (i : Nat) :
    holdersOf ⟨t, c ::ₘ held⟩ i = holdersOf ⟨t, held⟩ i + if c.record = some i then 1 else 0 :=
  Multiset.countP_cons _ _ _

variable {x y : Account} {c : SpanCall} {i : Nat}

theorem holdersOf_erase {cx : Context} (hc : cx ∈ x.held) (i : Nat) :
    x.holdersOf i = holdersOf ⟨x.telemetry, x.held.erase cx⟩ i +
      if cx.record = some i then 1 else 0 := by
  rw [← holdersOf_cons, Multiset.cons_erase hc]

theorem holdersOf_pos {cx : Context} (hc : cx ∈ x.held) (hi : cx.record = some i) :
    0 < x.holdersOf i :=
  Multiset.countP_pos.mpr ⟨cx, hc, hi⟩

theorem Balanced.exists_record (hx : x.Balanced) (h : 0 < x.holdersOf i) :
    ∃ r, x.telemetry.records[i]? = some r :=
  ⟨_, List.getElem?_eq_getElem (hx.known i h)⟩

theorem start_effect (x : Account) (p : Provider) (parent : Context) (name : String)
    (attributes : List Attribute) : Effect x (.start p parent name attributes)
      (SpanCall.apply x (.start p parent name attributes)) := by
  have htold : ∀ i, ¬ SpanCall.Ends (.start p parent name attributes) i := fun i h => by
    obtain ⟨_, h, -⟩ := h
    cases h
  have hcount := holdersOf_cons (x.telemetry.start p parent name attributes).2
    (x.telemetry.start p parent name attributes).1 x.held
  obtain ⟨n, ⟨hnone, ht⟩ | ⟨r, hopen, hone, hlast, ht⟩⟩ :=
    x.telemetry.start_cases p parent name attributes
  · rw [hnone] at hcount
    exact .quiet (congrArg Telemetry.records ht :) (congrArg Telemetry.exports ht :) hcount htold
  · rw [hlast] at hcount
    simp only [Option.some.injEq, eq_comm (a := x.telemetry.records.length)] at hcount
    exact .start (congrArg Telemetry.records ht :) (congrArg Telemetry.exports ht :) hopen hone
      hcount htold

theorem Balanced.edit_effect (hx : x.Balanced) {cx : Context} (hc : cx ∈ x.held) (e : SpanEdit) :
    Effect x (.edit cx e) (SpanCall.apply x (.edit cx e)) := by
  cases hi : cx.record with
  | none =>
    have ht := Telemetry.edit_of_unrecorded hi x.telemetry e
    refine .quiet (congrArg Telemetry.records ht) (congrArg Telemetry.exports ht) (fun _ => rfl) ?_
    rintro i ⟨_, h, hj⟩
    cases h
    rw [hi] at hj
    cases hj
  | some i =>
    have hheld := holdersOf_pos hc hi
    obtain ⟨r, hr⟩ := hx.exists_record hheld
    have hended : (r.edited [e]).ended = (r.ended || decide (r.ended = false ∧ e = .finish)) := by
      rw [SpanRecord.ended_edited]
      cases r.ended <;> simp [eq_comm]
    refine .change ⟨hr, hheld, Telemetry.edit_eq_update hi hr e, hended,
      fun h => (of_decide_eq_true h).1, fun h => ?_, ?_, fun _ _ => rfl, fun h => ?_, fun h => ?_, ?_⟩
    · rw [SpanRecord.edited_of_ended h]
    · rw [SpanRecord.holders_edited]
      exact hx.holders i r hr
    · rw [hended, Bool.or_eq_false_iff] at h
      rw [SpanRecord.holders_edited]
      exact hx.alive i r hr h.1
    · exact .inl ⟨cx, by rw [(of_decide_eq_true h).2], hi⟩
    · rintro j ⟨_, h, hj⟩
      cases h
      rw [hi] at hj
      exact ⟨(Option.some.inj hj).symm, by simp [SpanRecord.ended_edited]⟩

theorem Balanced.retain_effect (hx : x.Balanced) {cx : Context}
    (hc : cx ∈ x.held ∨ cx.record = none) :
    Effect x (.retain cx) (SpanCall.apply x (.retain cx)) := by
  have htold : ∀ i, ¬ SpanCall.Ends (.retain cx) i := fun i h => by
    obtain ⟨_, h, -⟩ := h
    cases h
  have hcount := holdersOf_cons (x.telemetry.retain cx) cx x.held
  cases hi : cx.record with
  | none =>
    have ht : x.telemetry.retain cx = x.telemetry := by simp [Telemetry.retain, hi]
    rw [hi] at hcount
    exact .quiet (congrArg Telemetry.records ht) (congrArg Telemetry.exports ht) hcount htold
  | some i =>
    have hheld := holdersOf_pos (hc.resolve_right (by simp [hi])) hi
    obtain ⟨r, hr⟩ := hx.exists_record hheld
    rw [hi] at hcount
    refine .change ⟨hr, hheld, Telemetry.retain_eq_update hi hr, (Bool.or_false _).symm, nofun,
      fun _ => rfl, ?_, fun j hj => ?_, fun _ => Nat.succ_pos _, nofun, fun j h => (htold j h).elim⟩
    · refine Eq.trans ?_ (hcount i).symm
      rw [if_pos rfl]
      exact congrArg (· + 1) (hx.holders i r hr)
    · refine (hcount j).trans ?_
      rw [if_neg fun h => hj (Option.some.inj h).symm]
      rfl

theorem Balanced.release_effect (hx : x.Balanced) {cx : Context} (hc : cx ∈ x.held) :
    Effect x (.release cx) (SpanCall.apply x (.release cx)) := by
  have htold : ∀ i, ¬ SpanCall.Ends (.release cx) i := fun i h => by
    obtain ⟨_, h, -⟩ := h
    cases h
  have hcount := holdersOf_erase hc
  cases hi : cx.record with
  | none =>
    have ht := Telemetry.release_of_unrecorded hi x.telemetry
    rw [hi] at hcount
    exact .quiet (congrArg Telemetry.records ht) (congrArg Telemetry.exports ht)
      (fun i => (hcount i).symm) htold
  | some i =>
    have hheld := holdersOf_pos hc hi
    obtain ⟨r, hr⟩ := hx.exists_record hheld
    rw [hi] at hcount
    have hholders : r.holders - 1 = holdersOf ⟨x.telemetry, x.held.erase cx⟩ i := by
      rw [hx.holders i r hr, hcount, if_pos rfl, Nat.add_sub_cancel]
    refine .change ⟨hr, hheld, Telemetry.release_eq_update hi hr, ?_, fun h => ?_, fun h => ?_,
      hholders, fun j hj => ?_, fun h => ?_, fun h => .inr ?_, fun j h => (htold j h).elim⟩
    · cases r.ended <;> rfl
    · simpa using (Bool.and_eq_true_iff.mp h).1
    · simp [SpanRecord.data, h]
    · have hj' := hcount j
      rw [if_neg fun h => hj (Option.some.inj h).symm, Nat.add_zero] at hj'
      exact hj'.symm
    · exact Nat.pos_of_ne_zero (by simpa using (Bool.or_eq_false_iff.mp h).2)
    · exact hholders.symm.trans (by simpa using (Bool.and_eq_true_iff.mp h).2)

theorem Balanced.effect (hx : x.Balanced) (hc : c.Permitted x.held) : Effect x c (c.apply x) := by
  cases c with
  | start p parent name attributes => exact start_effect x p parent name attributes
  | edit cx e => exact hx.edit_effect hc e
  | retain cx => exact hx.retain_effect hc
  | release cx => exact hx.release_effect hc
  | setGlobal p => exact .quiet rfl rfl (fun _ => rfl) fun i ⟨_, h, _⟩ => by cases h

section Change
variable {r r' : SpanRecord} {ends : Bool}

theorem Change.records_self (h : Change x c y i r r' ends) :
    y.telemetry.records[i]? = some r' := by
  have hlt := (List.getElem?_eq_some_iff.mp h.record).1
  simp [h.telemetry, Telemetry.update, hlt]

theorem Change.records_other (h : Change x c y i r r' ends) {j : Nat} (hj : j ≠ i) :
    y.telemetry.records[j]? = x.telemetry.records[j]? := by
  simp [h.telemetry, Telemetry.update, List.getElem?_set_ne (Ne.symm hj)]

theorem Change.mem_exports (h : Change x c y i r r' ends) (j : Nat) :
    j ∈ y.telemetry.exports ↔ j ∈ x.telemetry.exports ∨ ends = true ∧ j = i := by
  rw [h.telemetry, Telemetry.update]
  cases ends <;> simp

theorem Change.balanced (h : Change x c y i r r' ends) (hx : x.Balanced) : y.Balanced := by
  have hnew : ends = true → i ∉ x.telemetry.exports := by
    intro he hm
    obtain ⟨r₀, hr₀, hended⟩ := (hx.exported i).mp hm
    rw [h.record] at hr₀
    cases hr₀
    rw [h.fresh he] at hended
    cases hended
  refine ⟨?_, fun j => ?_, fun j s hs => ?_, fun j hj => ?_, fun j s hs hended => ?_⟩
  · rw [h.telemetry, Telemetry.update]
    cases ends with
    | false => exact hx.once
    | true =>
      have hne : ∀ j ∈ x.telemetry.exports, j ≠ i := fun j hj hji => hnew rfl (hji ▸ hj)
      exact List.nodup_append.mpr ⟨hx.once, by simp, by simpa using hne⟩
  · rw [h.mem_exports, hx.exported]
    by_cases hj : j = i
    · subst hj
      rw [h.records_self, h.record]
      simp [h.ended]
    · rw [h.records_other hj]
      simp [hj]
  · by_cases hj : j = i
    · subst hj
      rw [h.records_self] at hs
      cases hs
      exact h.holders
    · rw [h.records_other hj] at hs
      exact (hx.holders j s hs).trans (h.others j hj).symm
  · rw [h.telemetry, Telemetry.update, List.length_set]
    by_cases hji : j = i
    · subst hji
      exact hx.known j h.held
    · rw [h.others j hji] at hj
      exact hx.known j hj
  · by_cases hj : j = i
    · subst hj
      rw [h.records_self] at hs
      cases hs
      exact h.alive hended
    · rw [h.records_other hj] at hs
      exact hx.alive j s hs hended

end Change

theorem Effect.balanced (h : Effect x c y) (hx : x.Balanced) : y.Balanced := by
  cases h with
  | quiet hrecords hexports hholders _ =>
    refine ⟨hexports ▸ hx.once, fun i => ?_, fun i s hs => ?_, fun i hi => ?_, fun i s hs => ?_⟩
    · rw [hexports, hrecords]
      exact hx.exported i
    · rw [hrecords] at hs
      rw [hholders]
      exact hx.holders i s hs
    · rw [hrecords]
      exact hx.known i (hholders i ▸ hi)
    · rw [hrecords] at hs
      exact hx.alive i s hs
  | @start r hrecords hexports hopen hone hholders _ =>
    have hlast : x.holdersOf x.telemetry.records.length = 0 :=
      Nat.eq_zero_of_not_pos fun hpos => Nat.lt_irrefl _ (hx.known _ hpos)
    refine ⟨hexports ▸ hx.once, fun i => ?_, fun i s hs => ?_, fun i hi => ?_,
      fun i s hs hended => ?_⟩
    · rw [hexports, hx.exported, hrecords]
      simp only [getElem?_concat_eq_some]
      constructor
      · rintro ⟨s, hs, hended⟩
        exact ⟨s, .inl hs, hended⟩
      · rintro ⟨s, hs | ⟨-, rfl⟩, hended⟩
        · exact ⟨s, hs, hended⟩
        · rw [hopen] at hended
          cases hended
    · rw [hholders]
      rw [hrecords] at hs
      rcases getElem?_concat_eq_some.mp hs with hs | ⟨rfl, rfl⟩
      · have hlt := (List.getElem?_eq_some_iff.mp hs).1
        rw [if_neg (Nat.ne_of_lt hlt), Nat.add_zero]
        exact hx.holders i s hs
      · rw [if_pos rfl, hlast, hone]
    · rw [hholders] at hi
      rw [hrecords, List.length_append, List.length_singleton]
      by_cases hil : i = x.telemetry.records.length
      · omega
      · rw [if_neg hil, Nat.add_zero] at hi
        exact Nat.lt_succ_of_lt (hx.known i hi)
    · rw [hrecords] at hs
      rcases getElem?_concat_eq_some.mp hs with hs | ⟨-, rfl⟩
      · exact hx.alive i s hs hended
      · rw [hone]
        exact Nat.one_pos
  | change h => exact h.balanced hx

theorem Effect.length_records (h : Effect x c y) :
    x.telemetry.records.length ≤ y.telemetry.records.length := by
  cases h with
  | quiet hrecords _ _ _ => exact Nat.le_of_eq (by rw [hrecords])
  | start hrecords _ _ _ _ _ =>
    rw [hrecords, List.length_append]
    exact Nat.le_add_right _ _
  | change h => exact Nat.le_of_eq (by rw [h.telemetry, Telemetry.update, List.length_set])

/-- What becomes exported has just been told to end, or is not held any more. -/
theorem Effect.exports (h : Effect x c y) :
    ∃ new, y.telemetry.exports = x.telemetry.exports ++ new ∧
      ∀ i ∈ new, c.Ends i ∨ y.holdersOf i = 0 := by
  cases h with
  | quiet _ hexports _ _ => exact ⟨[], by rw [hexports, List.append_nil], nofun⟩
  | start _ hexports _ _ _ _ => exact ⟨[], by rw [hexports, List.append_nil], nofun⟩
  | @change i r r' ends h =>
    cases ends with
    | false => exact ⟨[], by simp [h.telemetry, Telemetry.update], nofun⟩
    | true =>
      refine ⟨[i], by simp [h.telemetry, Telemetry.update], fun j hj => ?_⟩
      rw [List.mem_singleton.mp hj]
      exact h.cause rfl

/-- A span that is told to end is exported at the latest then. -/
theorem Effect.mem_exports (h : Effect x c y) (hx : x.Balanced) (hends : c.Ends i) :
    i ∈ y.telemetry.exports := by
  cases id h with
  | quiet _ _ _ htold => exact (htold i hends).elim
  | start _ _ _ _ _ htold => exact (htold i hends).elim
  | change h' =>
    obtain ⟨rfl, hended⟩ := h'.told i hends
    exact ((h.balanced hx).exported i).mpr ⟨_, h'.records_self, hended⟩

/-- A recorded span that nobody holds is never held again. -/
theorem Effect.holdersOf_eq_zero (h : Effect x c y) (hi : i < x.telemetry.records.length)
    (hzero : x.holdersOf i = 0) : y.holdersOf i = 0 := by
  cases h with
  | quiet _ _ hholders _ => rw [hholders, hzero]
  | start _ _ _ _ hholders _ => rw [hholders, hzero, if_neg (Nat.ne_of_lt hi)]
  | @change j _ _ _ h =>
    have hne : i ≠ j := by
      rintro rfl
      exact Nat.lt_irrefl 0 (hzero ▸ h.held)
    rw [h.others i hne, hzero]

theorem Effect.data (h : Effect x c y) (hx : x.Balanced) (hi : i ∈ x.telemetry.exports) :
    (y.telemetry.records[i]?).map SpanRecord.data =
      (x.telemetry.records[i]?).map SpanRecord.data := by
  obtain ⟨s, hs, hended⟩ := (hx.exported i).mp hi
  cases h with
  | quiet hrecords _ _ _ => rw [hrecords]
  | start hrecords _ _ _ _ _ =>
    rw [hrecords, List.getElem?_append_left (List.getElem?_eq_some_iff.mp hs).1]
  | @change j _ _ _ h =>
    by_cases hij : i = j
    · subst hij
      rw [h.record] at hs
      cases hs
      rw [h.records_self, h.record, Option.map_some, Option.map_some, h.data hended]
    · rw [h.records_other hij]

end Account

end DatabaseTracing
