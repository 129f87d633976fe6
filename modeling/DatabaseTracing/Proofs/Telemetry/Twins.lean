import DatabaseTracing.Proofs.Telemetry.Exports
import Mathlib.Data.Option.Basic

/-! # Spans under other identifiers

Two stores may record the same span at different places and under different
identifiers. Such twins stay twins when they are edited in the same way, end together,
and lose their last holders together; and they are started under parents that agree but
for their identifiers.
-/
namespace DatabaseTracing

theorem optionRel_mono {α β : Type} {R S : α → β → Prop} {a : Option α} {b : Option β}
    (h : Option.Rel R a b) (hRS : ∀ x ∈ a, ∀ y ∈ b, R x y → S x y) : Option.Rel S a b := by
  rcases h with h | _
  · exact .some (hRS _ rfl _ rfl h)
  · exact .none

theorem optionRel_isSome {α β : Type} {R : α → β → Prop} {a : Option α} {b : Option β}
    (h : Option.Rel R a b) : a.isSome = b.isSome := by
  rcases h with _ | _ <;> rfl

namespace SpanRecord
variable {P : Ident → Ident → Prop} {r r' : SpanRecord}

/-- What a span tells, whatever its identifiers and its holders are. -/
def body (r : SpanRecord) : SpanRecord := { r with context := .zero, parent := .zero, holders := 0 }

theorem body_apply (r : SpanRecord) (e : SpanEdit) : (r.apply e).body = r.body.apply e := by
  cases e <;> rfl

theorem body_edited (r : SpanRecord) (es : List SpanEdit) :
    (r.edited es).body = r.body.edited es := by
  induction es generalizing r with
  | nil => rfl
  | cons e es ih =>
    cases hr : r.ended with
    | true => rw [edited_of_ended hr, edited_of_ended (r := r.body) hr]
    | false => rw [edited_cons hr, edited_cons (r := r.body) hr, ih, body_apply]

/-- The span without the identifiers that were made for it. -/
def content (r : SpanRecord) : SpanRecord := { r.body with parent := r.parent }

/-- The spans are the same but for their identifiers, and `P` relates those of their parents. -/
structure Twin (P : Ident → Ident → Prop) (r r' : SpanRecord) : Prop where
  body : r.body = r'.body
  sampled : r.context.sampled = r'.context.sampled
  parent : P r.parent r'.parent
  holders : r.holders = r'.holders

theorem Twin.refl {r : SpanRecord} (h : P r.parent r.parent) : Twin P r r := ⟨rfl, rfl, h, rfl⟩

theorem Twin.mono (h : Twin P r r') {Q : Ident → Ident → Prop} (hPQ : ∀ a b, P a b → Q a b) :
    Twin Q r r' :=
  ⟨h.body, h.sampled, hPQ _ _ h.parent, h.holders⟩

theorem Twin.content (h : Twin Eq r r') : r.content = r'.content := by
  rw [SpanRecord.content, SpanRecord.content, h.body, h.parent]

theorem Twin.ended (h : Twin P r r') : r.ended = r'.ended := congrArg (·.ended) h.body

theorem Twin.edited (h : Twin P r r') (es : List SpanEdit) :
    Twin P (r.edited es) (r'.edited es) where
  body := by rw [body_edited, body_edited, h.body]
  sampled := by rw [r.birth_edited es, r'.birth_edited es, h.sampled]
  parent := by
    rw [r.birth_edited es, r'.birth_edited es]
    exact h.parent
  holders := by rw [holders_edited, holders_edited, h.holders]

theorem Twin.holds (h : Twin P r r') (f : Nat → Nat) :
    Twin P { r with holders := f r.holders } { r' with holders := f r'.holders } :=
  ⟨h.body, h.sampled, h.parent, congrArg f h.holders⟩

/-- One holder has let go, and that ends the span if it was the last one. -/
def released (r : SpanRecord) : SpanRecord :=
  { r with holders := r.holders - 1, ended := r.ended || r.holders - 1 == 0 }

def endsReleased (r : SpanRecord) : Bool := !r.ended && r.holders - 1 == 0

theorem Twin.released (h : Twin P r r') : Twin P r.released r'.released where
  body := by
    have hbody := congrArg
      (fun s : SpanRecord => { s with ended := s.ended || r.holders - 1 == 0 }) h.body
    simpa only [SpanRecord.released, SpanRecord.body, h.holders] using hbody
  sampled := h.sampled
  parent := h.parent
  holders := congrArg (· - 1) h.holders

theorem Twin.endsReleased (h : Twin P r r') : r.endsReleased = r'.endsReleased := by
  rw [SpanRecord.endsReleased, SpanRecord.endsReleased, h.ended, h.holders]

end SpanRecord

/-- The contexts agree but for their identifiers, and `P` relates those of their active spans. -/
def Context.Agree (P : Ident → Ident → Prop) (c c' : Context) : Prop :=
  Option.Rel (fun a b => a.context.sampled = b.context.sampled ∧ P a.context.span b.context.span)
    c.active c'.active

theorem Context.Agree.refl {P : Ident → Ident → Prop} (h : ∀ a, P a a) (c : Context) :
    c.Agree P c := by
  rcases c with ⟨_ | a⟩
  · exact .none
  · exact .some ⟨rfl, h _⟩

namespace Telemetry
variable {P : Ident → Ident → Prop} {t t' u u' : Telemetry} {c c' : Context} {p q : Nat}
  {r r' : SpanRecord} {ends : Bool}

/-- What stands at the two places are twins. -/
def TwinsAt (P : Ident → Ident → Prop) (t t' : Telemetry) (p q : Nat) : Prop :=
  ∃ r r', t.records[p]? = some r ∧ t'.records[q]? = some r' ∧ r.Twin P r'

/-- The contexts carry twins, or no recorded span. -/
def Carry (P : Ident → Ident → Prop) (t t' : Telemetry) (c c' : Context) : Prop :=
  Option.Rel (TwinsAt P t t') c.record c'.record

theorem Carry.cases (h : Carry P t t' c c') : (c.record = none ∧ c'.record = none) ∨
    ∃ p q r r', c.record = some p ∧ c'.record = some q ∧ t.records[p]? = some r ∧
      t'.records[q]? = some r' ∧ r.Twin P r' := by
  unfold Carry at h
  cases hc : c.record <;> cases hc' : c'.record <;> rw [hc, hc'] at h <;> cases h
  · exact .inl ⟨rfl, rfl⟩
  · rename_i p q hpq
    obtain ⟨r, r', hr, hr', htwin⟩ := hpq
    exact .inr ⟨p, q, r, r', rfl, rfl, hr, hr', htwin⟩

theorem Carry.mono {Q : Ident → Ident → Prop} (h : Carry P t t' c c')
    (htwins : ∀ m ∈ c.record, ∀ n ∈ c'.record, TwinsAt P t t' m n → TwinsAt Q u u' m n) :
    Carry Q u u' c c' :=
  optionRel_mono h htwins

theorem TwinsAt.lt (h : TwinsAt P t t' p q) : p < t.records.length ∧ q < t'.records.length := by
  obtain ⟨r, r', hr, hr', -⟩ := h
  exact ⟨(List.getElem?_eq_some_iff.mp hr).1, (List.getElem?_eq_some_iff.mp hr').1⟩

theorem Carry.ne_length (h : Carry P t t' c c') :
    c.record ≠ some t.records.length ∧ c'.record ≠ some t'.records.length := by
  rcases h.cases with ⟨hc, hc'⟩ | ⟨p, q, r, r', hc, hc', hr, hr', htwin⟩
  · simp [hc, hc']
  · have hlt := TwinsAt.lt ⟨r, r', hr, hr', htwin⟩
    simp [hc, hc', Nat.ne_of_lt hlt.1, Nat.ne_of_lt hlt.2]

/-- The stores become others at the places of twins, which stay twins. -/
structure Update (P : Ident → Ident → Prop) (t t' u u' : Telemetry) (p q : Nat) (r r' : SpanRecord)
    (ends : Bool) : Prop where
  left : u = t.update p r ends
  right : u' = t'.update q r' ends
  twin : r.Twin P r'

theorem editAll_twins (hc : c.record = some p) (hc' : c'.record = some q)
    (hr : t.records[p]? = some r) (hr' : t'.records[q]? = some r') (h : r.Twin P r')
    (es : List SpanEdit) : ∃ ends, Update P t t' (t.editAll c es) (t'.editAll c' es) p q
      (r.edited es) (r'.edited es) ends :=
  ⟨_, editAll_eq_update hc hr es, h.ended ▸ editAll_eq_update hc' hr' es, h.edited es⟩

theorem close_twins (hc : c.record = some p) (hc' : c'.record = some q)
    (hr : t.records[p]? = some r) (hr' : t'.records[q]? = some r') (h : r.Twin P r')
    {es : List SpanEdit} (hes : .finish ∈ es) :
    Update P t t' ((t.editAll c es).release c) ((t'.editAll c' es).release c') p q
      { r.edited es with holders := r.holders - 1 }
      { r'.edited es with holders := r'.holders - 1 } (!r.ended) where
  left := close_eq_update hc hr hes
  right := h.ended ▸ close_eq_update hc' hr' hes
  twin := ⟨(h.edited es).body, (h.edited es).sampled, (h.edited es).parent,
    congrArg (· - 1) h.holders⟩

theorem release_twins (hc : c.record = some p) (hc' : c'.record = some q)
    (hr : t.records[p]? = some r) (hr' : t'.records[q]? = some r') (h : r.Twin P r') :
    Update P t t' (t.release c) (t'.release c') p q r.released r'.released r.endsReleased :=
  ⟨release_eq_update hc hr, h.endsReleased ▸ release_eq_update hc' hr', h.released⟩

theorem retain_twins (hc : c.record = some p) (hc' : c'.record = some q)
    (hr : t.records[p]? = some r) (hr' : t'.records[q]? = some r') (h : r.Twin P r') :
    Update P t t' (t.retain c) (t'.retain c') p q { r with holders := r.holders + 1 }
      { r' with holders := r'.holders + 1 } false :=
  ⟨retain_eq_update hc hr, retain_eq_update hc' hr', h.holds (· + 1)⟩

theorem Update.twinsAt (h : Update P t t' u u' p q r r' ends) (hpq : TwinsAt P t t' p q) :
    TwinsAt P u u' p q := by
  obtain ⟨s, s', hs, hs', -⟩ := hpq
  exact ⟨r, r', h.left ▸ records_update_self hs r ends, h.right ▸ records_update_self hs' r' ends,
    h.twin⟩

theorem Update.twinsAt_ne (h : Update P t t' u u' p q r r' ends) {m n : Nat} (hm : m ≠ p)
    (hn : n ≠ q) (hmn : TwinsAt P t t' m n) : TwinsAt P u u' m n := by
  rwa [TwinsAt, h.left, h.right, records_update_ne hm, records_update_ne hn]

theorem Update.content_exportedSince (h : Update Eq t t' u u' p q r r' ends)
    (hpq : TwinsAt Eq t t' p q) :
    (t.exportedSince u).map SpanRecord.content = (t'.exportedSince u').map SpanRecord.content := by
  obtain ⟨s, s', hs, hs', -⟩ := hpq
  rw [h.left, h.right, exportedSince_update hs, exportedSince_update hs']
  cases ends <;> simp [h.twin.content]

/-- Both starts record a span, and these are twins, or neither does. -/
inductive Started (P : Ident → Ident → Prop) (t t' : Telemetry) (a a' : ActiveSpan)
    (u u' : Telemetry) : Prop
  | silent {n n' : Nat} (left : a.record = none) (right : a'.record = none)
      (store : u = { t with nextIdent := n }) (store' : u' = { t' with nextIdent := n' })
  | recorded {n n' : Nat} {r r' : SpanRecord} (left : a.record = some t.records.length)
      (right : a'.record = some t'.records.length)
      (store : u = { t with records := t.records ++ [r], nextIdent := n })
      (store' : u' = { t' with records := t'.records ++ [r'], nextIdent := n' })
      (twin : r.Twin P r')

theorem Started.exports {a a' : ActiveSpan} (h : Started P t t' a a' u u') :
    u.exports = t.exports ∧ u'.exports = t'.exports := by
  cases h with
  | silent _ _ hu hu' => exact ⟨hu ▸ rfl, hu' ▸ rfl⟩
  | recorded _ _ hu hu' _ => exact ⟨hu ▸ rfl, hu' ▸ rfl⟩

theorem Started.length {a a' : ActiveSpan} (h : Started P t t' a a' u u') :
    t.records.length ≤ u.records.length ∧ t'.records.length ≤ u'.records.length := by
  cases h with
  | silent _ _ hu hu' => exact ⟨hu ▸ Nat.le_refl _, hu' ▸ Nat.le_refl _⟩
  | recorded _ _ hu hu' _ => simp [hu, hu']

/-- A recorded span stands behind all others. -/
theorem Started.place {a a' : ActiveSpan} (h : Started P t t' a a' u u') :
    (∀ m ∈ a.record, m = t.records.length) ∧ ∀ n ∈ a'.record, n = t'.records.length := by
  cases h with
  | silent left right _ _ => simp [left, right]
  | recorded left right _ _ _ => simp [left, right]

/-- What has been recorded before stays where it is. -/
theorem Started.twinsAt {a a' : ActiveSpan} (h : Started P t t' a a' u u')
    (hpq : TwinsAt P t t' p q) : TwinsAt P u u' p q := by
  obtain ⟨r, r', hr, hr', htwin⟩ := hpq
  cases h with
  | silent _ _ hu hu' => exact ⟨r, r', hu ▸ hr, hu' ▸ hr', htwin⟩
  | recorded _ _ hu hu' _ =>
    subst hu hu'
    exact ⟨r, r', (List.getElem?_append_left (List.getElem?_eq_some_iff.mp hr).1).trans hr,
      (List.getElem?_append_left (List.getElem?_eq_some_iff.mp hr').1).trans hr', htwin⟩

/-- The new span is in neither store one of those before. -/
theorem Started.new {a a' : ActiveSpan} (h : Started P t t' a a' u u') :
    Option.Rel (fun m n => m = t.records.length ∧ n = t'.records.length ∧ TwinsAt P u u' m n)
      a.record a'.record := by
  cases h with
  | silent left right _ _ =>
    rw [left, right]
    exact .none
  | @recorded _ _ r r' left right hu hu' twin =>
    rw [left, right]
    subst hu hu'
    exact .some ⟨rfl, rfl, r, r', by simp, by simp, twin⟩

/-- Starts by one provider under parents that agree. -/
theorem start_twins (hP : P .zero .zero) (h : c.Agree P c') (t t' : Telemetry) (p : Provider)
    (name : String) (attributes : List Attribute) :
    ∃ a a', (t.start p c name attributes).1 = ⟨some a⟩ ∧
      (t'.start p c' name attributes).1 = ⟨some a'⟩ ∧
        a.context.sampled = a'.context.sampled ∧
          Started P t t' a a' (t.start p c name attributes).2 (t'.start p c' name attributes).2 := by
  rcases c with ⟨x⟩
  rcases c' with ⟨x'⟩
  rcases h with ⟨hsampled, hspan⟩ | _
  · rename_i a b
    cases p with
    | noop => exact ⟨_, _, rfl, rfl, hsampled, .silent rfl rfl rfl rfl⟩
    | recording label =>
      cases hs : a.context.sampled with
      | false =>
        have hs' := hsampled.symm.trans hs
        simp only [start, Option.map_some, hs, hs', Bool.false_eq_true, if_false]
        exact ⟨_, _, rfl, rfl, rfl, .silent rfl rfl rfl rfl⟩
      | true =>
        have hs' := hsampled.symm.trans hs
        simp only [start, Option.map_some, hs, hs', if_true]
        exact ⟨_, _, rfl, rfl, rfl, .recorded rfl rfl rfl rfl ⟨rfl, rfl, hspan, rfl⟩⟩
  · cases p with
    | noop => exact ⟨_, _, rfl, rfl, rfl, .silent rfl rfl rfl rfl⟩
    | recording label => exact ⟨_, _, rfl, rfl, rfl, .recorded rfl rfl rfl rfl ⟨rfl, rfl, hP, rfl⟩⟩

end Telemetry
end DatabaseTracing
