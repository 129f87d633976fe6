import DatabaseTracing.Proofs.Telemetry.Origins
import DatabaseTracing.Proofs.Telemetry.Twins

/-! # Spans in common

Two stores have some spans in common, each store beside spans of its own. A list of pairs
tells which: the contexts of a pair carry the same span, the first one in the first store.
The spans in common are twins, and have been exported in the same order. That remains so
if both stores are worked on by the contexts of a pair, or each one by contexts that carry
none of these spans; and a start under contexts that go together adds a pair.
-/
namespace DatabaseTracing.Telemetry
variable {pairs pairs' : List (Context × Context)} {own : List Context} {t t' u u' v : Telemetry}
  {c c' : Context} {p q : Nat}

/-! ### Pairs of spans -/

/-- The spans recorded at the two places are a pair. -/
def Paired (pairs : List (Context × Context)) (p q : Nat) : Prop :=
  ∃ e ∈ pairs, e.1.record = some p ∧ e.2.record = some q

/-- The identifiers are those of a pair, or both are the same one from elsewhere. -/
def SameIdent (pairs : List (Context × Context)) (a b : Ident) : Prop :=
  (a = b ∧ ∀ n, a ≠ .fresh n) ∨ ∃ e ∈ pairs, e.1.spanIdent = a ∧ e.2.spanIdent = b

/-- The contexts carry a pair, or no recorded spans. -/
structure Linked (pairs : List (Context × Context)) (c c' : Context) : Prop where
  agree : c.Agree (SameIdent pairs) c'
  record : Option.Rel (Paired pairs) c.record c'.record

theorem Paired.mono (h : Paired pairs p q) (hsub : ∀ e ∈ pairs, e ∈ pairs') :
    Paired pairs' p q := by
  obtain ⟨e, he, hpq⟩ := h
  exact ⟨e, hsub e he, hpq⟩

theorem SameIdent.mono {a b : Ident} (h : SameIdent pairs a b) (hsub : ∀ e ∈ pairs, e ∈ pairs') :
    SameIdent pairs' a b :=
  h.imp_right fun ⟨e, he, hab⟩ => ⟨e, hsub e he, hab⟩

theorem Linked.mono (h : Linked pairs c c') (hsub : ∀ e ∈ pairs, e ∈ pairs') :
    Linked pairs' c c' :=
  ⟨optionRel_mono h.agree fun _ _ _ _ hab => ⟨hab.1, hab.2.mono hsub⟩,
    optionRel_mono h.record fun _ _ _ _ hpq => hpq.mono hsub⟩

theorem TwinsAt.more (h : TwinsAt (SameIdent pairs) t t' p q) (hsub : ∀ e ∈ pairs, e ∈ pairs') :
    TwinsAt (SameIdent pairs') t t' p q := by
  obtain ⟨r, r', hr, hr', htwin⟩ := h
  exact ⟨r, r', hr, hr', htwin.mono fun _ _ hab => hab.mono hsub⟩

theorem paired_concat :
    Paired (pairs ++ [(c, c')]) p q ↔
      Paired pairs p q ∨ (c.record = some p ∧ c'.record = some q) := by
  simp [Paired, or_and_right, exists_or]

/-! ### One of the stores -/

/-- One of the contexts carries the span recorded there. -/
def owned (own : List Context) (p : Nat) : Bool := own.any fun c => c.record == some p

theorem owned_iff : owned own p = true ↔ ∃ c ∈ own, c.record = some p := by
  simp [owned]

/-- Where the exported spans of these contexts are recorded, in order of their end. -/
def exportedOf (own : List Context) (t : Telemetry) : List Nat := t.exports.filter (owned own)

theorem exportedOf_update (own : List Context) (t : Telemetry) (p : Nat) (r : SpanRecord)
    (ends : Bool) : (t.update p r ends).exportedOf own =
      t.exportedOf own ++ if ends && owned own p then [p] else [] := by
  cases ends <;> cases hp : owned own p <;> simp [exportedOf, update, hp]

/-- Every exported span is one of the recorded ones. -/
def Known (t : Telemetry) : Prop := ∀ p ∈ t.exports, p < t.records.length

theorem Known.update (ht : t.Known) (hp : p < t.records.length) (r : SpanRecord) (ends : Bool) :
    (t.update p r ends).Known := by
  intro m hm
  rw [length_records_update]
  cases ends with
  | false => exact ht m hm
  | true =>
    rcases List.mem_append.mp hm with hm | hm
    · exact ht m hm
    · exact List.mem_singleton.mp hm ▸ hp

theorem Known.of_exports_eq (ht : t.Known) (hexports : u.exports = t.exports)
    (hlength : t.records.length ≤ u.records.length) : u.Known :=
  fun p hp => Nat.lt_of_lt_of_le (ht p (hexports ▸ hp)) hlength

/-- Nothing has been exported of a span that is recorded behind all others. -/
theorem Known.exportedOf_concat (ht : t.Known) (hexports : u.exports = t.exports)
    (hc : ∀ p ∈ c.record, p = t.records.length) :
    u.exportedOf (own ++ [c]) = t.exportedOf own := by
  rw [exportedOf, hexports]
  refine List.filter_congr fun p hp => ?_
  have hne : c.record ≠ some p := fun h => Nat.ne_of_lt (ht p hp) (hc p h)
  simp [owned, hne]

/-- Something is done to the store that leaves alone the spans of these contexts. -/
structure Beside (own : List Context) (t u : Telemetry) : Prop where
  records : ∀ p, owned own p = true → u.records[p]? = t.records[p]?
  exports : u.exportedOf own = t.exportedOf own
  length : t.records.length ≤ u.records.length
  known : t.Known → u.Known

theorem Beside.refl (own : List Context) (t : Telemetry) : Beside own t t :=
  ⟨fun _ _ => rfl, rfl, Nat.le_refl _, fun h => h⟩

/-- The context carries another span of the store than those, if a recorded one. -/
def Foreign (own : List Context) (t : Telemetry) (c : Context) : Prop :=
  ∀ p ∈ c.record, owned own p = false ∧ p < t.records.length

theorem Touch.beside (h : Touch t c.record u) (hc : Foreign own t c) : Beside own t u := by
  have hlength := h.keeps.2.1
  cases h with
  | nothing => exact .refl own t
  | @update p r r' ends hp hr _ _ =>
    obtain ⟨hown, hlt⟩ := hc p hp
    refine ⟨fun m hm => records_update_ne ?_ t r' ends, ?_, Nat.le_of_eq hlength.symm,
      fun h => h.update hlt r' ends⟩
    · rintro rfl
      rw [hown] at hm
      cases hm
    · rw [exportedOf_update, hown, Bool.and_false]
      exact List.append_nil _

theorem setGlobal_beside (own : List Context) (t : Telemetry) (provider : Provider) :
    Beside own t (t.setGlobal provider) :=
  ⟨fun _ _ => rfl, rfl, Nat.le_refl _, fun h => h⟩

theorem start_beside (hown : ∀ p, owned own p = true → p < t.records.length) (provider : Provider)
    (parent : Context) (name : String) (attributes : List Attribute) :
    let started := t.start provider parent name attributes
    Beside own t started.2 ∧ Foreign own started.2 started.1 := by
  intro started
  obtain ⟨n, ⟨hnone, ht⟩ | ⟨r, -, -, hlast, ht⟩⟩ := t.start_cases provider parent name attributes
  · have hu : started.2 = { t with nextIdent := n } := ht
    rw [hu]
    exact ⟨⟨fun _ _ => rfl, rfl, Nat.le_refl _, fun h => h⟩, fun p hp => by rw [hnone] at hp; cases hp⟩
  · have hu : started.2 = { t with records := t.records ++ [r], nextIdent := n } := ht
    have hlength : t.records.length < (t.records ++ [r]).length := by simp
    rw [hu]
    refine ⟨⟨fun p hp => List.getElem?_append_left (hown p hp), rfl, Nat.le_of_lt hlength,
      fun h p hp => Nat.lt_trans (h p hp) hlength⟩, fun p hp => ?_⟩
    rw [hlast] at hp
    obtain rfl := Option.some.inj hp
    refine ⟨Bool.eq_false_iff.mpr fun h => Nat.lt_irrefl _ (hown _ h), hlength⟩

/-! ### Both stores -/

/-- The stores have the spans of the pairs in common. -/
structure Kin (pairs : List (Context × Context)) (t t' : Telemetry) : Prop where
  matched : ∀ e ∈ pairs, e.1.record.isSome = e.2.record.isSome
  once : ∀ p q m n, Paired pairs p q → Paired pairs m n → (p = m ↔ q = n)
  twins : ∀ p q, Paired pairs p q → TwinsAt (SameIdent pairs) t t' p q
  exports : List.Forall₂ (Paired pairs) (t.exportedOf (pairs.map Prod.fst))
    (t'.exportedOf (pairs.map Prod.snd))
  known : t.Known
  known' : t'.Known

theorem not_paired_nil (p q : Nat) : ¬ Paired [] p q := fun ⟨_, he, _⟩ => by cases he

theorem kin_nil (ht : t.Known) (ht' : t'.Known) : Kin [] t t' where
  matched _ he := by cases he
  once p q _ _ h := (not_paired_nil p q h).elim
  twins p q h := (not_paired_nil p q h).elim
  exports := by
    have hnone (t : Telemetry) : t.exportedOf [] = [] := by simp [exportedOf, owned]
    rw [List.map_nil, List.map_nil, hnone, hnone]
    exact .nil
  known := ht
  known' := ht'

theorem Kin.owned_left (h : Kin pairs t t') :
    owned (pairs.map Prod.fst) p = true ↔ ∃ q, Paired pairs p q := by
  rw [owned_iff]
  constructor
  · rintro ⟨c, hc, hp⟩
    obtain ⟨e, he, rfl⟩ := List.mem_map.mp hc
    obtain ⟨q, hq⟩ := Option.isSome_iff_exists.mp ((h.matched e he).symm.trans (by rw [hp]; rfl))
    exact ⟨q, e, he, hp, hq⟩
  · rintro ⟨q, e, he, hp, -⟩
    exact ⟨e.1, List.mem_map_of_mem he, hp⟩

theorem Kin.owned_right (h : Kin pairs t t') :
    owned (pairs.map Prod.snd) q = true ↔ ∃ p, Paired pairs p q := by
  rw [owned_iff]
  constructor
  · rintro ⟨c, hc, hq⟩
    obtain ⟨e, he, rfl⟩ := List.mem_map.mp hc
    obtain ⟨p, hp⟩ := Option.isSome_iff_exists.mp ((h.matched e he).trans (by rw [hq]; rfl))
    exact ⟨p, e, he, hp, hq⟩
  · rintro ⟨p, e, he, -, hq⟩
    exact ⟨e.2, List.mem_map_of_mem he, hq⟩

theorem Kin.owned_lt (h : Kin pairs t t') :
    (∀ p, owned (pairs.map Prod.fst) p = true → p < t.records.length) ∧
      ∀ q, owned (pairs.map Prod.snd) q = true → q < t'.records.length := by
  refine ⟨fun p hp => ?_, fun q hq => ?_⟩
  · obtain ⟨q, hpq⟩ := h.owned_left.mp hp
    exact (h.twins p q hpq).lt.1
  · obtain ⟨p, hpq⟩ := h.owned_right.mp hq
    exact (h.twins p q hpq).lt.2

/-- What is done to either store beside the spans in common does not matter. -/
theorem Kin.beside (h : Kin pairs t t') (hu : Beside (pairs.map Prod.fst) t u)
    (hu' : Beside (pairs.map Prod.snd) t' u') : Kin pairs u u' where
  matched := h.matched
  once := h.once
  twins p q hpq := by
    obtain ⟨r, r', hr, hr', htwin⟩ := h.twins p q hpq
    exact ⟨r, r', (hu.records p (h.owned_left.mpr ⟨q, hpq⟩)).trans hr,
      (hu'.records q (h.owned_right.mpr ⟨p, hpq⟩)).trans hr', htwin⟩
  exports := by
    rw [hu.exports, hu'.exports]
    exact h.exports
  known := hu.known h.known
  known' := hu'.known h.known'

/-- Twins are changed in the same way. -/
theorem Kin.update {r r' : SpanRecord} {ends : Bool} (h : Kin pairs t t') (hpq : Paired pairs p q)
    (hu : Update (SameIdent pairs) t t' u u' p q r r' ends) : Kin pairs u u' where
  matched := h.matched
  once := h.once
  twins m n hmn := by
    by_cases hm : m = p
    · obtain rfl := hm
      obtain rfl := (h.once _ _ _ _ hmn hpq).mp rfl
      exact hu.twinsAt (h.twins _ _ hpq)
    · have hn : n ≠ q := fun hn => hm ((h.once _ _ _ _ hmn hpq).mpr hn)
      exact hu.twinsAt_ne hm hn (h.twins m n hmn)
  exports := by
    have hp := h.owned_left.mpr ⟨q, hpq⟩
    have hq := h.owned_right.mpr ⟨p, hpq⟩
    rw [hu.left, hu.right, exportedOf_update, exportedOf_update, hp, hq]
    refine List.rel_append h.exports ?_
    cases ends
    · exact .nil
    · exact .cons hpq .nil
  known := hu.left ▸ h.known.update (h.twins p q hpq).lt.1 r ends
  known' := hu.right ▸ h.known'.update (h.twins p q hpq).lt.2 r' ends

/-- Where a start adds a pair, the spans of a pair are both old, or both stand at the end. -/
theorem Kin.paired_cases {a a' : ActiveSpan} (h : Kin pairs t t')
    (hs : Started (SameIdent pairs) t t' a a' u u')
    (hpq : Paired (pairs ++ [(⟨some a⟩, ⟨some a'⟩)]) p q) :
    (Paired pairs p q ∧ p < t.records.length ∧ q < t'.records.length) ∨
      (p = t.records.length ∧ q = t'.records.length ∧ TwinsAt (SameIdent pairs) u u' p q) := by
  rcases paired_concat.mp hpq with hold | ⟨hp, hq⟩
  · exact .inl ⟨hold, (h.twins p q hold).lt⟩
  · have hnew := hs.new
    have ha : a.record = some p := hp
    have ha' : a'.record = some q := hq
    rw [ha, ha'] at hnew
    obtain ⟨hnew⟩ := hnew
    exact .inr hnew

/-- A start under contexts that go together adds a pair. -/
theorem Kin.start {a a' : ActiveSpan} (h : Kin pairs t t')
    (hs : Started (SameIdent pairs) t t' a a' u u') :
    Kin (pairs ++ [(⟨some a⟩, ⟨some a'⟩)]) u u' where
  matched := List.forall_mem_append.mpr
    ⟨h.matched, List.forall_mem_singleton.mpr (optionRel_isSome hs.new)⟩
  once p q m n hpq hmn := by
    rcases h.paired_cases hs hpq with ⟨hold, hp, hq⟩ | ⟨hp, hq, -⟩ <;>
      rcases h.paired_cases hs hmn with ⟨hold', hm, hn⟩ | ⟨hm, hn, -⟩
    · exact h.once p q m n hold hold'
    all_goals omega
  twins p q hpq := by
    have hsub : ∀ e ∈ pairs, e ∈ pairs ++ [((⟨some a⟩, ⟨some a'⟩) : Context × Context)] :=
      fun e he => List.mem_append_left _ he
    rcases h.paired_cases hs hpq with ⟨hold, -⟩ | ⟨-, -, hnew⟩
    · exact (hs.twinsAt (h.twins p q hold)).more hsub
    · exact hnew.more hsub
  exports := by
    obtain ⟨hexports, hexports'⟩ := hs.exports
    obtain ⟨hplace, hplace'⟩ := hs.place
    rw [List.map_append, List.map_append, List.map_singleton, List.map_singleton,
      h.known.exportedOf_concat (c := ⟨some a⟩) hexports hplace,
      h.known'.exportedOf_concat (c := ⟨some a'⟩) hexports' hplace']
    exact h.exports.imp fun p q hpq => hpq.mono fun e he => List.mem_append_left _ he
  known := h.known.of_exports_eq hs.exports.1 hs.length.1
  known' := h.known'.of_exports_eq hs.exports.2 hs.length.2

/-! ### What is done by contexts -/

/-- From one state of the two stores to another pairs have been added, of spans that are recorded
behind all others. -/
structure Grown (pairs : List (Context × Context)) (t t' : Telemetry)
    (pairs' : List (Context × Context)) (u u' : Telemetry) : Prop where
  pairs : ∃ new, pairs' = pairs ++ new ∧ ∀ e ∈ new,
    (∀ p ∈ e.1.record, t.records.length ≤ p) ∧ ∀ q ∈ e.2.record, t'.records.length ≤ q
  length : t.records.length ≤ u.records.length
  length' : t'.records.length ≤ u'.records.length

theorem Grown.same (hlength : t.records.length ≤ u.records.length)
    (hlength' : t'.records.length ≤ u'.records.length) : Grown pairs t t' pairs u u' :=
  ⟨⟨[], (List.append_nil _).symm, by simp⟩, hlength, hlength'⟩

theorem Grown.trans {pairs'' : List (Context × Context)} {v' : Telemetry}
    (h : Grown pairs t t' pairs' u u') (h' : Grown pairs' u u' pairs'' v v') :
    Grown pairs t t' pairs'' v v' := by
  obtain ⟨⟨new, rfl, hnew⟩, hlength, hlength'⟩ := h
  obtain ⟨⟨more, rfl, hmore⟩, hlong, hlong'⟩ := h'
  refine ⟨⟨new ++ more, List.append_assoc .., List.forall_mem_append.mpr ⟨hnew, fun e he => ?_⟩⟩,
    Nat.le_trans hlength hlong, Nat.le_trans hlength' hlong'⟩
  exact ⟨fun p hp => Nat.le_trans hlength ((hmore e he).1 p hp),
    fun q hq => Nat.le_trans hlength' ((hmore e he).2 q hq)⟩

theorem Foreign.grown (h : Foreign own t c) (hlength : t.records.length ≤ u.records.length)
    {new : List Context} (hnew : ∀ d ∈ new, ∀ p ∈ d.record, t.records.length ≤ p) :
    Foreign (own ++ new) u c := by
  intro p hp
  obtain ⟨hown, hlt⟩ := h p hp
  refine ⟨?_, Nat.lt_of_lt_of_le hlt hlength⟩
  rw [owned, List.any_append, Bool.or_eq_false_iff]
  refine ⟨hown, Bool.eq_false_iff.mpr fun hp => ?_⟩
  obtain ⟨d, hd, hdp⟩ := owned_iff.mp hp
  exact Nat.not_lt_of_le (hnew d hd p hdp) hlt

/-- What a statement holds in either store: contexts that go together, unless they derive from spans
that the stores need not have in common. -/
structure Tie (pairs : List (Context × Context)) (t t' : Telemetry) (derived : Bool)
    (c c' : Option Context) : Prop where
  linked : derived = false → Option.Rel (Linked pairs) c c'
  foreign : derived = true → (∀ d ∈ c, Foreign (pairs.map Prod.fst) t d) ∧
    ∀ d ∈ c', Foreign (pairs.map Prod.snd) t' d

section Tie
variable {derived : Bool} {c c' : Option Context} {f : Telemetry → Context → Telemetry}

theorem Tie.grown (h : Tie pairs t t' derived c c') (hg : Grown pairs t t' pairs' u u') :
    Tie pairs' u u' derived c c' := by
  obtain ⟨⟨new, rfl, hnew⟩, hlength, hlength'⟩ := hg
  refine ⟨fun hd => ?_, fun hd => ?_⟩
  · exact optionRel_mono (h.linked hd) fun _ _ _ _ hlink =>
      hlink.mono fun e he => List.mem_append_left _ he
  · obtain ⟨hleft, hright⟩ := h.foreign hd
    rw [List.map_append, List.map_append]
    refine ⟨fun d hc => (hleft d hc).grown hlength ?_, fun d hc => (hright d hc).grown hlength' ?_⟩
    · exact List.forall_mem_map.mpr fun e he => (hnew e he).1
    · exact List.forall_mem_map.mpr fun e he => (hnew e he).2

/-- What is done to the span of a context does not go by the store: twins remain twins. -/
structure Evenhanded (f : Telemetry → Context → Telemetry) : Prop where
  touch : ∀ t c, (∀ p ∈ c.record, p < t.records.length) → Touch t c.record (f t c)
  twins : ∀ P t t' c c' p q r r', c.record = some p → c'.record = some q →
    t.records[p]? = some r → t'.records[q]? = some r' → r.Twin P r' →
      ∃ s s' ends, Update P t t' (f t c) (f t' c') p q s s' ends

theorem editAll_evenhanded (es : List SpanEdit) : Evenhanded fun t c => t.editAll c es where
  touch _ _ hc := editAll_touch hc es
  twins _ _ _ _ _ _ _ _ _ hc hc' hr hr' h := by
    obtain ⟨ends, hu⟩ := editAll_twins hc hc' hr hr' h es
    exact ⟨_, _, ends, hu⟩

theorem release_evenhanded : Evenhanded release where
  touch _ _ hc := release_touch hc
  twins _ _ _ _ _ _ _ _ _ hc hc' hr hr' h := ⟨_, _, _, release_twins hc hc' hr hr' h⟩

theorem retain_evenhanded : Evenhanded retain where
  touch _ _ hc := retain_touch hc
  twins _ _ _ _ _ _ _ _ _ hc hc' hr hr' h := ⟨_, _, _, retain_twins hc hc' hr hr' h⟩

theorem Evenhanded.beside (hf : Evenhanded f) (hc : ∀ d ∈ c, Foreign own t d) :
    Beside own t (c.elim t (f t)) := by
  cases c with
  | none => exact .refl own t
  | some d => exact (hf.touch t d fun p hp => (hc d rfl p hp).2).beside (hc d rfl)

/-- The same is done in both stores, to a pair or to spans that they need not have in common. -/
theorem Kin.both (h : Kin pairs t t') (hf : Evenhanded f) (hc : Tie pairs t t' derived c c') :
    Kin pairs (c.elim t (f t)) (c'.elim t' (f t')) ∧
      Grown pairs t t' pairs (c.elim t (f t)) (c'.elim t' (f t')) := by
  cases derived with
  | true =>
    obtain ⟨hleft, hright⟩ := hc.foreign rfl
    have hu := hf.beside hleft
    have hu' := hf.beside hright
    exact ⟨h.beside hu hu', .same hu.length hu'.length⟩
  | false =>
    rcases hc.linked rfl with @⟨d, d', hlink⟩ | _
    · have hrel := hlink.record
      cases hd : d.record <;> cases hd' : d'.record <;> rw [hd, hd'] at hrel
      · have hu := (hd ▸ hf.touch t d (by simp [hd])).eq_of_none
        have hu' := (hd' ▸ hf.touch t' d' (by simp [hd'])).eq_of_none
        rw [Option.elim_some, Option.elim_some, hu, hu']
        exact ⟨h, .same (Nat.le_refl _) (Nat.le_refl _)⟩
      · cases hrel
      · cases hrel
      · rename_i p q
        obtain ⟨hpq⟩ := hrel
        obtain ⟨r, r', hr, hr', htwin⟩ := h.twins p q hpq
        obtain ⟨s, s', ends, hu⟩ := hf.twins _ t t' d d' p q r r' hd hd' hr hr' htwin
        refine ⟨h.update hpq hu, .same ?_ ?_⟩
        · exact (congrArg (·.records.length) hu.left).trans (length_records_update ..) |>.ge
        · exact (congrArg (·.records.length) hu.right).trans (length_records_update ..) |>.ge
    · exact ⟨h, .same (Nat.le_refl _) (Nat.le_refl _)⟩

end Tie
end DatabaseTracing.Telemetry
