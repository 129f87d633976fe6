import DatabaseTracing.Proofs.Registry.Invariant

/-! # Every handle has its own call

If the connector hands out a fresh handle each time, then every handle of the fleet has
been given to one call, and to no other: attempts never work on one another's handles.
-/
namespace DatabaseTracing.Registry
variable {C σ : Type} {r r' : Registry C σ} {i : Nat} {name dsn : String} {c c' : Course}

def Move.Fresh (m : Move C) : Prop := ∀ i h, m ≠ .connect i (.existing h)

structure Owned (r : Registry C σ) : Prop where
  sound : r.Sound
  there : ∀ o ∈ r.openings, ∀ h, o.course.given? = some h → h < r.fleet.databases.length
  owner : ∀ h < r.fleet.databases.length, ∃ o ∈ r.openings, o.course.given? = some h
  unique : ∀ a ∈ r.openings, ∀ b ∈ r.openings, ∀ h, a.course.given? = some h →
    b.course.given? = some h → a = b

theorem owned_initial (options : Options) (user : σ) :
    (initial options user : Registry C σ).Owned where
  sound := sound_initial options user
  there := by simp [initial]
  owner := by simp [initial, Fleet.initial]
  unique := by simp [initial]

/-- A step of an attempt is one with the handle that it has been given. -/
theorem Advances.given? (h : r.Advances i name c c' r') : c'.given? = c.given? := by
  cases h <;> rfl

theorem Advances.length_databases (h : r.Advances i name c c' r') :
    r'.fleet.databases.length = r.fleet.databases.length := by
  cases h with
  | install => exact List.length_set
  | report handle outcome =>
    obtain ⟨f, hf, he⟩ := report_eq r i name handle outcome
    rw [he]
    exact congrArg List.length hf
  | publish | announce => rfl

/-- A call that goes on with the handle it has. -/
theorem Owned.proceeds (hr : r.Owned) (h : r.Proceeds r' i name dsn c c')
    (hg : c'.given? = c.given?)
    (hlength : r'.fleet.databases.length = r.fleet.databases.length) : r'.Owned := by
  have hp := (opening?_eq_some h.here.opening).1
  have hmem := fun o => hr.sound.mem_note hp c' (o := o)
  -- Every call of the new state is one of the old state, with the same handle.
  have hold : ∀ o ∈ r'.openings, ∃ p ∈ r.openings, p.course.given? = o.course.given? ∧
      p.attempt = o.attempt := by
    intro o ho
    rw [h.openings, hmem] at ho
    rcases ho with rfl | ⟨ho, -⟩
    · exact ⟨_, hp, hg.symm, rfl⟩
    · exact ⟨o, ho, rfl, rfl⟩
  have hs := hr.sound.proceeds h
  refine ⟨hs, fun o ho k hk => ?_, fun k hk => ?_, fun a ha b hb k hak hbk => ?_⟩
  · obtain ⟨p, hp, hpo, -⟩ := hold o ho
    rw [hlength]
    exact hr.there p hp k (hpo.trans hk)
  · rw [hlength] at hk
    obtain ⟨o, ho, hok⟩ := hr.owner k hk
    simp only [h.openings, hmem]
    by_cases hop : o = ⟨i, name, dsn, c⟩
    · subst hop
      exact ⟨_, .inl rfl, hg.trans hok⟩
    · exact ⟨o, .inr ⟨ho, hop⟩, hok⟩
  · obtain ⟨p, hp, hpa, hia⟩ := hold a ha
    obtain ⟨q, hq, hqb, hib⟩ := hold b hb
    have hpq := hr.unique p hp q hq k (hpa.trans hak) (hqb.trans hbk)
    exact hs.opening_unique ha hb (hia.symm.trans ((congrArg Opening.attempt hpq).trans hib))

/-- A call that is given a new handle. -/
theorem Owned.gives (hr : r.Owned) (hat : r.At i name dsn .asked) (db : Database C) :
    ({ r with fleet := r.fleet.add db }.note i
      (.installing r.fleet.databases.length .begun)).Owned := by
  have h := hat.proceeds_gives (.fresh db)
  have hp := (opening?_eq_some hat.opening).1
  have hmem := fun o => hr.sound.mem_note hp (.installing r.fleet.databases.length .begun) (o := o)
  have hlength : (r.fleet.add db).databases.length = r.fleet.databases.length + 1 := by
    simp [Fleet.add]
  refine ⟨hr.sound.proceeds h, fun o ho k hk => ?_, fun k hk => ?_, fun a ha b hb k hak hbk => ?_⟩
  · refine Nat.lt_of_lt_of_eq ?_ hlength.symm
    rcases (hmem o).mp ho with rfl | ⟨ho, -⟩
    · cases hk
      exact Nat.lt_succ_self _
    · exact Nat.lt_succ_of_lt (hr.there o ho k hk)
  · rcases Nat.lt_succ_iff_lt_or_eq.mp (Nat.lt_of_lt_of_eq hk hlength) with hk | rfl
    · obtain ⟨o, ho, hok⟩ := hr.owner k hk
      refine ⟨o, (hmem o).mpr (.inr ⟨ho, ?_⟩), hok⟩
      rintro rfl
      cases hok
    · exact ⟨_, (hmem _).mpr (.inl rfl), rfl⟩
  · have hnew : ∀ o ∈ r.openings, o.course.given? ≠ some r.fleet.databases.length :=
      fun o ho hk => Nat.lt_irrefl _ (hr.there o ho _ hk)
    rcases (hmem a).mp ha with rfl | ⟨ha, -⟩ <;> rcases (hmem b).mp hb with rfl | ⟨hb, -⟩
    · rfl
    · cases hak
      exact absurd hbk (hnew b hb)
    · cases hbk
      exact absurd hak (hnew a ha)
    · exact hr.unique a ha b hb k hak hbk

theorem Owned.move (hr : r.Owned) {m : Move C} (hm : m.Fresh) : (r.move m).Owned := by
  have hs := hr.sound.move m
  have h := changes r m
  generalize r.move m = r' at hs h ⊢
  cases h with
  | quiet => exact ⟨hs, hr.there, hr.owner, hr.unique⟩
  | @asks i name dsn =>
    have hold : ∀ o ∈ r.openings ++ [⟨i, name, dsn, .asked⟩], ∀ k, o.course.given? = some k →
        o ∈ r.openings := by
      intro o ho k hk
      rcases List.mem_append.mp ho with ho | ho
      · exact ho
      · rw [List.mem_singleton.mp ho] at hk
        cases hk
    refine ⟨hs, fun o ho k hk => hr.there o (hold o ho k hk) k hk, fun k hk => ?_,
      fun a ha b hb k hak hbk => hr.unique a (hold a ha k hak) b (hold b hb k hbk) k hak hbk⟩
    obtain ⟨o, ho, hok⟩ := hr.owner k hk
    exact ⟨o, List.mem_append_left _ ho, hok⟩
  | @gives i handle _ _ _ _ hat hc =>
    cases hc with
    | fresh db => exact hr.gives hat db
    | existing => exact absurd rfl (hm i handle)
  | fails hat he => exact hr.proceeds (hat.proceeds_fails he) he rfl
  | advances hat hadv => exact hr.proceeds (hadv.proceeds hat) hadv.given? hadv.length_databases

theorem Owned.moves (hr : r.Owned) {ms : List (Move C)} (hms : ∀ m ∈ ms, m.Fresh) :
    (r.moves ms).Owned := by
  induction ms generalizing r with
  | nil => exact hr
  | cons m ms ih =>
    obtain ⟨hm, hms⟩ := List.forall_mem_cons.mp hms
    exact ih (hr.move hm) hms

/-- An attempt changes no handle that another call has been given. -/
theorem Owned.databases_move (hr : r.Owned) {m : Move C} (hm : m.Fresh) {o : Opening}
    (ho : o ∈ r.openings) {h : Nat} (hg : o.course.given? = some h)
    (hother : m ≠ .advance o.attempt) :
    (r.move m).fleet.databases[h]? = r.fleet.databases[h]? := by
  have hlt := hr.there o ho h hg
  have hc := changes r m
  generalize r.move m = r' at hc ⊢
  cases hc with
  | quiet | asks | fails => rfl
  | @gives i handle _ _ _ _ hat hc =>
    cases hc with
    | fresh db => exact List.getElem?_append_left hlt
    | existing => exact absurd rfl (hm i handle)
  | @advances i name dsn c c' _ hat hadv =>
    have hp := (opening?_eq_some hat.opening).1
    cases hadv with
    | @install handle p k hp' hh =>
      have hne : handle ≠ h := by
        rintro rfl
        have hsame := hr.unique _ hp o ho _ rfl hg
        exact hother (congrArg Move.advance (congrArg Opening.attempt hsame))
      exact List.getElem?_set_ne hne
    | report handle outcome =>
      obtain ⟨f, hf, he⟩ := report_eq r i name handle outcome
      rw [he]
      exact congrArg (·[h]?) hf
    | publish | announce => rfl

end DatabaseTracing.Registry
