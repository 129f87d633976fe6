import DatabaseTracing.Proofs.Registry.Ownership
import DatabaseTracing.Proofs.SingleFlight.Renaming

/-! # Registries up to the numbers of their handles

A registry numbers its handles in the order in which they are opened and does not look
at the numbers. If the connector hands out a fresh handle each time, two registries
that agree but for the numbers do so again after the same move.
-/
namespace DatabaseTracing
variable {C σ : Type}

/-- A handle is called otherwise in the course of a call. -/
def Course.rename (f : Nat → Nat) : Course → Course
  | asked => asked
  | installing handle p => installing (f handle) p
  | installed handle => installed (f handle)
  | kept handle => kept (f handle)
  | ended e => ended (e.map f)

theorem Course.given?_rename (f : Nat → Nat) (c : Course) :
    (c.rename f).given? = c.given?.map f := by
  cases c with
  | ended e => rcases e with (r | r) | m <;> rfl
  | asked | installing | installed | kept => rfl

def Opening.rename (f : Nat → Nat) (o : Opening) : Opening :=
  { o with course := o.course.rename f }

namespace Registry

/-- The first registry holds what the second one holds, with every handle under the number that `f`
gives it, and perhaps further handles. -/
structure UpTo (f : Nat → Nat) (r s : Registry C σ) : Prop where
  options : r.options = s.options
  handles : r.handles = s.handles.map fun e => (e.1, f e.2)
  seekers : r.seekers = s.seekers
  group : r.group = s.group.map f
  openings : r.openings = s.openings.map (Opening.rename f)
  databases : ∀ (h : Nat) (db : Database C), s.fleet.databases[h]? = some db →
    r.fleet.databases[f h]? = some db

/-- The move is a call of the connector that is answered with a new handle. -/
def opens (r : Registry C σ) : Move C → Bool
  | .connect i (.fresh _) =>
    match r.group.state? i, r.opening? i with
    | some .running, some ⟨_, _, _, .asked⟩ => true
    | _, _ => false
  | _ => false

section UpTo
variable {f : Nat → Nat} {r s : Registry C σ}

theorem lookup_map_snd (f : Nat → Nat) (l : List (String × Nat)) (name : String) :
    (l.map fun e => (e.1, f e.2)).lookup name = (l.lookup name).map f := by
  induction l with
  | nil => rfl
  | cons e l ih =>
    rw [List.map_cons, List.lookup_cons, List.lookup_cons, ih]
    cases name == e.1 <;> rfl

theorem UpTo.handle? (h : UpTo f r s) (name : String) : r.handle? name = (s.handle? name).map f := by
  rw [Registry.handle?, h.handles, lookup_map_snd]
  rfl

theorem UpTo.attempts (h : UpTo f r s) (i : Nat) :
    r.group.attempts[i]? = (s.group.attempts[i]?).map (Attempt.map f) := by
  rw [h.group, FlightGroup.attempts_map]

theorem UpTo.state? (h : UpTo f r s) (i : Nat) :
    r.group.state? i = (s.group.state? i).map (AttemptState.map f) := by
  rw [FlightGroup.state?, FlightGroup.state?, h.attempts, Option.map_map, Option.map_map]
  rfl

theorem UpTo.opening? (h : UpTo f r s) (i : Nat) :
    r.opening? i = (s.opening? i).map (Opening.rename f) := by
  rw [Registry.opening?, h.openings, List.find?_map]
  rfl

theorem UpTo.opens (h : UpTo f r s) (m : Move C) : r.opens m = s.opens m := by
  unfold Registry.opens
  split
  · rename_i i db
    rw [h.state?, h.opening?]
    rcases s.group.state? i with _ | st
    · rfl
    · rcases s.opening? i with _ | ⟨j, name, dsn, c⟩ <;> cases st <;> first | rfl | cases c <;> rfl
  · rfl

theorem UpTo.of_groups (h : UpTo f r s) {gr gs : FlightGroup String Nat} (hg : gr = gs.map f) :
    UpTo f { r with group := gr } { s with group := gs } :=
  ⟨h.options, h.handles, h.seekers, hg, h.openings, h.databases⟩

/-- What else the fleets hold does not matter. -/
theorem UpTo.of_fleets (h : UpTo f r s) {fr fs : Fleet C σ}
    (hfleets : ∀ (k : Nat) (db : Database C), fs.databases[k]? = some db →
      fr.databases[f k]? = some db) :
    UpTo f { r with fleet := fr } { s with fleet := fs } :=
  ⟨h.options, h.handles, h.seekers, h.group, h.openings, hfleets⟩

theorem UpTo.note (h : UpTo f r s) (i : Nat) (c : Course) :
    UpTo f (r.note i (c.rename f)) (s.note i c) where
  options := h.options
  handles := h.handles
  seekers := h.seekers
  group := h.group
  openings := by
    simp only [Registry.note, h.openings, List.map_map]
    refine List.map_congr_left fun o _ => ?_
    by_cases ho : o.attempt = i <;> simp [Opening.rename, ho]
  databases := h.databases

/-- A new handle is numbered as `f` says. -/
theorem UpTo.add (h : UpTo f r s) (hf : f s.fleet.databases.length = r.fleet.databases.length)
    (db : Database C) :
    UpTo f { r with fleet := r.fleet.add db } { s with fleet := s.fleet.add db } := by
  refine h.of_fleets fun k x hk => ?_
  rcases getElem?_concat_eq_some.mp hk with hk | ⟨rfl, rfl⟩
  · exact getElem?_concat_eq_some.mpr (.inl (h.databases k x hk))
  · exact getElem?_concat_eq_some.mpr (.inr ⟨hf, rfl⟩)

theorem UpTo.connect (h : UpTo f r s) {i : Nat} {c : Connection C}
    (hfresh : (Move.connect i c).Fresh)
    (hnew : s.opens (.connect i c) = true → f s.fleet.databases.length = r.fleet.databases.length) :
    UpTo f (r.connect i c) (s.connect i c) := by
  unfold Registry.connect
  rw [h.state?, h.opening?]
  rcases hs : s.group.state? i with _ | st
  · exact h
  · cases st with
    | running =>
      rcases ho : s.opening? i with _ | ⟨j, name, dsn, course⟩
      · exact h
      · cases course with
        | asked =>
          cases c with
          | fresh db =>
            have hf := hnew (by simp [Registry.opens, hs, ho])
            have hadd := (h.add hf db).note i (.installing s.fleet.databases.length .begun)
            rw [Course.rename, hf] at hadd
            exact hadd
          | existing k => exact absurd rfl (hfresh i k)
          | failed e => exact h.note i (.ended (.returned (.error e)))
          | panicked message => exact h.note i (.ended (.panicked message))
        | installing | installed | kept | ended => exact h
    | sent | resolved | lost => exact h

/-- The same step is made on the same handle, whatever else the fleets hold. -/
theorem UpTo.install (h : UpTo f r s) (hf : Function.Injective f) {handle : Nat}
    (hlt : handle < s.fleet.databases.length) (i : Nat) (p : Tracing.Installation) :
    UpTo f (r.install i (f handle) p) (s.install i handle p) := by
  obtain ⟨db, hdb⟩ : ∃ db, s.fleet.databases[handle]? = some db :=
    ⟨_, List.getElem?_eq_getElem hlt⟩
  have hdb' := h.databases handle db hdb
  have hhost : s.fleet.host? handle = some ⟨db, s.fleet.telemetry, s.fleet.log, s.fleet.user⟩ := by
    rw [Fleet.host?, hdb, Option.map_some]
  have hhost' : r.fleet.host? (f handle) =
      some ⟨db, r.fleet.telemetry, r.fleet.log, r.fleet.user⟩ := by
    rw [Fleet.host?, hdb', Option.map_some]
  obtain ⟨hstep, hdatabase⟩ := Tracing.Installation.step_congr h.options p
    (h := ⟨db, r.fleet.telemetry, r.fleet.log, r.fleet.user⟩)
    (k := ⟨db, s.fleet.telemetry, s.fleet.log, s.fleet.user⟩) rfl
  simp only [Registry.install, hhost, hhost', hstep]
  refine UpTo.note ?_ i (.installing handle _)
  refine h.of_fleets fun k x hk => ?_
  have hlt' := (List.getElem?_eq_some_iff.mp hdb').1
  simp only [Fleet.put, List.getElem?_set] at hk ⊢
  by_cases hkh : handle = k
  · subst hkh
    rw [if_pos rfl, if_pos hlt] at hk
    rw [if_pos rfl, if_pos hlt', hdatabase, hk]
  · rw [if_neg hkh] at hk
    rw [if_neg fun he => hkh (hf he)]
    exact h.databases k x hk

theorem UpTo.report (h : UpTo f r s) (i : Nat) (name : String) (handle : Nat) (outcome : Outcome) :
    UpTo f (r.report i name (f handle) outcome) (s.report i name handle outcome) := by
  cases outcome with
  | ok _ => exact h.note i (.installed handle)
  | error e =>
    have hlogged : UpTo f { r with fleet := r.fleet.logged (partialEvent name e) }
        { s with fleet := s.fleet.logged (partialEvent name e) } := h.of_fleets h.databases
    exact hlogged.note i (.installed handle)

theorem UpTo.publish (h : UpTo f r s) (i : Nat) (name : String) (handle : Nat) :
    UpTo f (r.publish i name (f handle)) (s.publish i name handle) := by
  have hkept : UpTo f { r with handles := r.handles.filter (·.1 != name) ++ [(name, f handle)] }
      { s with handles := s.handles.filter (·.1 != name) ++ [(name, handle)] } := by
    refine ⟨h.options, ?_, h.seekers, h.group, h.openings, h.databases⟩
    rw [h.handles]
    simp [List.filter_map, Function.comp_def]
  exact hkept.note i (.kept handle)

theorem UpTo.announce (h : UpTo f r s) {handle : Nat} (hlt : handle < s.fleet.databases.length)
    (i : Nat) (name : String) :
    UpTo f (r.announce i name (f handle)) (s.announce i name handle) := by
  obtain ⟨db, hdb⟩ : ∃ db, s.fleet.databases[handle]? = some db :=
    ⟨_, List.getElem?_eq_getElem hlt⟩
  have hlogged : UpTo f { r with fleet := r.fleet.logged (publishedEvent name db.name) }
      { s with fleet := s.fleet.logged (publishedEvent name db.name) } := h.of_fleets h.databases
  simp only [Registry.announce, hdb, h.databases handle db hdb]
  exact hlogged.note i (.ended (.returned (.ok handle)))

theorem UpTo.advance (h : UpTo f r s) (hf : Function.Injective f) (hs : s.Owned) (i : Nat) :
    UpTo f (r.advance i) (s.advance i) := by
  unfold Registry.advance
  rw [h.state?, h.opening?]
  rcases s.group.state? i with _ | st
  · exact h
  · cases st with
    | running =>
      rcases ho : s.opening? i with _ | ⟨j, name, dsn, c⟩
      · exact h
      · have hthere := hs.there _ (opening?_eq_some ho).1
        cases c with
        | asked | ended => exact h
        | installed handle => exact h.publish i name handle
        | kept handle => exact h.announce (hthere handle rfl) i name
        | installing handle p =>
          cases hp : p.outcome? with
          | none =>
            simp only [Option.map_some, Opening.rename, Course.rename, AttemptState.map, hp]
            exact h.install hf (hthere handle rfl) i p
          | some outcome =>
            simp only [Option.map_some, Opening.rename, Course.rename, AttemptState.map, hp]
            exact h.report i name handle outcome
    | sent | resolved | lost => exact h

theorem UpTo.wake (h : UpTo f r s) (i : Nat) : UpTo f (r.wake i) (s.wake i) := by
  unfold Registry.wake
  rw [h.attempts, h.opening?]
  rcases ha : s.group.attempts[i]? with _ | ⟨name, dsn, st⟩
  · exact h
  · cases st with
    | running =>
      rcases ho : s.opening? i with _ | o
      · simp only [Option.map_some, Option.map_none, Attempt.map, AttemptState.map, h.handle?]
        cases hh : s.handle? name with
        | some k =>
          refine h.of_groups ?_
          rw [FlightGroup.map_send, ← h.group]
          rfl
        | none =>
          refine ⟨h.options, h.handles, h.seekers, h.group, ?_, h.databases⟩
          simp only [h.openings, List.map_append]
          rfl
      · exact h
    | sent | resolved | lost => exact h

theorem UpTo.tell (h : UpTo f r s) (i : Nat) : UpTo f (r.tell i) (s.tell i) := by
  unfold Registry.tell
  rw [h.opening?]
  rcases s.opening? i with _ | ⟨j, name, dsn, c⟩
  · exact h
  · cases c with
    | ended e =>
      refine h.of_groups ?_
      rw [FlightGroup.map_send, ← h.group]
    | asked | installing | installed | kept => exact h

theorem UpTo.move (h : UpTo f r s) (hf : Function.Injective f) (hs : s.Owned) {m : Move C}
    (hfresh : m.Fresh)
    (hnew : s.opens m = true → f s.fleet.databases.length = r.fleet.databases.length) :
    UpTo f (r.move m) (s.move m) := by
  cases m with
  | look name dsn =>
    simp only [Registry.move, look, h.handle?]
    cases s.handle? name with
    | some k =>
      refine h.of_groups ?_
      rw [FlightGroup.map_answer, ← h.group]
      rfl
    | none =>
      exact ⟨h.options, h.handles, congrArg ((name, dsn) :: ·) h.seekers, h.group, h.openings,
        h.databases⟩
  | enter name dsn =>
    simp only [Registry.move, enter, h.seekers]
    split
    · refine ⟨h.options, h.handles, rfl, ?_, h.openings, h.databases⟩
      change _ = (s.group.join name dsn).map f
      rw [FlightGroup.map_join, ← h.group]
    · exact h
  | leave name dsn =>
    exact ⟨h.options, h.handles, congrArg (·.erase (name, dsn)) h.seekers, h.group, h.openings,
      h.databases⟩
  | wake i => exact h.wake i
  | connect i c => exact h.connect hfresh hnew
  | advance i => exact h.advance hf hs i
  | tell i => exact h.tell i
  | free i =>
    refine h.of_groups ?_
    rw [FlightGroup.map_release, ← h.group]
  | cancel c =>
    refine h.of_groups ?_
    rw [FlightGroup.map_cancel, ← h.group]

end UpTo

/-- New handles come one at a time. -/
theorem length_databases_fresh (r : Registry C σ) {m : Move C} (hfresh : m.Fresh) :
    (r.move m).fleet.databases.length =
      r.fleet.databases.length + if r.opens m then 1 else 0 := by
  cases m with
  | connect i c =>
    simp only [move, connect]
    split
    · rename_i hs ho
      cases c with
      | fresh db => simp [opens, hs, ho, note, Fleet.add]
      | existing k => exact absurd rfl (hfresh i k)
      | failed | panicked => rfl
    · rename_i hn
      have hopens : r.opens (.connect i c) = false := by
        unfold opens
        split
        · rename_i heq
          cases heq
          split
          · rename_i hs ho
            exact absurd ho (hn _ _ _ hs)
          · rfl
        · rfl
      rw [hopens]
      rfl
  | advance i =>
    rw [move]
    rcases advance_cases r i with he | ⟨_, _, _, _, -, hadv⟩
    · rw [he]
      rfl
    · exact hadv.length_databases
  | look n d =>
    simp only [move, look]
    split <;> rfl
  | enter n d =>
    simp only [move, enter]
    split <;> rfl
  | wake i =>
    rw [move]
    rcases wake_cases r i with he | ⟨_, _, _, _, ⟨_, _, he⟩ | ⟨_, he⟩⟩ <;> rw [he] <;> rfl
  | tell i =>
    rw [move]
    rcases tell_cases r i with he | ⟨_, _, _, _, he⟩ <;> rw [he] <;> rfl
  | leave | free | cancel => rfl

end Registry
end DatabaseTracing
