import DatabaseTracing.Proofs.Registry.Progress
import DatabaseTracing.Proofs.SingleFlight.Cancellation

/-! # Requests that are given up

The connector, the kept handles and all other requests do not notice when a request
is given up that has come to wait for an attempt. The attempt goes on: it keeps its
handle under the name and frees the name, even if nobody waits for it any longer.
-/
namespace DatabaseTracing.Registry
variable {C σ : Type}

def Move.givesUp (who : Nat → Bool) : Move C → Bool
  | .cancel c => who c
  | _ => false

/-- The history in which the callers of `who` wait on where they gave up. -/
def patient (who : Nat → Bool) (ms : List (Move C)) : List (Move C) :=
  ms.filter fun m => !m.givesUp who

/-- The registry with another group in place of its own. -/
def withGroup (r : Registry C σ) (g : FlightGroup String Nat) : Registry C σ := { r with group := g }

section SameBut
variable {P : Nat → Prop} {r : Registry C σ} {g : FlightGroup String Nat}

theorem wake_withGroup (h : r.group.SameBut P g) (i : Nat) :
    ∃ g', (r.withGroup g).wake i = (r.wake i).withGroup g' ∧ (r.wake i).group.SameBut P g' := by
  have hattempts : (r.withGroup g).group.attempts = r.group.attempts := h.attempts
  have hopening : (r.withGroup g).opening? i = r.opening? i := rfl
  unfold wake
  rw [hattempts, hopening]
  split
  · rename_i name dsn ha ho
    have hhandle : (r.withGroup g).handle? name = r.handle? name := rfl
    rw [hhandle]
    cases r.handle? name with
    | some k => exact ⟨_, rfl, h.send i _⟩
    | none => exact ⟨g, rfl, h⟩
  · exact ⟨g, rfl, h⟩

theorem state?_withGroup (hg : g.attempts = r.group.attempts) (i : Nat) :
    (r.withGroup g).group.state? i = r.group.state? i :=
  congrArg (fun attempts => attempts[i]?.map Attempt.state) hg

theorem connect_withGroup (hg : g.attempts = r.group.attempts) (i : Nat) (c : Connection C) :
    (r.withGroup g).connect i c = (r.connect i c).withGroup g := by
  have hopening : (r.withGroup g).opening? i = r.opening? i := rfl
  have hfleet : (r.withGroup g).fleet = r.fleet := rfl
  unfold connect
  rw [state?_withGroup hg, hopening]
  split
  · cases c with
    | fresh db => rfl
    | existing handle =>
      simp only [hfleet]
      split <;> rfl
    | failed e => rfl
    | panicked m => rfl
  · rfl

theorem install_withGroup (r : Registry C σ) (g : FlightGroup String Nat) (i handle : Nat)
    (p : Tracing.Installation) :
    (r.withGroup g).install i handle p = (r.install i handle p).withGroup g := by
  have hfleet : (r.withGroup g).fleet = r.fleet := rfl
  unfold install
  rw [hfleet]
  split <;> rfl

theorem announce_withGroup (r : Registry C σ) (g : FlightGroup String Nat) (i : Nat) (name : String)
    (handle : Nat) :
    (r.withGroup g).announce i name handle = (r.announce i name handle).withGroup g := by
  have hfleet : (r.withGroup g).fleet = r.fleet := rfl
  unfold announce
  rw [hfleet]
  split <;> rfl

theorem advance_withGroup (hg : g.attempts = r.group.attempts) (i : Nat) :
    (r.withGroup g).advance i = (r.advance i).withGroup g := by
  have hopening : (r.withGroup g).opening? i = r.opening? i := rfl
  unfold advance
  rw [state?_withGroup hg, hopening]
  split
  · rename_i name _ c _ _
    cases c with
    | asked | installed | ended => rfl
    | kept handle => exact announce_withGroup r g i name handle
    | installing handle p =>
      cases hp : p.outcome? with
      | none =>
        simp only [hp]
        exact install_withGroup r g i handle p
      | some outcome =>
        simp only [hp]
        cases outcome <;> rfl
  · rfl

theorem move_withGroup (h : r.group.SameBut P g) (m : Move C) :
    ∃ g', (r.withGroup g).move m = (r.move m).withGroup g' ∧ (r.move m).group.SameBut P g' := by
  cases m with
  | look name dsn =>
    have hhandle : (r.withGroup g).handle? name = r.handle? name := rfl
    simp only [move, look, hhandle]
    split
    · exact ⟨_, rfl, h.answer name _⟩
    · exact ⟨g, rfl, h⟩
  | enter name dsn =>
    have hseekers : (r.withGroup g).seekers = r.seekers := rfl
    simp only [move, enter, hseekers]
    split
    · exact ⟨_, rfl, h.join name dsn⟩
    · exact ⟨g, rfl, h⟩
  | leave name dsn => exact ⟨g, rfl, h⟩
  | wake i => exact wake_withGroup h i
  | connect i c =>
    refine ⟨g, connect_withGroup h.attempts i c, ?_⟩
    rw [move]
    rcases connect_proceeds r i c with hc | ⟨_, _, _, hc⟩
    · rw [hc]
      exact h
    · rw [hc.group]
      exact h
  | advance i =>
    refine ⟨g, advance_withGroup h.attempts i, ?_⟩
    rw [move]
    rcases advance_proceeds r i with hc | ⟨_, _, _, _, hc⟩
    · rw [hc]
      exact h
    · rw [hc.group]
      exact h
  | tell i =>
    have hopening : (r.withGroup g).opening? i = r.opening? i := rfl
    simp only [move, tell, hopening]
    split
    · exact ⟨_, rfl, h.send i _⟩
    · exact ⟨g, rfl, h⟩
  | free i => exact ⟨_, rfl, h.release i⟩
  | cancel c => exact ⟨_, rfl, h.cancel c⟩

theorem moves_withGroup (h : r.group.SameBut P g) (who : Nat → Bool) {ms : List (Move C)}
    (hP : ∀ c, who c = true → .cancel c ∈ ms → P c) :
    ∃ g', (r.withGroup g).moves (patient who ms) = (r.moves ms).withGroup g' ∧
      (r.moves ms).group.SameBut P g' := by
  induction ms generalizing r g with
  | nil => exact ⟨g, rfl, h⟩
  | cons m ms ih =>
    have hrest : ∀ c, who c = true → .cancel c ∈ ms → P c := fun c hc hm =>
      hP c hc (List.mem_cons_of_mem _ hm)
    cases hm : m.givesUp who with
    | false =>
      obtain ⟨g₁, he, h₁⟩ := move_withGroup h m
      rw [patient, List.filter_cons_of_pos (by simp [hm]), moves_cons, moves_cons, he]
      exact ih h₁ hrest
    | true =>
      rw [patient, List.filter_cons_of_neg (by simp [hm]), moves_cons]
      cases m with
      | cancel c =>
        have hcancelled : (r.cancel c).group.SameBut P g :=
          h.cancel_left (hP c hm List.mem_cons_self)
        exact ih hcancelled hrest
      | look | enter | leave | wake | connect | advance | tell | free => cases hm

end SameBut

/-- The callers of `P` may have given up in `r` and not in `r'`, and nothing else tells the
registries apart. -/
structure Unaffected (P : Nat → Prop) (r r' : Registry C σ) : Prop where
  handles : r'.handles = r.handles
  seekers : r'.seekers = r.seekers
  /-- The same calls of the connector have been made, with the same answers. -/
  openings : r'.openings = r.openings
  fleet : r'.fleet = r.fleet
  group : r.group.Unaffected P r'.group

section Ended
variable {r : Registry C σ} {i : Nat} {name dsn : String} {e : Ending Nat}

/-- Neither a second answer nor another outcome can come. -/
theorem ended_moves (ho : r.opening? i = some ⟨i, name, dsn, .ended e⟩) (ms : List (Move C)) :
    (r.moves ms).opening? i = some ⟨i, name, dsn, .ended e⟩ := by
  induction ms generalizing r with
  | nil => exact ho
  | cons m ms ih =>
    rcases opening?_move ho m with h | ⟨_, _, _, _, hp, -⟩
    · exact ih h
    · have hhere := hp.here.opening
      rw [ho] at hhere
      cases hhere
      exact absurd rfl (hp.next.not_ended e)

theorem Sound.outcome_tell (hs : r.Sound) (ho : r.opening? i = some ⟨i, name, dsn, .ended e⟩) :
    ∃ st, (r.tell i).group.attempts[i]? = some ⟨name, dsn, st⟩ ∧
      st.channel.outcome = some (e.outcome name) := by
  rw [tell_of_ended ho]
  rcases hs.agrees _ (opening?_eq_some ho).1 with ha | ⟨e', st, he, ha, hst⟩
  · exact ⟨_, FlightGroup.attempts_send_self ha e, rfl⟩
  · cases he
    obtain ⟨st', ha', hst'⟩ := FlightGroup.attempts_move_of_some ha (.send i e)
    exact ⟨st', ha', hst' _ hst⟩

theorem Sound.resolved (hs : r.Sound) (ho : r.opening? i = some ⟨i, name, dsn, .ended e⟩)
    (ms : List (Move C)) :
    (r.moves (.tell i :: (ms ++ [.free i]))).group.attempts[i]? =
        some ⟨name, dsn, .resolved (e.outcome name)⟩ ∧
      (name, i) ∉ (r.moves (.tell i :: (ms ++ [.free i]))).group.inFlight := by
  obtain ⟨st, hst, hx⟩ := hs.outcome_tell ho
  obtain ⟨st', hst', hkept⟩ := attempts_moves_of_some hst ms
  have hmoves : r.moves (.tell i :: (ms ++ [.free i])) = ((r.tell i).moves ms).free i := by
    rw [moves_cons, moves_append]
    rfl
  have hresolved := FlightGroup.attempts_release_self hst' (hkept _ hx)
  have hsound := hs.moves (.tell i :: (ms ++ [.free i]))
  rw [hmoves] at hsound ⊢
  exact ⟨hresolved, hsound.group.not_mem_table hresolved⟩

end Ended

/-- What becomes of the attempts that run in `r`, also if nobody waits for them. -/
structure Outlives (r : Registry C σ) : Prop where
  asks : ∀ i name dsn, r.group.attempts[i]? = some ⟨name, dsn, .running⟩ → r.opening? i = none →
    r.handle? name = none → (r.wake i).opening? i = some ⟨i, name, dsn, .asked⟩
  /-- Whatever comes in between, an attempt that is given a handle, new or not, keeps it under the
  name by its own steps. -/
  publishes : ∀ i name dsn c f h ms, r.At i name dsn .asked → c.Gives r.fleet f h →
    stepsToEnd ≤ ms.countP (Move.advances i) →
    ((r.connect i c).moves ms).opening? i = some ⟨i, name, dsn, .ended (.returned (.ok h))⟩ ∧
      ((r.connect i c).moves ms).handle? name = some h
  /-- Whatever comes in between, an attempt whose call has come to an end tells its waiters just
  what it came to, and frees its name. -/
  resolves : ∀ i name dsn e ms ns, r.At i name dsn (.ended e) →
    (r.moves (ms ++ .tell i :: (ns ++ [.free i]))).group.attempts[i]? =
        some ⟨name, dsn, .resolved (e.outcome name)⟩ ∧
      (name, i) ∉ (r.moves (ms ++ .tell i :: (ns ++ [.free i]))).group.inFlight

theorem Sound.outlives {r : Registry C σ} (hs : r.Sound) : r.Outlives where
  asks i name dsn ha ho hh := by
    rw [opening?, openings_wake ha ho hh, List.find?_append]
    change (r.opening? i).or _ = _
    simp [ho]
  publishes i name dsn c f h ms hat hc hms := hs.ended_of_gives_moves hat hc hms
  resolves i name dsn e ms ns hat := by
    rw [moves_append]
    exact (hs.moves ms).resolved (ended_moves hat.opening ms) ns

/-- In a group and in a registry alike, the history with the cancellations of `who` and the one
without them come to the same, but that those who give up are not answered; and attempts run to
their end whoever waits for them. -/
theorem giving_up_unnoticed {α β : Type} (who : Nat → Bool) :
    (∀ ms : List (FlightGroup.Move α β),
      (FlightGroup.after ms).Unaffected (fun c => who c = true ∧ .cancel c ∈ ms)
          (FlightGroup.after (FlightGroup.patient who ms)) ∧
        (FlightGroup.after ms).Outlives) ∧
    ∀ (options : Options) (user : σ) (ms : List (Move C)),
      ((initial options user).moves ms).Unaffected (fun c => who c = true ∧ .cancel c ∈ ms)
          ((initial options user).moves (patient who ms)) ∧
        ((initial options user).moves ms).Outlives := by
  refine ⟨fun ms => ⟨?_, (FlightGroup.exact_after ms).outlives⟩, fun options user ms => ⟨?_, ?_⟩⟩
  · have hquits : ∀ c, who c = true → .cancel c ∈ ms → who c = true ∧ .cancel c ∈ ms :=
      fun _ hc hm => ⟨hc, hm⟩
    exact ((FlightGroup.SameBut.refl _ _).moves who hquits).unaffected
  · have hquits : ∀ c, who c = true → .cancel c ∈ ms → who c = true ∧ .cancel c ∈ ms :=
      fun _ hc hm => ⟨hc, hm⟩
    obtain ⟨g, he, hsame⟩ := moves_withGroup (r := initial options user) (.refl _ _) who hquits
    change (initial options user).moves (patient who ms) = _ at he
    rw [he]
    exact ⟨rfl, rfl, rfl, rfl, hsame.unaffected⟩
  · exact ((sound_initial options user).moves ms).outlives

end DatabaseTracing.Registry
