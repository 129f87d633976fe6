import DatabaseTracing.Proofs.SingleFlight.Moves
import Mathlib.Data.List.Nodup

/-! # No waiter is stranded

The table of a flight group lists the attempts that have not resolved and nothing
else. Whoever waits does so on a running attempt that the table names, so the
outcome of this attempt is what ends the wait: no wait ends because the attempt is
gone, or on a channel that shows nothing.
-/
namespace DatabaseTracing.FlightGroup
variable {α β : Type}

/-- The attempts that have not resolved, each with its key and in the order of their start. -/
def unresolved (g : FlightGroup α β) : List (String × Nat) :=
  (List.range g.attempts.length).filterMap fun i =>
    g.attempts[i]?.bind fun a => if a.state.holdsKey then some (a.key, i) else none

theorem mem_unresolved {g : FlightGroup α β} {key : String} {i : Nat} :
    (key, i) ∈ g.unresolved ↔ g.Holds key i := by
  simp only [unresolved, List.mem_filterMap, List.mem_range]
  constructor
  · rintro ⟨j, -, hj⟩
    obtain ⟨⟨k, w, st⟩, ha, hs⟩ := Option.bind_eq_some_iff.mp hj
    cases hh : st.holdsKey with
    | true =>
      rw [hh] at hs
      cases hs
      exact ⟨w, st, ha, hh⟩
    | false =>
      rw [hh] at hs
      cases hs
  · rintro ⟨w, st, ha, hh⟩
    exact ⟨i, (List.getElem?_eq_some_iff.mp ha).1, by simp [ha, hh]⟩

theorem nodup_unresolved (g : FlightGroup α β) : g.unresolved.Nodup := by
  refine List.nodup_range.filterMap fun i j e hi hj => ?_
  obtain ⟨a, -, ha⟩ := Option.bind_eq_some_iff.mp hi
  obtain ⟨b, -, hb⟩ := Option.bind_eq_some_iff.mp hj
  obtain ⟨-, ha⟩ := Option.ite_none_right_eq_some.mp ha
  obtain ⟨-, hb⟩ := Option.ite_none_right_eq_some.mp hb
  exact congrArg Prod.snd (Option.some.inj (ha.trans hb.symm))

theorem Exact.table_perm {g : FlightGroup α β} (hg : g.Exact) : g.inFlight.Perm g.unresolved := by
  refine (List.perm_ext_iff_of_nodup hg.keys.of_map g.nodup_unresolved).mpr ?_
  rintro ⟨key, i⟩
  rw [hg.entry, mem_unresolved]

def Told (g : FlightGroup α β) : Prop :=
  ∀ q ∈ g.requests, ∀ x, q.state = .answered x →
    ∃ (i : Nat) (w : α) (st : AttemptState β),
      g.attempts[i]? = some ⟨q.key, w, st⟩ ∧ st.channel.outcome = some x

theorem Exact.told_moves {g : FlightGroup α β} (hg : g.Exact) (ht : g.Told)
    (ms : List (Move α β)) : (g.moves ms).Told := by
  induction ms generalizing g with
  | nil => exact ht
  | cons m ms ih =>
    refine ih (hg.move m) fun q hq x hx => ?_
    rcases hg.answered_move hq hx with hq | h
    · obtain ⟨i, w, st, ha, ho⟩ := ht q hq x hx
      obtain ⟨st', ha', ho'⟩ := attempts_move_of_some ha m
      exact ⟨i, w, st', ha', ho' x ho⟩
    · exact h

/-- A wait on an attempt that has not been lost ends with an outcome, if it ends. -/
theorem shown_of_ne_lost {st : AttemptState β} (h : st ≠ .lost) {e : WaitEnd β}
    (he : st.channel.wait = some e) : ∃ r, e = .shown (some r) := by
  cases st with
  | running => cases he
  | sent r => exact ⟨r, (Option.some.inj he).symm⟩
  | resolved r => exact ⟨r, (Option.some.inj he).symm⟩
  | lost => exact absurd rfl h

/-- What a panic is reported as is neither of the errors of a wait that ends without an outcome. -/
theorem outcome_panicked_ne (key : String) (message : Option String) :
    (Ending.panicked message : Ending β).outcome key ≠ .error (droppedError key) ∧
      (Ending.panicked message : Ending β).outcome key ≠ .error (emptyError key) := by
  constructor <;> intro h <;>
    have hc := congrArg String.toList
      (DatabaseError.initialization.inj (Except.error.inj h)) <;>
    simp at hc

structure NoneStranded (ms : List (Move α β)) : Prop where
  /-- The table has the attempts that have not resolved, and no other entries. -/
  table : (after ms).inFlight.Perm (after ms).unresolved
  keys : ((after ms).inFlight.map Prod.fst).Nodup
  count : (after ms).inFlightCount = (after ms).unresolved.length
  /-- Who waits does so on the attempt of the entry for the key, which still runs. -/
  waiting : ∀ q ∈ (after ms).requests, ∀ i, q.state = .waiting i →
    (q.key, i) ∈ (after ms).inFlight ∧ ∃ w, (after ms).attempts[i]? = some ⟨q.key, w, .running⟩
  /-- An attempt that sends its outcome answers those who wait for it, and nobody else. -/
  sends : ∀ i key w e, (after ms).attempts[i]? = some ⟨key, w, .running⟩ →
    ((after ms).send i e).inFlight = (after ms).inFlight ∧
      ∀ (c : Nat) (q : Request β), (after ms).requests[c]? = some q →
        q.state = .waiting i ∧
            ((after ms).send i e).requests[c]? = some ⟨q.key, .answered (e.outcome key)⟩ ∨
          q.state ≠ .waiting i ∧ ((after ms).send i e).requests[c]? = some q
  /-- An attempt that frees its key takes out its own entry, and no other. -/
  releases : ∀ i key w r, (after ms).attempts[i]? = some ⟨key, w, .sent r⟩ →
    (key, i) ∈ (after ms).inFlight ∧
      ((after ms).release i).inFlight = (after ms).inFlight.filter (· ≠ (key, i)) ∧
      ((after ms).release i).requests = (after ms).requests
  shown : ∀ a ∈ (after ms).attempts, ∀ e, a.state.channel.wait = some e → ∃ r, e = .shown (some r)
  /-- Who is told that an attempt was dropped or came to nothing is told so by a work that failed
  with these words. -/
  errors : ∀ q ∈ (after ms).requests, ∀ err ∈ [droppedError q.key, emptyError q.key],
    q.state = .answered (.error err) → ∃ i, .send i (.returned (.error err)) ∈ ms

theorem none_stranded (ms : List (Move α β)) : NoneStranded ms := by
  have hg := exact_after ms
  refine ⟨hg.table_perm, hg.keys, hg.table_perm.length_eq, ?_, ?_, ?_, ?_, ?_⟩
  · intro q hq i hw
    obtain ⟨w, ha⟩ := hg.waiting q hq i hw
    exact ⟨(hg.entry q.key i).mpr ⟨w, .running, ha, rfl⟩, w, ha⟩
  · intro i key w e ha
    refine ⟨?_, fun c q hc => requests_send ha e hc⟩
    rw [send_of_running ha]
  · intro i key w r ha
    refine ⟨(hg.entry key i).mpr ⟨w, .sent r, ha, rfl⟩, hg.inFlight_release ha, ?_⟩
    simp [release, ha]
  · intro a ha e he
    exact shown_of_ne_lost (hg.alive a ha) he
  · intro q hq err herr hx
    have hfirst : (empty : FlightGroup α β).Told := fun q hq => absurd hq List.not_mem_nil
    have htold : (after ms).Told := exact_empty.told_moves hfirst ms
    obtain ⟨i, w, st, ha, ho⟩ := htold q hq _ hx
    obtain ⟨ms₁, e, ms₂, hms, -, hout⟩ := outcome_moves ms ha ho
    cases e with
    | returned r =>
      rw [Ending.outcome] at hout
      rw [hms, hout]
      exact ⟨i, List.mem_append_right _ List.mem_cons_self⟩
    | panicked message =>
      obtain ⟨hd, he⟩ := outcome_panicked_ne (β := β) q.key message
      rcases List.mem_pair.mp herr with rfl | rfl
      · exact absurd hout.symm hd
      · exact absurd hout.symm he

end DatabaseTracing.FlightGroup
