import DatabaseTracing.Proofs.SingleFlight.Steps
import Mathlib.Data.List.Induction

/-! # Moves of a flight group

An attempt sends its outcome in one step and frees its key in another, and callers
come and go in between. In every state that such moves lead to, the table names the
attempts that have not resolved, each key once, and whoever waits does so on an
attempt that still runs.
-/
namespace DatabaseTracing

namespace FlightGroup
variable {α β : Type}

abbrev after (ms : List (Move α β)) : FlightGroup α β := empty.moves ms

@[simp] theorem moves_nil (g : FlightGroup α β) : g.moves [] = g := rfl

@[simp] theorem moves_cons (g : FlightGroup α β) (m : Move α β) (ms : List (Move α β)) :
    g.moves (m :: ms) = (g.move m).moves ms := rfl

theorem moves_append (g : FlightGroup α β) (ms ns : List (Move α β)) :
    g.moves (ms ++ ns) = (g.moves ms).moves ns := List.foldl_append

/-- The attempt is one for the key and has not resolved. -/
def Holds (g : FlightGroup α β) (key : String) (i : Nat) : Prop :=
  ∃ w st, g.attempts[i]? = some ⟨key, w, st⟩ ∧ st.holdsKey = true

theorem holds_iff {g : FlightGroup α β} {i : Nat} {key k : String} {w : α} {st : AttemptState β}
    (h : g.attempts[i]? = some ⟨key, w, st⟩) : g.Holds k i ↔ k = key ∧ st.holdsKey = true := by
  constructor
  · rintro ⟨v, s, hs, hh⟩
    rw [h] at hs
    cases hs
    exact ⟨rfl, hh⟩
  · rintro ⟨rfl, hh⟩
    exact ⟨w, st, h, hh⟩

structure Exact (g : FlightGroup α β) : Prop where
  keys : (g.inFlight.map Prod.fst).Nodup
  entry : ∀ key i, (key, i) ∈ g.inFlight ↔ g.Holds key i
  waiting : ∀ q ∈ g.requests, ∀ i, q.state = .waiting i →
    ∃ w, g.attempts[i]? = some ⟨q.key, w, .running⟩
  alive : ∀ a ∈ g.attempts, a.state ≠ .lost

theorem exact_empty : (empty : FlightGroup α β).Exact where
  keys := List.nodup_nil
  entry := by simp [empty, Holds]
  waiting := by simp [empty]
  alive := by simp [empty]

theorem Exact.lookup {g : FlightGroup α β} (hg : g.Exact) {key : String} {i : Nat} :
    g.inFlight.lookup key = some i ↔ g.Holds key i :=
  (lookup_eq_some_iff_mem hg.keys).trans (hg.entry key i)

theorem Exact.holds_unique {g : FlightGroup α β} (hg : g.Exact) {key : String} {i j : Nat}
    (hi : g.Holds key i) (hj : g.Holds key j) : i = j := by
  have h := hg.lookup.mpr hi
  rw [hg.lookup.mpr hj] at h
  exact (Option.some.inj h).symm

/-- Two attempts that run for one key are the same. -/
theorem Exact.running_unique {g : FlightGroup α β} (hg : g.Exact) {key : String} {i j : Nat}
    {v w : α} (hi : g.attempts[i]? = some ⟨key, v, .running⟩)
    (hj : g.attempts[j]? = some ⟨key, w, .running⟩) : i = j :=
  hg.holds_unique ⟨v, _, hi, rfl⟩ ⟨w, _, hj, rfl⟩

theorem Exact.standing_cases {g : FlightGroup α β} (hg : g.Exact) {key : String} {i : Nat}
    (h : g.Holds key i) :
    (∃ w, g.attempts[i]? = some ⟨key, w, .running⟩) ∧ g.standing key i = .waiting i ∨
      ∃ w r, g.attempts[i]? = some ⟨key, w, .sent r⟩ ∧ g.standing key i = .answered r := by
  obtain ⟨w, st, ha, hst⟩ := h
  cases st with
  | running =>
    refine Or.inl ⟨⟨w, ha⟩, ?_⟩
    simp [standing, state?, ha, AttemptState.channel, Channel.wait]
  | sent r =>
    refine Or.inr ⟨w, r, ha, ?_⟩
    simp [standing, state?, ha, AttemptState.channel, Channel.wait, WaitEnd.answer]
  | resolved r => cases hst
  | lost => exact absurd rfl (hg.alive _ (List.mem_of_getElem? ha))

theorem Exact.join_cases {g : FlightGroup α β} (hg : g.Exact) (key : String) (work : α) :
    (∃ i, g.Holds key i ∧
        g.join key work = { g with requests := g.requests ++ [⟨key, g.standing key i⟩] }) ∨
      (∀ i, ¬ g.Holds key i) ∧
        g.join key work =
          { attempts := g.attempts ++ [⟨key, work, .running⟩]
            inFlight := g.inFlight ++ [(key, g.attempts.length)]
            requests := g.requests ++ [⟨key, .waiting g.attempts.length⟩] } := by
  cases h : g.inFlight.lookup key with
  | some i => exact Or.inl ⟨i, hg.lookup.mp h, by simp [join, h]⟩
  | none =>
    refine Or.inr ⟨fun i hi => ?_, join_of_none h work⟩
    rw [hg.lookup.mpr hi] at h
    cases h

theorem Exact.join_held {g : FlightGroup α β} (hg : g.Exact) {key : String} {i : Nat}
    (hi : g.Holds key i) :
    ({ g with requests := g.requests ++ [⟨key, g.standing key i⟩] } : FlightGroup α β).Exact where
  keys := hg.keys
  entry := hg.entry
  waiting q hq j hw := by
    rcases List.mem_append.mp hq with hq | hq
    · exact hg.waiting q hq j hw
    · rw [List.mem_singleton.mp hq] at hw ⊢
      rcases hg.standing_cases hi with ⟨hr, hs⟩ | ⟨_, _, _, hs⟩
      · rw [hs] at hw
        cases hw
        exact hr
      · rw [hs] at hw
        cases hw
  alive := hg.alive

theorem Exact.join_free {g : FlightGroup α β} (hg : g.Exact) {key : String}
    (hn : ∀ i, ¬ g.Holds key i) (work : α) :
    ({ attempts := g.attempts ++ [⟨key, work, .running⟩]
       inFlight := g.inFlight ++ [(key, g.attempts.length)]
       requests := g.requests ++ [⟨key, .waiting g.attempts.length⟩] } : FlightGroup α β).Exact where
  keys := nodup_keys_concat hg.keys
    (Option.eq_none_iff_forall_not_mem.mpr fun i hi => hn i (hg.lookup.mp hi)) _
  entry k i := by
    simp only [List.mem_append, List.mem_singleton, Prod.mk.injEq, hg.entry, Holds,
      getElem?_concat_eq_some]
    constructor
    · rintro (⟨w, st, ha, hst⟩ | ⟨rfl, rfl⟩)
      · exact ⟨w, st, .inl ha, hst⟩
      · exact ⟨work, .running, .inr ⟨rfl, rfl⟩, rfl⟩
    · rintro ⟨w, st, ha | ⟨rfl, ha⟩, hst⟩
      · exact .inl ⟨w, st, ha, hst⟩
      · cases ha
        exact .inr ⟨rfl, rfl⟩
  waiting q hq i hw := by
    simp only [getElem?_concat_eq_some]
    rcases List.mem_append.mp hq with hq | hq
    · obtain ⟨w, ha⟩ := hg.waiting q hq i hw
      exact ⟨w, .inl ha⟩
    · rw [List.mem_singleton.mp hq] at hw ⊢
      cases hw
      exact ⟨work, .inr ⟨rfl, rfl⟩⟩
  alive a ha := by
    rcases List.mem_append.mp ha with ha | ha
    · exact hg.alive a ha
    · rw [List.mem_singleton.mp ha]
      exact fun h => by cases h

theorem Exact.join {g : FlightGroup α β} (hg : g.Exact) (key : String) (work : α) :
    (g.join key work).Exact := by
  rcases hg.join_cases key work with ⟨i, hi, he⟩ | ⟨hn, he⟩
  · exact he ▸ hg.join_held hi
  · exact he ▸ hg.join_free hn work

theorem holds_of_modify {g g' : FlightGroup α β} {i : Nat} {key : String} {w : α}
    {st st' : AttemptState β} (h : g.attempts[i]? = some ⟨key, w, st⟩)
    (hg' : g'.attempts = g.attempts.modify i fun a => { a with state := st' }) (k : String)
    (j : Nat) :
    g'.Holds k j ↔ if i = j then k = key ∧ st'.holdsKey = true else g.Holds k j := by
  have hget := getElem?_modify_state h st' j
  rw [← hg'] at hget
  by_cases hj : i = j
  · subst hj
    rw [if_pos rfl] at hget
    rw [if_pos rfl, holds_iff hget]
  · rw [if_neg hj] at hget
    rw [if_neg hj, Holds, Holds, hget]

theorem alive_of_modify {g g' : FlightGroup α β} {i : Nat} {st : AttemptState β} (hst : st ≠ .lost)
    (hg : ∀ a ∈ g.attempts, a.state ≠ .lost)
    (hg' : g'.attempts = g.attempts.modify i fun a => { a with state := st }) :
    ∀ a ∈ g'.attempts, a.state ≠ .lost := by
  intro a ha
  obtain ⟨j, hj⟩ := List.mem_iff_getElem?.mp ha
  rw [hg', List.getElem?_modify] at hj
  obtain ⟨b, hb, rfl⟩ := Option.map_eq_some_iff.mp hj
  by_cases hi : i = j
  · rw [if_pos hi]
    exact hst
  · rw [if_neg hi]
    exact hg b (List.mem_of_getElem? hb)

theorem Exact.send {g : FlightGroup α β} (hg : g.Exact) (i : Nat) (e : Ending β) :
    (g.send i e).Exact := by
  rcases send_cases g i e with ⟨_, he⟩ | ⟨key, w, ha, he⟩
  · rw [he]
    exact hg
  · have hmod : (g.send i e).attempts =
        g.attempts.modify i fun a => { a with state := .sent (e.outcome key) } := by rw [he]
    have htable : (g.send i e).inFlight = g.inFlight := by rw [he]
    refine ⟨htable ▸ hg.keys, ?_, ?_, alive_of_modify (by simp) hg.alive hmod⟩
    · intro k j
      rw [htable, hg.entry, holds_of_modify ha hmod]
      by_cases hj : i = j
      · subst hj
        rw [if_pos rfl, holds_iff ha]
        rfl
      · rw [if_neg hj]
    · intro q hq j hw
      rw [he] at hq
      obtain ⟨p, hp, rfl⟩ := List.mem_map.mp hq
      rcases told_eq_or i (e.outcome key) p with ⟨ht, hne⟩ | ⟨ht, _⟩
      · rw [ht] at hw ⊢
        have hj : i ≠ j := by
          rintro rfl
          exact hne hw
        rw [hmod, List.getElem?_modify_ne _ _ hj]
        exact hg.waiting p hp j hw
      · rw [ht] at hw
        cases hw

/-- The attempt takes out its own entry and no other, as no other has its key. -/
theorem Exact.inFlight_release {g : FlightGroup α β} (hg : g.Exact) {i : Nat} {key : String}
    {w : α} {r : Except DatabaseError β} (h : g.attempts[i]? = some ⟨key, w, .sent r⟩) :
    (g.release i).inFlight = g.inFlight.filter (· ≠ (key, i)) := by
  have hown : g.Holds key i := ⟨w, _, h, rfl⟩
  have hout : (g.release i).inFlight = g.inFlight.filter fun entry => entry.1 != key := by
    simp [FlightGroup.release, h]
  rw [hout]
  refine List.filter_congr ?_
  rintro ⟨k, j⟩ hkj
  by_cases hk : k = key
  · subst hk
    have hj := hg.holds_unique ((hg.entry k j).mp hkj) hown
    simp [hj]
  · simp [hk]

theorem Exact.release {g : FlightGroup α β} (hg : g.Exact) (i : Nat) : (g.release i).Exact := by
  rcases release_cases g i with he | ⟨key, w, r, ha, he⟩
  · rw [he]
    exact hg
  · have hmod : (g.release i).attempts =
        g.attempts.modify i fun a => { a with state := .resolved r } := by rw [he]
    have htable := hg.inFlight_release ha
    refine ⟨?_, ?_, ?_, alive_of_modify (by simp) hg.alive hmod⟩
    · rw [htable]
      exact hg.keys.sublist (List.filter_sublist.map Prod.fst)
    · intro k j
      rw [htable, List.mem_filter, hg.entry, holds_of_modify ha hmod]
      by_cases hj : i = j
      · subst hj
        rw [if_pos rfl, holds_iff ha]
        simp [AttemptState.holdsKey]
      · simp [hj, Ne.symm hj]
    · intro q hq j hw
      rw [he] at hq
      obtain ⟨v, hv⟩ := hg.waiting q hq j hw
      have hj : i ≠ j := by
        rintro rfl
        rw [ha] at hv
        cases hv
      rw [hmod, List.getElem?_modify_ne _ _ hj]
      exact ⟨v, hv⟩

theorem Exact.answer {g : FlightGroup α β} (hg : g.Exact) (key : String)
    (r : Except DatabaseError β) : (g.answer key r).Exact where
  keys := hg.keys
  entry := hg.entry
  waiting := by
    intro q hq i hw
    rcases List.mem_append.mp hq with hq | hq
    · exact hg.waiting q hq i hw
    · rw [List.mem_singleton.mp hq] at hw
      cases hw
  alive := hg.alive

theorem Exact.cancel {g : FlightGroup α β} (hg : g.Exact) (c : Nat) : (g.cancel c).Exact where
  keys := hg.keys
  entry := hg.entry
  waiting := by
    intro q hq i hw
    obtain ⟨j, hj⟩ := List.mem_iff_getElem?.mp hq
    simp only [FlightGroup.cancel, List.getElem?_modify] at hj
    obtain ⟨p, hp, rfl⟩ := Option.map_eq_some_iff.mp hj
    split at hw
    · exact absurd hw (cancel_not_waiting p i)
    · rename_i hc
      simp only [if_neg hc]
      exact hg.waiting p (List.mem_of_getElem? hp) i hw
  alive := hg.alive

theorem Exact.move {g : FlightGroup α β} (hg : g.Exact) (m : Move α β) : (g.move m).Exact := by
  cases m with
  | work key work => exact hg.join key work
  | send i e => exact hg.send i e
  | release i => exact hg.release i
  | cancel c => exact hg.cancel c

theorem Exact.moves {g : FlightGroup α β} (hg : g.Exact) (ms : List (Move α β)) :
    (g.moves ms).Exact := by
  induction ms generalizing g with
  | nil => exact hg
  | cons m ms ih => exact ih (hg.move m)

theorem exact_after (ms : List (Move α β)) : (after ms).Exact := exact_empty.moves ms

/-- An attempt keeps its key and its work, and the outcome that it has sent. -/
theorem attempts_move_of_some {g : FlightGroup α β} {i : Nat} {a : Attempt α β}
    (h : g.attempts[i]? = some a) (m : Move α β) :
    ∃ st, (g.move m).attempts[i]? = some ⟨a.key, a.work, st⟩ ∧
      ∀ x, a.state.channel.outcome = some x → st.channel.outcome = some x := by
  have hsame : ∃ st, g.attempts[i]? = some ⟨a.key, a.work, st⟩ ∧
      ∀ x, a.state.channel.outcome = some x → st.channel.outcome = some x :=
    ⟨a.state, h, fun _ hx => hx⟩
  cases m with
  | work key work => exact ⟨a.state, attempts_join_of_some h key work, fun _ hx => hx⟩
  | cancel c => exact hsame
  | send j e =>
    rw [move]
    rcases send_cases g j e with ⟨-, he⟩ | ⟨key, w, ha, he⟩ <;> rw [he]
    · exact hsame
    · by_cases hj : j = i
      · subst hj
        rw [h] at ha
        cases ha
        refine ⟨.sent (e.outcome key), ?_, nofun⟩
        rw [getElem?_modify_state h, if_pos rfl]
      · rw [List.getElem?_modify_ne _ _ hj]
        exact hsame
  | release j =>
    rw [move]
    rcases release_cases g j with he | ⟨key, w, r, ha, he⟩ <;> rw [he]
    · exact hsame
    · by_cases hj : j = i
      · subst hj
        rw [h] at ha
        cases ha
        refine ⟨.resolved r, ?_, fun _ hx => hx⟩
        rw [getElem?_modify_state h, if_pos rfl]
      · rw [List.getElem?_modify_ne _ _ hj]
        exact hsame

/-- An attempt runs on until it sends an outcome. -/
theorem running_move {g : FlightGroup α β} {i : Nat} {key : String} {w : α}
    (h : g.attempts[i]? = some ⟨key, w, .running⟩) (m : Move α β) :
    (g.move m).attempts[i]? = some ⟨key, w, .running⟩ ∨ ∃ e, m = .send i e := by
  cases m with
  | work k work => exact Or.inl (attempts_join_of_some h k work)
  | cancel c => exact Or.inl h
  | send j e =>
    by_cases hj : j = i
    · subst hj
      exact Or.inr ⟨e, rfl⟩
    · refine Or.inl ?_
      rw [move]
      rcases send_cases g j e with ⟨-, he⟩ | ⟨_, _, _, he⟩ <;> rw [he]
      · exact h
      · exact (List.getElem?_modify_ne _ _ hj).trans h
  | release j =>
    refine Or.inl ?_
    rw [move]
    rcases release_cases g j with he | ⟨k, v, r, ha, he⟩ <;> rw [he]
    · exact h
    · have hj : j ≠ i := by
        rintro rfl
        rw [h] at ha
        cases ha
      exact (List.getElem?_modify_ne _ _ hj).trans h

/-- An outcome is there already, or is that of the work which has just ended. -/
theorem outcome_move {g : FlightGroup α β} {m : Move α β} {i : Nat} {key : String} {w : α}
    {st : AttemptState β} {x : Except DatabaseError β}
    (h : (g.move m).attempts[i]? = some ⟨key, w, st⟩) (hx : st.channel.outcome = some x) :
    (∃ st₀, g.attempts[i]? = some ⟨key, w, st₀⟩ ∧ st₀.channel.outcome = some x) ∨
      ∃ e, m = .send i e ∧ g.attempts[i]? = some ⟨key, w, .running⟩ ∧ x = e.outcome key := by
  cases m with
  | work k work =>
    rw [move] at h
    rcases attempts_join g k work with hj | hj <;> rw [hj] at h
    · exact Or.inl ⟨st, h, hx⟩
    · rcases getElem?_concat_eq_some.mp h with h | ⟨-, ha⟩
      · exact Or.inl ⟨st, h, hx⟩
      · cases ha
        cases hx
  | cancel c => exact Or.inl ⟨st, h, hx⟩
  | send j e =>
    rw [move] at h
    rcases send_cases g j e with ⟨-, he⟩ | ⟨k, v, ha, he⟩ <;> rw [he] at h
    · exact Or.inl ⟨st, h, hx⟩
    · rw [getElem?_modify_state ha] at h
      by_cases hj : j = i
      · subst hj
        rw [if_pos rfl] at h
        cases h
        cases hx
        exact Or.inr ⟨e, rfl, ha, rfl⟩
      · rw [if_neg hj] at h
        exact Or.inl ⟨st, h, hx⟩
  | release j =>
    rw [move] at h
    rcases release_cases g j with he | ⟨k, v, r, ha, he⟩ <;> rw [he] at h
    · exact Or.inl ⟨st, h, hx⟩
    · rw [getElem?_modify_state ha] at h
      by_cases hj : j = i
      · subst hj
        rw [if_pos rfl] at h
        cases h
        exact Or.inl ⟨.sent r, ha, hx⟩
      · rw [if_neg hj] at h
        exact Or.inl ⟨st, h, hx⟩

/-- Every outcome is that of a work which ended while its attempt ran. -/
theorem outcome_moves (ms : List (Move α β)) {i : Nat} {key : String} {w : α}
    {st : AttemptState β} {x : Except DatabaseError β}
    (h : (after ms).attempts[i]? = some ⟨key, w, st⟩)
    (hx : st.channel.outcome = some x) :
    ∃ ms₁ e ms₂, ms = ms₁ ++ .send i e :: ms₂ ∧
      (after ms₁).attempts[i]? = some ⟨key, w, .running⟩ ∧
      x = e.outcome key := by
  induction ms using List.reverseRecOn generalizing st with
  | nil => cases h
  | append_singleton ms m ih =>
    rw [after, moves_append] at h
    rcases outcome_move h hx with ⟨st₀, h₀, hx₀⟩ | ⟨e, rfl, hr, he⟩
    · obtain ⟨ms₁, e, ms₂, rfl, hr, he⟩ := ih h₀ hx₀
      exact ⟨ms₁, e, ms₂ ++ [m], by simp, hr, he⟩
    · exact ⟨ms, e, [], rfl, hr, he⟩

/-- A caller that comes in is answered at once if the attempt for its key has sent its outcome. -/
theorem Exact.answered_join {g : FlightGroup α β} (hg : g.Exact) {key : String} {work : α}
    {q : Request β} (hq : q ∈ (g.join key work).requests) {x : Except DatabaseError β}
    (hx : q.state = .answered x) : q ∈ g.requests ∨ ∃ (i : Nat) (w : α),
      (g.join key work).attempts[i]? = some ⟨q.key, w, .sent x⟩ := by
  rcases hg.join_cases key work with ⟨i, hi, he⟩ | ⟨-, he⟩ <;> rw [he] at hq ⊢
  · rcases List.mem_append.mp hq with hq | hq
    · exact .inl hq
    · rw [List.mem_singleton.mp hq] at hx ⊢
      rcases hg.standing_cases hi with ⟨-, hs⟩ | ⟨w, r, hr, hs⟩ <;> rw [hs] at hx <;> cases hx
      exact .inr ⟨i, w, hr⟩
  · rcases List.mem_append.mp hq with hq | hq
    · exact .inl hq
    · rw [List.mem_singleton.mp hq] at hx
      cases hx

theorem Exact.answered_send {g : FlightGroup α β} (hg : g.Exact) {i : Nat} {e : Ending β}
    {q : Request β} (hq : q ∈ (g.send i e).requests) {x : Except DatabaseError β}
    (hx : q.state = .answered x) : q ∈ g.requests ∨ ∃ (i' : Nat) (w : α),
      (g.send i e).attempts[i']? = some ⟨q.key, w, .sent x⟩ := by
  rcases send_cases g i e with ⟨-, he⟩ | ⟨key, w, ha, he⟩ <;> rw [he] at hq ⊢
  · exact .inl hq
  · rcases answered_told hq hx with hold | ⟨rfl, p, hp, hw, hkey⟩
    · exact .inl hold
    · obtain ⟨v, hv⟩ := hg.waiting p hp i hw
      rw [ha] at hv
      cases hv
      refine .inr ⟨i, w, ?_⟩
      rw [getElem?_modify_state ha, if_pos rfl, hkey]

/-- An answer is there already, or comes from an attempt that has its outcome by now. -/
theorem Exact.answered_move {g : FlightGroup α β} (hg : g.Exact) {m : Move α β} {q : Request β}
    (hq : q ∈ (g.move m).requests) {x : Except DatabaseError β} (hx : q.state = .answered x) :
    q ∈ g.requests ∨ ∃ (i : Nat) (w : α) (st : AttemptState β),
      (g.move m).attempts[i]? = some ⟨q.key, w, st⟩ ∧ st.channel.outcome = some x := by
  cases m with
  | work key work =>
    exact (hg.answered_join hq hx).imp_right fun ⟨i, w, ha⟩ => ⟨i, w, .sent x, ha, rfl⟩
  | send i e =>
    exact (hg.answered_send hq hx).imp_right fun ⟨j, w, ha⟩ => ⟨j, w, .sent x, ha, rfl⟩
  | release i =>
    rw [FlightGroup.move] at hq
    refine .inl ?_
    rcases release_cases g i with he | ⟨_, _, _, _, he⟩ <;> rw [he] at hq <;> exact hq
  | cancel c => exact .inl (mem_of_answered_cancel hq hx)

end FlightGroup
end DatabaseTracing
