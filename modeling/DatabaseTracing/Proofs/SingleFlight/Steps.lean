import DatabaseTracing.Proofs.Lists
import DatabaseTracing.SingleFlight

/-! # Steps of a flight group

What each step does to the attempts and to the requests: a caller joins and finds its
place behind the others, an attempt that runs sends its outcome to those who wait for
it, an attempt that has sent its outcome frees its key, and a caller gives up.
-/
namespace DatabaseTracing.FlightGroup
variable {α β : Type}

theorem join_of_none {g : FlightGroup α β} {key : String} (h : g.inFlight.lookup key = none)
    (work : α) :
    g.join key work =
      { attempts := g.attempts ++ [⟨key, work, .running⟩]
        inFlight := g.inFlight ++ [(key, g.attempts.length)]
        requests := g.requests ++ [⟨key, .waiting g.attempts.length⟩] } := by
  simp [join, h]

/-- Joining leaves the attempts there are alone. -/
theorem attempts_join (g : FlightGroup α β) (key : String) (work : α) :
    (g.join key work).attempts = g.attempts ∨
      (g.join key work).attempts = g.attempts ++ [⟨key, work, .running⟩] := by
  unfold join
  split
  · exact Or.inl rfl
  · exact Or.inr rfl

theorem attempts_join_of_some {g : FlightGroup α β} {i : Nat} {a : Attempt α β}
    (h : g.attempts[i]? = some a) (key : String) (work : α) :
    (g.join key work).attempts[i]? = some a := by
  rcases attempts_join g key work with hj | hj
  · rw [hj, h]
  · rw [hj, getElem?_concat_eq_some]
    exact Or.inl h

theorem getElem?_requests_join {g : FlightGroup α β} {c : Nat} {q : Request β}
    (h : g.requests[c]? = some q) (key : String) (work : α) :
    (g.join key work).requests[c]? = some q := by
  unfold join
  split <;> exact getElem?_concat_eq_some.mpr (Or.inl h)

theorem cancel_not_waiting (q : Request β) (i : Nat) : q.cancel.state ≠ .waiting i := by
  unfold Request.cancel
  split
  · simp
  · rename_i h
    exact h i

theorem cancel_eq_or (q : Request β) : q.cancel = q ∨ q.cancel = ⟨q.key, .cancelled⟩ := by
  unfold Request.cancel
  split
  · exact Or.inr rfl
  · exact Or.inl rfl

/-- A caller that does not wait can no longer give up. -/
theorem cancel_of_not_waiting {q : Request β} (hq : ∀ i, q.state ≠ .waiting i) : q.cancel = q := by
  unfold Request.cancel
  split
  · rename_i i hi
    exact absurd hi (hq i)
  · rfl

theorem requests_cancel_of_some {g : FlightGroup α β} {c : Nat} {q : Request β}
    (h : g.requests[c]? = some q) (hq : ∀ i, q.state ≠ .waiting i) (d : Nat) :
    (g.cancel d).requests[c]? = some q := by
  rw [FlightGroup.cancel]
  by_cases hd : d = c
  · subst hd
    rw [List.getElem?_modify_eq, h]
    exact congrArg some (cancel_of_not_waiting hq)
  · rw [List.getElem?_modify_ne _ _ hd, h]

theorem mem_of_answered_cancel {g : FlightGroup α β} {c : Nat} {q : Request β}
    (hq : q ∈ (g.cancel c).requests) {x : Except DatabaseError β}
    (hx : q.state = .answered x) : q ∈ g.requests := by
  obtain ⟨j, hj⟩ := List.mem_iff_getElem?.mp hq
  simp only [FlightGroup.cancel, List.getElem?_modify] at hj
  obtain ⟨p, hp, rfl⟩ := Option.map_eq_some_iff.mp hj
  have hm := List.mem_of_getElem? hp
  split at hx
  · rename_i hc
    rw [if_pos hc]
    rcases cancel_eq_or p with h | h
    · rw [h]
      exact hm
    · rw [h] at hx
      cases hx
  · rename_i hc
    rw [if_neg hc]
    exact hm

theorem told_eq_or (i : Nat) (r : Except DatabaseError β) (q : Request β) :
    q.told i r = q ∧ q.state ≠ .waiting i ∨
      q.told i r = ⟨q.key, .answered r⟩ ∧ q.state = .waiting i := by
  unfold Request.told
  split
  · rename_i j hj
    split
    · rename_i hi
      exact Or.inr ⟨rfl, hi ▸ hj⟩
    · rename_i hi
      refine Or.inl ⟨rfl, ?_⟩
      rw [hj]
      exact fun h => hi (RequestState.waiting.inj h)
  · rename_i h
    exact Or.inl ⟨rfl, h i⟩

/-- Of the callers that are told an outcome, those that have waited for it have a new answer. -/
theorem answered_told {requests : List (Request β)} {i : Nat} {r : Except DatabaseError β}
    {q : Request β} (hq : q ∈ requests.map (Request.told i r)) {x : Except DatabaseError β}
    (hx : q.state = .answered x) :
    q ∈ requests ∨ x = r ∧ ∃ p ∈ requests, p.state = .waiting i ∧ p.key = q.key := by
  obtain ⟨p, hp, rfl⟩ := List.mem_map.mp hq
  rcases told_eq_or i r p with ⟨ht, -⟩ | ⟨ht, hw⟩
  · rw [ht]
    exact .inl hp
  · rw [ht] at hx ⊢
    cases hx
    exact .inr ⟨rfl, p, hp, hw, rfl⟩

theorem getElem?_modify_state {as : List (Attempt α β)} {i : Nat} {key : String} {w : α}
    {st : AttemptState β} (h : as[i]? = some ⟨key, w, st⟩) (st' : AttemptState β) (j : Nat) :
    (as.modify i fun a => { a with state := st' })[j]? =
      if i = j then some ⟨key, w, st'⟩ else as[j]? := by
  by_cases hj : i = j
  · subst hj
    rw [List.getElem?_modify_eq, h, if_pos rfl]
    rfl
  · rw [List.getElem?_modify_ne _ _ hj, if_neg hj]

theorem send_cases (g : FlightGroup α β) (i : Nat) (e : Ending β) :
    (∀ key w, g.attempts[i]? ≠ some ⟨key, w, .running⟩) ∧ g.send i e = g ∨
      ∃ key w, g.attempts[i]? = some ⟨key, w, .running⟩ ∧
        g.send i e = { g with
          attempts := g.attempts.modify i fun a => { a with state := .sent (e.outcome key) }
          requests := g.requests.map (Request.told i (e.outcome key)) } := by
  unfold send
  split
  · rename_i key w h
    exact Or.inr ⟨key, w, h, rfl⟩
  · rename_i h
    exact Or.inl ⟨h, rfl⟩

section Send
variable {g : FlightGroup α β} {i : Nat} {key : String} {w : α}

theorem send_of_running (h : g.attempts[i]? = some ⟨key, w, .running⟩) (e : Ending β) :
    g.send i e = { g with
      attempts := g.attempts.modify i fun a => { a with state := .sent (e.outcome key) }
      requests := g.requests.map (Request.told i (e.outcome key)) } := by
  simp only [send, h]

theorem attempts_send_self (h : g.attempts[i]? = some ⟨key, w, .running⟩) (e : Ending β) :
    (g.send i e).attempts[i]? = some ⟨key, w, .sent (e.outcome key)⟩ := by
  rw [send_of_running h, getElem?_modify_state h, if_pos rfl]

/-- Who waits for the attempt is told its outcome, and nobody else notices. -/
theorem requests_send (h : g.attempts[i]? = some ⟨key, w, .running⟩) (e : Ending β) {c : Nat}
    {q : Request β} (hc : g.requests[c]? = some q) :
    q.state = .waiting i ∧
        (g.send i e).requests[c]? = some ⟨q.key, .answered (e.outcome key)⟩ ∨
      q.state ≠ .waiting i ∧ (g.send i e).requests[c]? = some q := by
  rw [send_of_running h, List.getElem?_map, hc, Option.map_some]
  rcases told_eq_or i (e.outcome key) q with ⟨ht, hne⟩ | ⟨ht, hw⟩
  · exact Or.inr ⟨hne, by rw [ht]⟩
  · exact Or.inl ⟨hw, by rw [ht]⟩

end Send

theorem release_cases (g : FlightGroup α β) (i : Nat) :
    g.release i = g ∨
      ∃ key w r, g.attempts[i]? = some ⟨key, w, .sent r⟩ ∧
        g.release i = { g with
          attempts := g.attempts.modify i fun a => { a with state := .resolved r }
          inFlight := g.inFlight.filter fun entry => entry.1 != key } := by
  unfold release
  split
  · rename_i key w r h
    exact Or.inr ⟨key, w, r, h, rfl⟩
  · exact Or.inl rfl

theorem outcome_eq_some {st : AttemptState β} {x : Except DatabaseError β} :
    st.channel.outcome = some x ↔ st = .sent x ∨ st = .resolved x := by
  cases st <;> simp [AttemptState.channel]

/-- Once it has freed its key, an attempt with an outcome has resolved. -/
theorem attempts_release_self {g : FlightGroup α β} {i : Nat} {key : String} {w : α}
    {st : AttemptState β} {x : Except DatabaseError β} (h : g.attempts[i]? = some ⟨key, w, st⟩)
    (hx : st.channel.outcome = some x) :
    (g.release i).attempts[i]? = some ⟨key, w, .resolved x⟩ := by
  rcases outcome_eq_some.mp hx with rfl | rfl
  · simp [release, h]
  · simp [release, h]

end DatabaseTracing.FlightGroup
