import DatabaseTracing.Proofs.SingleFlight.Moves

/-! # Callers that give up

An attempt does not belong to the callers that wait for it. Two histories that differ
only in which of the callers give up have the same attempts and the same table at
every point, and all other callers fare the same in both.
-/
namespace DatabaseTracing

/-- The requests are the same, but that those of `P` may have been given up in the first list. -/
structure Request.SameBut {β : Type} (P : Nat → Prop) (qs rs : List (Request β)) : Prop where
  length : qs.length = rs.length
  each : ∀ c q r, qs[c]? = some q → rs[c]? = some r → q = r ∨ P c ∧ q = ⟨r.key, .cancelled⟩

namespace Request.SameBut
variable {β : Type} {P : Nat → Prop} {qs rs : List (Request β)}

theorem refl (P : Nat → Prop) (qs : List (Request β)) : SameBut P qs qs := by
  refine ⟨rfl, fun c q r hq hr => Or.inl ?_⟩
  rw [hq] at hr
  exact Option.some.inj hr

theorem append (h : SameBut P qs rs) (q : Request β) : SameBut P (qs ++ [q]) (rs ++ [q]) := by
  refine ⟨by simp [h.length], fun c a b ha hb => ?_⟩
  rcases getElem?_concat_eq_some.mp ha with ha | ⟨hc, rfl⟩
  · rcases getElem?_concat_eq_some.mp hb with hb | ⟨hc, -⟩
    · exact h.each c a b ha hb
    · have hlt := (List.getElem?_eq_some_iff.mp ha).1
      have hlength := h.length
      omega
  · rw [hc, h.length, List.getElem?_concat_length] at hb
    exact Or.inl (Option.some.inj hb)

/-- Whoever waits in both lists is told the same. -/
theorem told (h : SameBut P qs rs) (i : Nat) (x : Except DatabaseError β) :
    SameBut P (qs.map (Request.told i x)) (rs.map (Request.told i x)) := by
  refine ⟨by simp [h.length], fun c a b ha hb => ?_⟩
  rw [List.getElem?_map] at ha hb
  obtain ⟨q, hq, rfl⟩ := Option.map_eq_some_iff.mp ha
  obtain ⟨r, hr, rfl⟩ := Option.map_eq_some_iff.mp hb
  rcases h.each c q r hq hr with rfl | ⟨hc, rfl⟩
  · exact Or.inl rfl
  · refine Or.inr ⟨hc, ?_⟩
    rcases FlightGroup.told_eq_or i x r with ⟨ht, -⟩ | ⟨ht, -⟩ <;> rw [ht] <;> rfl

theorem cancel (h : SameBut P qs rs) (c : Nat) :
    SameBut P (qs.modify c Request.cancel) (rs.modify c Request.cancel) := by
  refine ⟨by simp [h.length], fun d a b ha hb => ?_⟩
  rw [List.getElem?_modify] at ha hb
  obtain ⟨q, hq, rfl⟩ := Option.map_eq_some_iff.mp ha
  obtain ⟨r, hr, rfl⟩ := Option.map_eq_some_iff.mp hb
  rcases h.each d q r hq hr with rfl | ⟨hd, rfl⟩
  · exact Or.inl rfl
  · refine Or.inr ⟨hd, ?_⟩
    split
    · rcases FlightGroup.cancel_eq_or r with he | he <;> rw [he] <;> rfl
    · rfl

theorem cancel_left (h : SameBut P qs rs) {c : Nat} (hc : P c) :
    SameBut P (qs.modify c Request.cancel) rs := by
  refine ⟨by simp [h.length], fun d a r ha hr => ?_⟩
  rw [List.getElem?_modify] at ha
  obtain ⟨q, hq, rfl⟩ := Option.map_eq_some_iff.mp ha
  split
  · rename_i hd
    subst hd
    rcases h.each c q r hq hr with rfl | ⟨-, rfl⟩
    · exact (FlightGroup.cancel_eq_or q).imp_right fun he => ⟨hc, he⟩
    · exact Or.inr ⟨hc, rfl⟩
  · exact h.each d q r hq hr

end Request.SameBut

namespace FlightGroup
variable {α β : Type}

def Move.givesUp (who : Nat → Bool) : Move α β → Bool
  | .cancel c => who c
  | _ => false

/-- The history in which the callers of `who` wait on where they gave up. -/
def patient (who : Nat → Bool) (ms : List (Move α β)) : List (Move α β) :=
  ms.filter fun m => !m.givesUp who

/-- The groups are the same, but that callers of `P` may have given up in the first one. -/
structure SameBut (P : Nat → Prop) (g g' : FlightGroup α β) : Prop where
  attempts : g'.attempts = g.attempts
  inFlight : g'.inFlight = g.inFlight
  requests : Request.SameBut P g.requests g'.requests

namespace SameBut
variable {P : Nat → Prop} {g g' : FlightGroup α β}

theorem refl (P : Nat → Prop) (g : FlightGroup α β) : SameBut P g g := ⟨rfl, rfl, .refl P _⟩

theorem answer (h : SameBut P g g') (key : String) (x : Except DatabaseError β) :
    SameBut P (g.answer key x) (g'.answer key x) :=
  ⟨h.attempts, h.inFlight, h.requests.append _⟩

theorem join (h : SameBut P g g') (key : String) (work : α) :
    SameBut P (g.join key work) (g'.join key work) := by
  have hstanding : ∀ i, g'.standing key i = g.standing key i := fun i => by
    rw [standing, standing, state?, state?, h.attempts]
  unfold FlightGroup.join
  rw [h.inFlight]
  split
  · rw [hstanding]
    exact ⟨h.attempts, rfl, h.requests.append _⟩
  · rw [h.attempts]
    exact ⟨rfl, rfl, h.requests.append _⟩

theorem send (h : SameBut P g g') (i : Nat) (e : Ending β) : SameBut P (g.send i e) (g'.send i e) := by
  unfold FlightGroup.send
  rw [h.attempts]
  split
  · exact ⟨rfl, h.inFlight, h.requests.told i _⟩
  · exact h

theorem release (h : SameBut P g g') (i : Nat) : SameBut P (g.release i) (g'.release i) := by
  unfold FlightGroup.release
  rw [h.attempts, h.inFlight]
  split
  · exact ⟨rfl, rfl, h.requests⟩
  · exact h

theorem cancel (h : SameBut P g g') (c : Nat) : SameBut P (g.cancel c) (g'.cancel c) :=
  ⟨h.attempts, h.inFlight, h.requests.cancel c⟩

theorem cancel_left (h : SameBut P g g') {c : Nat} (hc : P c) : SameBut P (g.cancel c) g' :=
  ⟨h.attempts, h.inFlight, h.requests.cancel_left hc⟩

theorem move (h : SameBut P g g') (m : Move α β) : SameBut P (g.move m) (g'.move m) := by
  cases m with
  | work key work => exact h.join key work
  | send i e => exact h.send i e
  | release i => exact h.release i
  | cancel c => exact h.cancel c

end SameBut

/-- Where one group takes part in a cancellation and the other does not, they stay the same but for
the caller. -/
theorem SameBut.moves {P : Nat → Prop} {g g' : FlightGroup α β} (h : SameBut P g g')
    (who : Nat → Bool) {ms : List (Move α β)} (hP : ∀ c, who c = true → .cancel c ∈ ms → P c) :
    SameBut P (g.moves ms) (g'.moves (patient who ms)) := by
  induction ms generalizing g g' with
  | nil => exact h
  | cons m ms ih =>
    have hrest : ∀ c, who c = true → .cancel c ∈ ms → P c := fun c hc hm =>
      hP c hc (List.mem_cons_of_mem _ hm)
    cases hm : m.givesUp who with
    | false =>
      rw [patient, List.filter_cons_of_pos (by simp [hm])]
      exact ih (h.move m) hrest
    | true =>
      rw [patient, List.filter_cons_of_neg (by simp [hm])]
      cases m with
      | cancel c => exact ih (h.cancel_left (hP c hm List.mem_cons_self)) hrest
      | work | send | release => cases hm

theorem SameBut.others {P : Nat → Prop} {g g' : FlightGroup α β} (h : SameBut P g g') {c : Nat}
    (hc : ¬ P c) : g'.requests[c]? = g.requests[c]? := by
  cases hq : g.requests[c]? with
  | none =>
    rw [List.getElem?_eq_none_iff] at hq ⊢
    rw [← h.requests.length]
    exact hq
  | some q =>
    have hlt : c < g'.requests.length :=
      h.requests.length ▸ (List.getElem?_eq_some_iff.mp hq).1
    have hr := List.getElem?_eq_getElem hlt
    rcases h.requests.each c q _ hq hr with he | ⟨hp, -⟩
    · rw [hr, he]
    · exact absurd hp hc

theorem attempts_moves_of_some {g : FlightGroup α β} {i : Nat} {a : Attempt α β}
    (h : g.attempts[i]? = some a) (ms : List (Move α β)) :
    ∃ st, (g.moves ms).attempts[i]? = some ⟨a.key, a.work, st⟩ ∧
      ∀ x, a.state.channel.outcome = some x → st.channel.outcome = some x := by
  induction ms generalizing g a with
  | nil => exact ⟨a.state, h, fun _ hx => hx⟩
  | cons m ms ih =>
    obtain ⟨st, hst, hx⟩ := attempts_move_of_some h m
    obtain ⟨st', hst', hx'⟩ := ih hst
    exact ⟨st', hst', fun x ha => hx' x (hx x ha)⟩

theorem Exact.not_mem_table {g : FlightGroup α β} (hg : g.Exact) {i : Nat} {key : String} {w : α}
    {x : Except DatabaseError β} (h : g.attempts[i]? = some ⟨key, w, .resolved x⟩) :
    (key, i) ∉ g.inFlight := by
  intro hm
  obtain ⟨-, hh⟩ := (holds_iff h).mp ((hg.entry key i).mp hm)
  cases hh

/-- The callers of `P` may have given up in `g` and not in `g'`, and nothing else tells the groups
apart. -/
structure Unaffected (P : Nat → Prop) (g g' : FlightGroup α β) : Prop where
  /-- The same attempts have been started, with the same work, and have come to the same. -/
  attempts : g'.attempts = g.attempts
  table : g'.inFlight = g.inFlight
  callers : g'.requests.length = g.requests.length
  others : ∀ c, ¬ P c → g'.requests[c]? = g.requests[c]?
  quitters : ∀ (c : Nat) (q r : Request β), g.requests[c]? = some q → g'.requests[c]? = some r →
    q = r ∨ q = ⟨r.key, .cancelled⟩

theorem SameBut.unaffected {P : Nat → Prop} {g g' : FlightGroup α β} (h : SameBut P g g') :
    Unaffected P g g' where
  attempts := h.attempts
  table := h.inFlight
  callers := h.requests.length.symm
  others := fun _ hc => h.others hc
  quitters := fun c q r hq hr => (h.requests.each c q r hq hr).imp_right And.right

/-- An attempt that runs in `g` resolves and frees its key once its work ends, also if nobody waits
for it, and whatever comes in between. -/
def Outlives (g : FlightGroup α β) : Prop :=
  ∀ (i : Nat) (key : String) (w : α), g.attempts[i]? = some ⟨key, w, .running⟩ →
    ∀ (e : Ending β) (ms : List (Move α β)),
      (g.moves (.send i e :: (ms ++ [.release i]))).attempts[i]? =
          some ⟨key, w, .resolved (e.outcome key)⟩ ∧
        (key, i) ∉ (g.moves (.send i e :: (ms ++ [.release i]))).inFlight

theorem Exact.outlives {g : FlightGroup α β} (hg : g.Exact) : g.Outlives := by
  intro i key w h e ms
  obtain ⟨st, hst, hx⟩ := attempts_moves_of_some (attempts_send_self h e) ms
  have hmoves : g.moves (.send i e :: (ms ++ [.release i])) =
      (((g.send i e).moves ms).release i) := by
    rw [moves_cons, moves_append]
    rfl
  have hresolved := attempts_release_self hst (hx _ rfl)
  rw [hmoves]
  exact ⟨hresolved, (((hg.send i e).moves ms).release i).not_mem_table hresolved⟩

end FlightGroup
end DatabaseTracing
