import DatabaseTracing.Proofs.SingleFlight.Moves

/-! # Agreement of the callers of an attempt

The calls for a key fall into attempts. A call that finds no attempt for its key in
flight starts one, and its work is the one that is carried out; whoever calls before
the key is free again takes part in the same attempt, with work that is left alone.
All of them are told the one outcome that the attempt comes to, except those who
give up, and a call that comes later takes part in a later attempt.
-/
namespace DatabaseTracing.FlightGroup
variable {α β : Type}

def Flying (key : String) (a : Attempt α β) : Bool := a.key == key && a.state.holdsKey

def isFlying (g : FlightGroup α β) (key : String) : Bool := g.attempts.any (Flying key)

/-- The attempt that a call for the key takes part in: the one in flight, or the next to start. -/
def attemptFor (g : FlightGroup α β) (key : String) : Nat :=
  (g.attempts.findIdx? (Flying key)).getD g.attempts.length

/-- What a move sets going: the work of a call that finds no attempt for its key in flight. -/
def startedBy (g : FlightGroup α β) : Move α β → List (String × α)
  | .work key work => if g.isFlying key then [] else [(key, work)]
  | _ => []

def started (g : FlightGroup α β) : List (Move α β) → List (String × α)
  | [] => []
  | m :: ms => g.startedBy m ++ started (g.move m) ms

def works (g : FlightGroup α β) : List (String × α) := g.attempts.map fun a => (a.key, a.work)

theorem flying_iff {key : String} {a : Attempt α β} :
    Flying key a = true ↔ a.key = key ∧ a.state.holdsKey = true := by
  simp [Flying]

theorem holds_iff_flying {g : FlightGroup α β} {key : String} {i : Nat} :
    g.Holds key i ↔ ∃ a, g.attempts[i]? = some a ∧ Flying key a = true := by
  constructor
  · rintro ⟨w, st, ha, hst⟩
    exact ⟨_, ha, flying_iff.mpr ⟨rfl, hst⟩⟩
  · rintro ⟨⟨k, w, st⟩, ha, hf⟩
    obtain ⟨rfl, hst⟩ := flying_iff.mp hf
    exact ⟨w, st, ha, hst⟩

theorem isFlying_eq_false {g : FlightGroup α β} {key : String} :
    g.isFlying key = false ↔ ∀ i, ¬ g.Holds key i := by
  simp only [isFlying, List.any_eq_false, holds_iff_flying]
  constructor
  · rintro h i ⟨a, ha, hf⟩
    exact h a (List.mem_of_getElem? ha) hf
  · intro h a ha hf
    obtain ⟨i, hi⟩ := List.mem_iff_getElem?.mp ha
    exact h i ⟨a, hi, hf⟩

theorem attemptFor_of_not_flying {g : FlightGroup α β} {key : String}
    (h : g.isFlying key = false) : g.attemptFor key = g.attempts.length := by
  rw [attemptFor, List.findIdx?_eq_none_iff.mpr, Option.getD_none]
  intro a ha
  exact Bool.eq_false_iff.mpr (List.any_eq_false.mp h a ha)

theorem holds_attemptFor {g : FlightGroup α β} {key : String} (h : g.isFlying key = true) :
    g.Holds key (g.attemptFor key) := by
  obtain ⟨i, hi⟩ := Option.isSome_iff_exists.mp (List.findIdx?_isSome.trans h)
  obtain ⟨hlt, hf, -⟩ := List.findIdx?_eq_some_iff_getElem.mp hi
  rw [attemptFor, hi, Option.getD_some]
  exact holds_iff_flying.mpr ⟨_, List.getElem?_eq_getElem hlt, hf⟩

theorem Exact.attemptFor_eq {g : FlightGroup α β} (hg : g.Exact) {key : String} {i : Nat}
    (h : g.Holds key i) : g.attemptFor key = i := by
  have hf : g.isFlying key = true := by
    by_contra hn
    exact isFlying_eq_false.mp (Bool.eq_false_iff.mpr hn) i h
  exact hg.holds_unique (holds_attemptFor hf) h

theorem Exact.join_of_flying {g : FlightGroup α β} (hg : g.Exact) {key : String}
    (h : g.isFlying key = true) (work : α) : g.join key work =
      { g with requests := g.requests ++ [⟨key, g.standing key (g.attemptFor key)⟩] } := by
  rcases hg.join_cases key work with ⟨i, hi, he⟩ | ⟨hn, -⟩
  · rw [he, hg.attemptFor_eq hi]
  · exact absurd (holds_attemptFor h) (hn _)

theorem Exact.join_of_not_flying {g : FlightGroup α β} (hg : g.Exact) {key : String}
    (h : g.isFlying key = false) (work : α) : g.join key work =
      { attempts := g.attempts ++ [⟨key, work, .running⟩]
        inFlight := g.inFlight ++ [(key, g.attempts.length)]
        requests := g.requests ++ [⟨key, .waiting g.attempts.length⟩] } := by
  rcases hg.join_cases key work with ⟨i, hi, -⟩ | ⟨-, he⟩
  · exact absurd hi (isFlying_eq_false.mp h i)
  · exact he

theorem works_modify (as : List (Attempt α β)) (i : Nat) (st : AttemptState β) :
    (as.modify i fun a => { a with state := st }).map (fun a => (a.key, a.work)) =
      as.map fun a => (a.key, a.work) := by
  refine List.ext_getElem? fun j => ?_
  rw [List.getElem?_map, List.getElem?_map, List.getElem?_modify]
  cases as[j]? with
  | none => rfl
  | some a => by_cases hj : i = j <;> simp [hj]

theorem Exact.works_move {g : FlightGroup α β} (hg : g.Exact) (m : Move α β) :
    (g.move m).works = g.works ++ g.startedBy m := by
  cases m with
  | work key work =>
    rw [FlightGroup.move, startedBy]
    cases h : g.isFlying key with
    | true => simp [hg.join_of_flying h, works]
    | false => simp [hg.join_of_not_flying h, works]
  | send i e =>
    change (g.send i e).works = g.works ++ []
    rw [List.append_nil]
    rcases send_cases g i e with ⟨-, he⟩ | ⟨_, _, _, he⟩ <;> rw [he]
    exact works_modify ..
  | release i =>
    change (g.release i).works = g.works ++ []
    rw [List.append_nil]
    rcases release_cases g i with he | ⟨_, _, _, _, he⟩ <;> rw [he]
    exact works_modify ..
  | cancel c => simp [FlightGroup.move, startedBy, FlightGroup.cancel, works]

theorem Exact.works_moves {g : FlightGroup α β} (hg : g.Exact) (ms : List (Move α β)) :
    (g.moves ms).works = g.works ++ started g ms := by
  induction ms generalizing g with
  | nil => simp [started]
  | cons m ms ih => rw [moves_cons, ih (hg.move m), hg.works_move, started, List.append_assoc]

/-- The caller waits for the attempt while it runs, and has been told its outcome afterwards. -/
def Served (g : FlightGroup α β) (i : Nat) (key : String) (c : Nat) : Prop :=
  (∃ w, g.attempts[i]? = some ⟨key, w, .running⟩) ∧ g.requests[c]? = some ⟨key, .waiting i⟩ ∨
    ∃ w st x, g.attempts[i]? = some ⟨key, w, st⟩ ∧ st.channel.outcome = some x ∧
      g.requests[c]? = some ⟨key, .answered x⟩

theorem requests_move_of_some {g : FlightGroup α β} {c : Nat} {q : Request β}
    (h : g.requests[c]? = some q) (hq : ∀ i, q.state ≠ .waiting i) (m : Move α β) :
    (g.move m).requests[c]? = some q := by
  cases m with
  | work key work => exact getElem?_requests_join h key work
  | cancel d => exact requests_cancel_of_some h hq d
  | send i e =>
    rw [move]
    rcases send_cases g i e with ⟨-, he⟩ | ⟨key, w, -, he⟩ <;> rw [he]
    · exact h
    · rcases told_eq_or i (e.outcome key) q with ⟨ht, -⟩ | ⟨-, hw⟩
      · rw [List.getElem?_map, h, Option.map_some, ht]
      · exact absurd hw (hq i)
  | release i =>
    rw [move]
    rcases release_cases g i with he | ⟨_, _, _, _, he⟩ <;> rw [he] <;> exact h

theorem requests_moves_of_some {g : FlightGroup α β} {c : Nat} {q : Request β}
    (h : g.requests[c]? = some q) (hq : ∀ i, q.state ≠ .waiting i) (ms : List (Move α β)) :
    (g.moves ms).requests[c]? = some q := by
  induction ms generalizing g with
  | nil => exact h
  | cons m ms ih => exact ih (requests_move_of_some h hq m)

theorem served_send {g : FlightGroup α β} {i c : Nat} {key : String} {w : α}
    (ha : g.attempts[i]? = some ⟨key, w, .running⟩) (hc : g.requests[c]? = some ⟨key, .waiting i⟩)
    (j : Nat) (e : Ending β) : (g.send j e).Served i key c := by
  rcases send_cases g j e with ⟨-, he⟩ | ⟨k, v, hj, he⟩ <;> rw [he]
  · exact Or.inl ⟨⟨w, ha⟩, hc⟩
  · by_cases hji : j = i
    · subst hji
      rw [ha] at hj
      cases hj
      refine Or.inr ⟨w, .sent (e.outcome key), e.outcome key, ?_, rfl, ?_⟩
      · rw [getElem?_modify_state ha, if_pos rfl]
      · rw [List.getElem?_map, hc]
        simp [Request.told]
    · refine Or.inl ⟨⟨w, ?_⟩, ?_⟩
      · rw [List.getElem?_modify_ne _ _ hji, ha]
      · rw [List.getElem?_map, hc]
        simp [Request.told, Ne.symm hji]

theorem served_release {g : FlightGroup α β} {i c : Nat} {key : String} {w : α}
    (ha : g.attempts[i]? = some ⟨key, w, .running⟩) (hc : g.requests[c]? = some ⟨key, .waiting i⟩)
    (j : Nat) : (g.release j).Served i key c := by
  rcases release_cases g j with he | ⟨k, v, r, hj, he⟩ <;> rw [he]
  · exact Or.inl ⟨⟨w, ha⟩, hc⟩
  · have hji : j ≠ i := by
      rintro rfl
      rw [ha] at hj
      cases hj
    refine Or.inl ⟨⟨w, ?_⟩, hc⟩
    rw [List.getElem?_modify_ne _ _ hji, ha]

theorem Served.move {g : FlightGroup α β} {i c : Nat} {key : String} (h : g.Served i key c)
    (m : Move α β) :
    (g.move m).Served i key c ∨
      m = .cancel c ∧ (g.move m).requests[c]? = some ⟨key, .cancelled⟩ := by
  rcases h with ⟨⟨w, ha⟩, hc⟩ | ⟨w, st, x, ha, hx, hc⟩
  · cases m with
    | work k work =>
      exact Or.inl (Or.inl ⟨⟨w, attempts_join_of_some ha k work⟩, getElem?_requests_join hc k work⟩)
    | send j e => exact Or.inl (served_send ha hc j e)
    | release j => exact Or.inl (served_release ha hc j)
    | cancel d =>
      by_cases hd : d = c
      · subst hd
        refine Or.inr ⟨rfl, ?_⟩
        rw [FlightGroup.move, FlightGroup.cancel, List.getElem?_modify_eq, hc]
        rfl
      · refine Or.inl (Or.inl ⟨⟨w, ha⟩, ?_⟩)
        rw [FlightGroup.move, FlightGroup.cancel, List.getElem?_modify_ne _ _ hd, hc]
  · obtain ⟨st', hst, hx'⟩ := attempts_move_of_some ha m
    exact Or.inl (Or.inr ⟨w, st', x, hst, hx' x hx, requests_move_of_some hc (by simp) m⟩)

theorem Served.moves {g : FlightGroup α β} {i c : Nat} {key : String} (h : g.Served i key c)
    (ms : List (Move α β)) :
    (g.moves ms).Served i key c ∨
      .cancel c ∈ ms ∧ (g.moves ms).requests[c]? = some ⟨key, .cancelled⟩ := by
  induction ms generalizing g with
  | nil => exact Or.inl h
  | cons m ms ih =>
    rcases h.move m with h | ⟨rfl, h⟩
    · rcases ih h with h | ⟨hc, h⟩
      · exact Or.inl h
      · exact Or.inr ⟨List.mem_cons_of_mem _ hc, h⟩
    · exact Or.inr ⟨List.mem_cons_self, requests_moves_of_some h (by simp) ms⟩

theorem Served.answer {g : FlightGroup α β} {i c : Nat} {key : String} (h : g.Served i key c)
    (k : String) (r : Except DatabaseError β) : (g.answer k r).Served i key c := by
  rcases h with ⟨ha, hc⟩ | ⟨w, st, x, ha, hx, hc⟩
  · exact .inl ⟨ha, getElem?_concat_eq_some.mpr (.inl hc)⟩
  · exact .inr ⟨w, st, x, ha, hx, getElem?_concat_eq_some.mpr (.inl hc)⟩

theorem Exact.served_join {g : FlightGroup α β} (hg : g.Exact) (key : String) (work : α) :
    (g.join key work).Served (g.attemptFor key) key g.requests.length := by
  have hlast : ∀ q : Request β, (g.requests ++ [q])[g.requests.length]? = some q := by simp
  cases h : g.isFlying key with
  | true =>
    rw [hg.join_of_flying h]
    rcases hg.standing_cases (holds_attemptFor h) with ⟨hr, hs⟩ | ⟨w, r, hr, hs⟩ <;> rw [hs]
    · exact Or.inl ⟨hr, hlast _⟩
    · exact Or.inr ⟨w, .sent r, r, hr, rfl, hlast _⟩
  | false =>
    rw [hg.join_of_not_flying h, attemptFor_of_not_flying h]
    exact Or.inl ⟨⟨work, by simp⟩, hlast _⟩

theorem Exact.key_of_waiting {g : FlightGroup α β} (hg : g.Exact) {i : Nat} {key : String} {w : α}
    (h : g.attempts[i]? = some ⟨key, w, .running⟩) {q : Request β} (hq : q ∈ g.requests)
    (hw : q.state = .waiting i) : q.key = key := by
  obtain ⟨v, hv⟩ := hg.waiting q hq i hw
  rw [h] at hv
  cases hv
  rfl

/-- No other attempt has the key that is freed. -/
theorem Exact.not_flying_release {g : FlightGroup α β} (hg : g.Exact) {i : Nat} {key : String}
    {w : α} {r : Except DatabaseError β} (h : g.attempts[i]? = some ⟨key, w, .sent r⟩) :
    (g.release i).isFlying key = false := by
  have hmod : (g.release i).attempts =
      g.attempts.modify i fun a => { a with state := .resolved r } := by simp [FlightGroup.release, h]
  refine isFlying_eq_false.mpr fun j hj => ?_
  rw [holds_of_modify h hmod] at hj
  split at hj
  · cases hj.2
  · rename_i hij
    exact hij (hg.holds_unique ⟨w, _, h, rfl⟩ hj)

/-- The calls of a history agree. A call is numbered by the requests that were there before it. -/
structure Agreement (ms : List (Move α β)) : Prop where
  /-- The works of the calls that found no attempt for their key in flight are carried out, each
  once and in order, and no others. -/
  works : (after ms).works = started empty ms
  /-- Such a call starts an attempt with its own work. -/
  starts : ∀ ms₁ key work ms₂, ms = ms₁ ++ .work key work :: ms₂ →
    (after ms₁).isFlying key = false →
    (after (ms₁ ++ [.work key work])).attempts = (after ms₁).attempts ++ [⟨key, work, .running⟩]
  /-- Any other call takes part in the attempt that is in flight and starts none. -/
  joins : ∀ ms₁ key work ms₂, ms = ms₁ ++ .work key work :: ms₂ →
    (after ms₁).isFlying key = true →
    (after ms₁).Holds key ((after ms₁).attemptFor key) ∧
      (after (ms₁ ++ [.work key work])).attempts = (after ms₁).attempts
  /-- A call waits while its attempt runs, and is told its outcome, unless the caller gives up. -/
  told : ∀ ms₁ key work ms₂, ms = ms₁ ++ .work key work :: ms₂ →
    (after ms).Served ((after ms₁).attemptFor key) key (after ms₁).requests.length ∨
      .cancel (after ms₁).requests.length ∈ ms₂ ∧
        (after ms).requests[(after ms₁).requests.length]? = some ⟨key, .cancelled⟩
  /-- Who waits does so on an attempt for the key that still runs. -/
  waits : ∀ q ∈ (after ms).requests, ∀ i, q.state = .waiting i →
    ∃ w, (after ms).attempts[i]? = some ⟨q.key, w, .running⟩
  /-- An attempt whose work ends comes to the outcome of the work, and all who wait for it are told
  this one outcome. -/
  sends : ∀ i key w e, (after ms).attempts[i]? = some ⟨key, w, .running⟩ →
    (after (ms ++ [.send i e])).attempts[i]? = some ⟨key, w, .sent (e.outcome key)⟩ ∧
      ∀ (c : Nat) (q : Request β), (after ms).requests[c]? = some q →
        q.state = .waiting i ∧ (after (ms ++ [.send i e])).requests[c]? =
            some ⟨key, .answered (e.outcome key)⟩ ∨
          q.state ≠ .waiting i ∧ (after (ms ++ [.send i e])).requests[c]? = some q
  /-- The outcome of an attempt is what its own work ended with. -/
  outcome : ∀ i key w st x, (after ms).attempts[i]? = some ⟨key, w, st⟩ →
    st.channel.outcome = some x →
    ∃ ms₁ e ms₂, ms = ms₁ ++ .send i e :: ms₂ ∧
      (after ms₁).attempts[i]? = some ⟨key, w, .running⟩ ∧ x = e.outcome key
  /-- Once the attempt has freed its key, nothing is in flight for the key. -/
  releases : ∀ i key w r, (after ms).attempts[i]? = some ⟨key, w, .sent r⟩ →
    (after (ms ++ [.release i])).attempts[i]? = some ⟨key, w, .resolved r⟩ ∧
      (after (ms ++ [.release i])).isFlying key = false
  /-- A call takes part in no attempt whose key was free before it came. -/
  fresh : ∀ ms₁ key work ms₂, ms = ms₁ ++ .work key work :: ms₂ →
    ∀ i k w r, (after ms₁).attempts[i]? = some ⟨k, w, .resolved r⟩ →
      (after ms₁).attemptFor key ≠ i

theorem agreement (ms : List (Move α β)) : Agreement ms where
  works := by
    rw [after, exact_empty.works_moves]
    rfl
  starts := by
    intro ms₁ key work ms₂ _ h
    rw [after, moves_append, moves_cons, moves_nil, move, (exact_after ms₁).join_of_not_flying h]
  joins := by
    intro ms₁ key work ms₂ _ h
    refine ⟨holds_attemptFor h, ?_⟩
    rw [after, moves_append, moves_cons, moves_nil, move, (exact_after ms₁).join_of_flying h]
  told := by
    rintro ms₁ key work ms₂ rfl
    rw [after, moves_append, moves_cons]
    exact ((exact_after ms₁).served_join key work).moves ms₂
  waits := (exact_after ms).waiting
  sends := by
    intro i key w e ha
    rw [after, moves_append]
    refine ⟨attempts_send_self ha e, fun c q hc => ?_⟩
    rcases requests_send ha e hc with ⟨hw, he⟩ | h
    · exact Or.inl ⟨hw, (exact_after ms).key_of_waiting ha (List.mem_of_getElem? hc) hw ▸ he⟩
    · exact Or.inr h
  outcome _ _ _ _ _ := outcome_moves ms
  releases := by
    intro i key w r ha
    rw [after, moves_append]
    exact ⟨attempts_release_self ha rfl, (exact_after ms).not_flying_release ha⟩
  fresh := by
    rintro ms₁ key work ms₂ - i k w r ha rfl
    cases h : (after ms₁).isFlying key with
    | true =>
      obtain ⟨-, hst⟩ := (holds_iff ha).mp (holds_attemptFor h)
      cases hst
    | false =>
      rw [attemptFor_of_not_flying h, List.getElem?_eq_none (Nat.le_refl _)] at ha
      cases ha

/-- The starter gives up, and the third call comes between the outcome and the release. -/
example :
    let g := (empty : FlightGroup String Nat).moves
      [.work "k" "a", .work "k" "b", .cancel 0, .send 0 (.returned (.ok 7)), .work "k" "c",
        .release 0, .work "k" "d"]
    g.works = [("k", "a"), ("k", "d")] ∧ g.requests.map (·.state) =
      [.cancelled, .answered (.ok 7), .answered (.ok 7), .waiting 1] :=
  ⟨rfl, rfl⟩

end DatabaseTracing.FlightGroup
