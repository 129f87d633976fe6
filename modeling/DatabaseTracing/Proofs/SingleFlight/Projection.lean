import DatabaseTracing.Proofs.SingleFlight.Moves

/-! # One key of a group

What a group holds for one key is again a group: its attempts and requests, numbered
among themselves. Each move of the group either makes the same move there, under the
new numbers, or belongs to another key and leaves it as it is.
-/
namespace DatabaseTracing

/-- The number of positions before `i` at which the name stands. -/
def rank (name : String) (names : List String) (i : Nat) : Nat := (names.take i).count name

/-- The position of an entry among those of its name, if it has this name. -/
def rank? (name : String) (names : List String) (i : Nat) : Option Nat :=
  if names[i]? = some name then some (rank name names i) else none

theorem rank?_eq_some {name : String} {names : List String} {i n : Nat} :
    rank? name names i = some n ↔ names[i]? = some name ∧ rank name names i = n := by
  unfold rank?
  split <;> simp_all

theorem rank?_eq_none {name : String} {names : List String} {i : Nat} :
    rank? name names i = none ↔ names[i]? ≠ some name := by
  unfold rank?
  split <;> simp_all

theorem rank_append {name : String} {names : List String} {i : Nat} (h : i ≤ names.length)
    (more : List String) : rank name (names ++ more) i = rank name names i := by
  rw [rank, rank, List.take_append_of_le_length h]

theorem rank_length (name : String) (names : List String) :
    rank name names names.length = names.count name := by
  rw [rank, List.take_length]

theorem rank_lt_rank {name : String} {names : List String} {i j : Nat} (hi : names[i]? = some name)
    (hij : i < j) : rank name names i < rank name names j := by
  have hsucc : rank name names (i + 1) = rank name names i + 1 := by
    rw [rank, rank, List.take_add_one, hi, Option.toList_some, List.count_append,
      List.count_singleton_self]
  have hmono : rank name names (i + 1) ≤ rank name names j :=
    ((List.take_prefix_take_left (by omega)).sublist).count_le name
  omega

theorem rank_inj {name : String} {names : List String} {i j : Nat} (hi : names[i]? = some name)
    (hj : names[j]? = some name) : rank name names i = rank name names j ↔ i = j := by
  constructor
  · intro h
    rcases Nat.lt_trichotomy i j with hlt | heq | hlt
    · have := rank_lt_rank hi hlt
      omega
    · exact heq
    · have := rank_lt_rank hj hlt
      omega
  · rintro rfl
    rfl

section Filter
variable {γ : Type} (key : γ → String) {name : String}

/-- An entry stands at its rank among those of its name. -/
theorem getElem?_filter_rank {l : List γ} {i : Nat} {a : γ} (h : l[i]? = some a)
    (ha : key a = name) :
    (l.filter fun b => key b == name)[rank name (l.map key) i]? = some a := by
  induction l generalizing i with
  | nil => cases h
  | cons b l ih =>
    cases i with
    | zero =>
      cases h
      simp [rank, ha]
    | succ i =>
      rw [List.getElem?_cons_succ] at h
      by_cases hb : key b = name
      · simpa [rank, hb] using ih h
      · simpa [rank, hb] using ih h

variable {f : γ → γ}

theorem map_key_modify (hf : ∀ a, key (f a) = key a) (l : List γ) (i : Nat) :
    (l.modify i f).map key = l.map key := by
  rw [map_modify (h := id) hf, List.modify_id]

theorem filter_modify_self (hf : ∀ a, key (f a) = key a) {l : List γ} {i : Nat}
    (h : (l.map key)[i]? = some name) :
    (l.modify i f).filter (fun b => key b == name) =
      (l.filter fun b => key b == name).modify (rank name (l.map key) i) f := by
  induction l generalizing i with
  | nil => cases h
  | cons b l ih =>
    cases i with
    | zero =>
      have hb : key b = name := by simpa using h
      simp [rank, hf, hb]
    | succ i =>
      have hrest := ih (i := i) (by simpa using h)
      by_cases hb : key b = name
      · simpa [rank, hb] using hrest
      · simpa [rank, hb] using hrest

theorem filter_modify_other (hf : ∀ a, key (f a) = key a) {l : List γ} {i : Nat}
    (h : (l.map key)[i]? ≠ some name) :
    (l.modify i f).filter (fun b => key b == name) = l.filter fun b => key b == name := by
  induction l generalizing i with
  | nil => simp
  | cons b l ih =>
    cases i with
    | zero =>
      have hb : key b ≠ name := by simpa using h
      simp [hf, hb]
    | succ i =>
      rw [List.modify_succ_cons, List.filter_cons, List.filter_cons, ih (by simpa using h)]

end Filter

/-- The attempt that a caller waits for gets a new number. -/
def Request.renumber {β : Type} (f : Nat → Nat) (q : Request β) : Request β :=
  match q.state with
  | .waiting i => { q with state := .waiting (f i) }
  | _ => q

namespace FlightGroup
variable {α β : Type} {name : String}

def attemptKeys (g : FlightGroup α β) : List String := g.attempts.map Attempt.key

def requestKeys (g : FlightGroup α β) : List String := g.requests.map Request.key

/-- What the group holds for one key, with attempts and requests numbered anew. -/
def project (name : String) (g : FlightGroup α β) : FlightGroup α β where
  attempts := g.attempts.filter fun a => a.key == name
  inFlight :=
    (g.inFlight.filter fun e => e.1 == name).map fun e => (e.1, rank name g.attemptKeys e.2)
  requests :=
    (g.requests.filter fun q => q.key == name).map (Request.renumber (rank name g.attemptKeys))

theorem attemptKeys_eq_some {g : FlightGroup α β} {i : Nat} {key : String} {w : α}
    {st : AttemptState β} (h : g.attempts[i]? = some ⟨key, w, st⟩) :
    g.attemptKeys[i]? = some key := by
  rw [attemptKeys, List.getElem?_map, h]
  rfl

theorem attempts_project {g : FlightGroup α β} {i : Nat} (h : g.attemptKeys[i]? = some name) :
    (g.project name).attempts[rank name g.attemptKeys i]? = g.attempts[i]? := by
  rw [attemptKeys, List.getElem?_map, Option.map_eq_some_iff] at h
  obtain ⟨a, ha, hkey⟩ := h
  rw [ha]
  exact getElem?_filter_rank Attempt.key ha hkey

theorem attemptKeys_modify (g : FlightGroup α β) (i : Nat) (st : AttemptState β) :
    (g.attempts.modify i fun a => { a with state := st }).map Attempt.key = g.attemptKeys :=
  map_key_modify Attempt.key (f := fun a => { a with state := st }) (fun _ => rfl) g.attempts i

/-- Only the ranks of attempts that are waited for matter to the requests. -/
theorem renumber_congr {g : FlightGroup α β} {f f' : Nat → Nat}
    (h : ∀ q ∈ g.requests, q.key = name → ∀ i, q.state = .waiting i → f i = f' i) :
    (g.requests.filter fun q => q.key == name).map (Request.renumber f) =
      (g.requests.filter fun q => q.key == name).map (Request.renumber f') := by
  refine List.map_congr_left fun q hq => ?_
  obtain ⟨hm, hk⟩ := List.mem_filter.mp hq
  rcases q with ⟨k, i | r | _⟩
  · simp only [Request.renumber, h _ hm (beq_iff_eq.mp hk) i rfl]
  · rfl
  · rfl

theorem project_answer_self (g : FlightGroup α β) (r : Except DatabaseError β) :
    (g.answer name r).project name = (g.project name).answer name r := by
  simp [project, answer, attemptKeys, Request.renumber]

theorem project_answer_other (g : FlightGroup α β) {key : String} (h : key ≠ name)
    (r : Except DatabaseError β) : (g.answer key r).project name = g.project name := by
  simp [project, answer, attemptKeys, h]

theorem lookup_project (g : FlightGroup α β) :
    (g.project name).inFlight.lookup name =
      (g.inFlight.lookup name).map (rank name g.attemptKeys) := by
  unfold project
  induction g.inFlight with
  | nil => rfl
  | cons e l ih =>
    rcases e with ⟨k, i⟩
    by_cases hk : k = name
    · simp [hk]
    · have hne : (name == k) = false := beq_eq_false_iff_ne.mpr (Ne.symm hk)
      simpa [hk, List.lookup_cons, hne] using ih

section Exact
variable {g : FlightGroup α β}

theorem Exact.attemptKeys_of_lookup (hg : g.Exact) {key : String} {i : Nat}
    (h : g.inFlight.lookup key = some i) : g.attemptKeys[i]? = some key := by
  obtain ⟨w, st, ha, -⟩ := hg.lookup.mp h
  exact attemptKeys_eq_some ha

theorem Exact.attemptKeys_of_waiting (hg : g.Exact) {q : Request β} (hq : q ∈ g.requests) {i : Nat}
    (hw : q.state = .waiting i) : g.attemptKeys[i]? = some q.key := by
  obtain ⟨w, ha⟩ := hg.waiting q hq i hw
  exact attemptKeys_eq_some ha

theorem rank_append_of_some {i : Nat} {key : String} (h : g.attemptKeys[i]? = some key)
    (more : List String) : rank name (g.attemptKeys ++ more) i = rank name g.attemptKeys i :=
  rank_append (Nat.le_of_lt (List.getElem?_eq_some_iff.mp h).1) more

theorem rank_attempts_length (g : FlightGroup α β) (name : String) (more : List String) :
    rank name (g.attemptKeys ++ more) g.attempts.length = (g.project name).attempts.length := by
  have hlength : g.attempts.length = g.attemptKeys.length := (List.length_map _).symm
  rw [hlength, rank_append (Nat.le_refl _), rank_length, attemptKeys, List.count_eq_countP,
    List.countP_map, List.countP_eq_length_filter]
  rfl

/-- Attempts that start later leave the ranks of the others as they are. -/
theorem Exact.inFlight_project_append (hg : g.Exact) (name : String) (more : List String) :
    (g.inFlight.filter fun e => e.1 == name).map
        (fun e => (e.1, rank name (g.attemptKeys ++ more) e.2)) = (g.project name).inFlight := by
  refine List.map_congr_left fun e he => ?_
  obtain ⟨w, st, ha, -⟩ := (hg.entry e.1 e.2).mp (List.mem_filter.mp he).1
  rw [rank_append_of_some (attemptKeys_eq_some ha)]

theorem Exact.requests_project_append (hg : g.Exact) (name : String) (more : List String) :
    (g.requests.filter fun q => q.key == name).map
        (Request.renumber (rank name (g.attemptKeys ++ more))) = (g.project name).requests :=
  renumber_congr fun _ hq _ _ hw => rank_append_of_some (hg.attemptKeys_of_waiting hq hw) more

theorem Exact.standing_project (hg : g.Exact) {i : Nat} (h : g.inFlight.lookup name = some i) :
    Request.renumber (rank name g.attemptKeys) ⟨name, g.standing name i⟩ =
      ⟨name, (g.project name).standing name (rank name g.attemptKeys i)⟩ := by
  have hi := hg.attemptKeys_of_lookup h
  have hstate : (g.project name).state? (rank name g.attemptKeys i) = g.state? i := by
    rw [state?, state?, attempts_project hi]
  rcases hg.standing_cases (hg.lookup.mp h) with ⟨⟨w, ha⟩, hs⟩ | ⟨w, r, ha, hs⟩
  · rw [hs, standing, hstate, state?, ha]
    rfl
  · rw [hs, standing, hstate, state?, ha]
    rfl

theorem Exact.project_join_self (hg : g.Exact) (work : α) :
    (g.join name work).project name = (g.project name).join name work := by
  unfold FlightGroup.join
  rw [lookup_project]
  cases h : g.inFlight.lookup name with
  | some i =>
    have hq := hg.standing_project h
    simp only [Option.map_some, ← hq]
    simp [project, attemptKeys]
  | none =>
    have hentries := hg.inFlight_project_append name [name]
    have hrequests := hg.requests_project_append name [name]
    have hlength := rank_attempts_length g name [name]
    simp only [Option.map_none, ← hlength, ← hentries, ← hrequests]
    simp [project, attemptKeys, Request.renumber]

theorem Exact.project_join_other (hg : g.Exact) {key : String} (hk : key ≠ name) (work : α) :
    (g.join key work).project name = g.project name := by
  unfold FlightGroup.join
  split
  · simp [project, attemptKeys, hk]
  · have hentries := hg.inFlight_project_append name [key]
    have hrequests := hg.requests_project_append name [key]
    change _ = FlightGroup.mk (g.project name).attempts (g.project name).inFlight
      (g.project name).requests
    rw [← hentries, ← hrequests]
    simp [project, attemptKeys, hk]

/-- A caller of the name hears of an attempt just if it waits for it, under either number. -/
theorem Exact.told_project (hg : g.Exact) (name : String) {i : Nat} {key : String}
    (hi : g.attemptKeys[i]? = some key) (r : Except DatabaseError β) :
    ((g.requests.map (Request.told i r)).filter fun q => q.key == name).map
        (Request.renumber (rank name g.attemptKeys)) =
      if key = name then
        (g.project name).requests.map (Request.told (rank name g.attemptKeys i) r)
      else (g.project name).requests := by
  have hfilter : (g.requests.map (Request.told i r)).filter (fun q => q.key == name) =
      (g.requests.filter fun q => q.key == name).map (Request.told i r) := by
    rw [List.filter_map]
    congr 2
    funext q
    rcases told_eq_or i r q with ⟨h, -⟩ | ⟨h, -⟩ <;> simp [h]
  rw [hfilter, List.map_map]
  split
  · rename_i hk
    rw [project, List.map_map]
    refine List.map_congr_left fun q hq => ?_
    obtain ⟨hm, hkey⟩ := List.mem_filter.mp hq
    rw [beq_iff_eq] at hkey
    rcases q with ⟨k, j | x | _⟩
    · have hj := hg.attemptKeys_of_waiting hm rfl
      have hiff := rank_inj (hkey ▸ hj : g.attemptKeys[j]? = some name) (hk ▸ hi)
      by_cases hij : j = i
      · simp [Request.told, Request.renumber, hij]
      · simp [Request.told, Request.renumber, hij, hiff]
    · rfl
    · rfl
  · rename_i hk
    refine List.map_congr_left fun q hq => ?_
    obtain ⟨hm, hkey⟩ := List.mem_filter.mp hq
    rw [beq_iff_eq] at hkey
    rcases q with ⟨k, j | x | _⟩
    · have hj := hg.attemptKeys_of_waiting hm rfl
      have hij : j ≠ i := by
        rintro rfl
        rw [hi] at hj
        exact hk ((Option.some.inj hj).trans hkey)
      simp [Request.told, hij]
    · rfl
    · rfl

/-- An attempt of the name that gets a new state does so under its new number as well. -/
theorem attempts_modify_self {i : Nat} (hi : g.attemptKeys[i]? = some name) (st : AttemptState β) :
    (g.attempts.modify i fun a => { a with state := st }).filter (fun a => a.key == name) =
      (g.project name).attempts.modify (rank name g.attemptKeys i)
        fun a => { a with state := st } :=
  filter_modify_self Attempt.key (f := fun a => { a with state := st }) (fun _ => rfl) hi

theorem attempts_modify_other {i : Nat} (hi : g.attemptKeys[i]? ≠ some name)
    (st : AttemptState β) :
    (g.attempts.modify i fun a => { a with state := st }).filter (fun a => a.key == name) =
      (g.project name).attempts :=
  filter_modify_other Attempt.key (f := fun a => { a with state := st }) (fun _ => rfl) hi

theorem Exact.project_send_self (hg : g.Exact) {i : Nat} (hi : g.attemptKeys[i]? = some name)
    (e : Ending β) :
    (g.send i e).project name = (g.project name).send (rank name g.attemptKeys i) e := by
  have hattempt := attempts_project hi
  rcases send_cases g i e with ⟨hn, he⟩ | ⟨key, w, ha, he⟩
  · rcases send_cases (g.project name) (rank name g.attemptKeys i) e with ⟨-, hp⟩ | ⟨key, w, ha, -⟩
    · rw [he, hp]
    · exact absurd (hattempt ▸ ha) (hn key w)
  · have hkey : key = name := Option.some.inj ((attemptKeys_eq_some ha).symm.trans hi)
    subst hkey
    have htold := hg.told_project key hi (e.outcome key)
    rw [if_pos rfl] at htold
    rw [he, FlightGroup.send, hattempt, ha, project, attemptKeys, attemptKeys_modify, htold,
      attempts_modify_self hi]
    rfl

theorem Exact.project_send_other (hg : g.Exact) {i : Nat} (hi : g.attemptKeys[i]? ≠ some name)
    (e : Ending β) : (g.send i e).project name = g.project name := by
  rcases send_cases g i e with ⟨-, he⟩ | ⟨key, w, ha, he⟩ <;> rw [he]
  have hkeys := attemptKeys_eq_some ha
  have hkey : key ≠ name := fun hk => hi (hk ▸ hkeys)
  have htold := hg.told_project name hkeys (e.outcome key)
  rw [if_neg hkey] at htold
  rw [project, attemptKeys, attemptKeys_modify, htold, attempts_modify_other hi]
  rfl

theorem project_release_self {i : Nat} (hi : g.attemptKeys[i]? = some name) :
    (g.release i).project name = (g.project name).release (rank name g.attemptKeys i) := by
  have hattempt := attempts_project hi
  rcases ha : g.attempts[i]? with _ | ⟨key, w, st⟩
  · simp only [release, hattempt, ha]
  · have hkey : key = name := Option.some.inj ((attemptKeys_eq_some ha).symm.trans hi)
    subst hkey
    cases st with
    | sent r =>
      simp only [release, hattempt, ha]
      rw [project, attemptKeys, attemptKeys_modify, attempts_modify_self hi]
      simp [project, List.filter_map, List.filter_filter, Function.comp_def, Bool.and_comm]
    | running | resolved | lost => simp only [release, hattempt, ha]

theorem project_release_other {i : Nat} (hi : g.attemptKeys[i]? ≠ some name) :
    (g.release i).project name = g.project name := by
  rcases release_cases g i with he | ⟨key, w, r, ha, he⟩ <;> rw [he]
  have hkey : key ≠ name := fun hk => hi (hk ▸ attemptKeys_eq_some ha)
  have hentries : (g.inFlight.filter fun e => e.1 != key).filter (fun e => e.1 == name) =
      g.inFlight.filter fun e => e.1 == name := by
    rw [List.filter_filter]
    refine List.filter_congr fun e _ => ?_
    by_cases h : e.1 = name
    · simp [h, Ne.symm hkey]
    · simp [h]
  rw [project, attemptKeys, attemptKeys_modify, hentries, attempts_modify_other hi]
  rfl

theorem renumber_cancel (f : Nat → Nat) (q : Request β) :
    (q.cancel).renumber f = (q.renumber f).cancel := by
  rcases q with ⟨k, i | r | _⟩ <;> rfl

theorem cancel_key (q : Request β) : q.cancel.key = q.key := by
  rcases cancel_eq_or q with h | h <;> rw [h]

theorem project_cancel_self {c : Nat} (hc : g.requestKeys[c]? = some name) :
    (g.cancel c).project name = (g.project name).cancel (rank name g.requestKeys c) := by
  have hfilter := filter_modify_self Request.key cancel_key hc
  simp only [cancel, project, attemptKeys]
  rw [hfilter, map_modify (renumber_cancel _)]
  rfl

theorem project_cancel_other {c : Nat} (hc : g.requestKeys[c]? ≠ some name) :
    (g.cancel c).project name = g.project name := by
  have hfilter := filter_modify_other Request.key cancel_key hc
  simp only [cancel, project, attemptKeys]
  rw [hfilter]

end Exact
end FlightGroup
end DatabaseTracing
