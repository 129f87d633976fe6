import DatabaseTracing.Proofs.Registry.Progress
import DatabaseTracing.Proofs.SingleFlight.Agreement

/-! # One handle for a name

Over any history of a registry the connector opens a name at most once, with the
connection string of the caller who started the attempt. The handle is kept from
then on, and it is what every caller gets who waited for it or comes later, also
one who comes to the table after the handle is kept or before the key is free.
-/
namespace DatabaseTracing.Registry
variable {C σ : Type}

/-- The move makes the attempt of that number. -/
def Starts (r : Registry C σ) (m : Move C) (i : Nat) : Prop :=
  r.group.attempts.length = i ∧ (r.move m).group.attempts.length = i + 1

/-- Attempts are made by callers who come to the table, each with the caller's string. -/
theorem attempts_move (r : Registry C σ) (m : Move C) :
    (r.move m).group.attempts.length = r.group.attempts.length ∨
      ∃ name dsn, m = .enter name dsn ∧
        (r.move m).group.attempts = r.group.attempts ++ [⟨name, dsn, .running⟩] := by
  rcases group_move_cases r m with hg | ⟨name, h, -, hg⟩ | ⟨gm, hg, -, hwork⟩ <;> rw [hg]
  · exact .inl rfl
  · exact .inl rfl
  · cases gm with
    | work name dsn =>
      rcases FlightGroup.attempts_join r.group name dsn with h | h
      · exact .inl (congrArg List.length h)
      · exact .inr ⟨name, dsn, hwork name dsn rfl, h⟩
    | send i e =>
      left
      rw [FlightGroup.move]
      rcases FlightGroup.send_cases r.group i e with ⟨-, he⟩ | ⟨_, _, -, he⟩ <;> rw [he]
      exact List.length_modify ..
    | release i =>
      left
      rw [FlightGroup.move]
      rcases FlightGroup.release_cases r.group i with he | ⟨_, _, _, -, he⟩ <;> rw [he]
      exact List.length_modify ..
    | cancel c => exact .inl rfl

theorem started {start : Registry C σ} (hstart : start.group.attempts = [])
    (ms : List (Move C)) {i : Nat} {a : Attempt String Nat}
    (ha : (start.moves ms).group.attempts[i]? = some a) :
    ∃ ms₁ ms₂, ms = ms₁ ++ .enter a.key a.work :: ms₂ ∧
      (start.moves ms₁).Starts (.enter a.key a.work) i := by
  induction ms using List.reverseRecOn generalizing a with
  | nil =>
    rw [moves_nil, hstart] at ha
    cases ha
  | append_singleton ms m ih =>
    have hlast : start.moves (ms ++ [m]) = (start.moves ms).move m := moves_append start ms [m]
    rw [hlast] at ha
    by_cases hi : i < (start.moves ms).group.attempts.length
    · obtain ⟨b, hb⟩ : ∃ b, (start.moves ms).group.attempts[i]? = some b :=
        ⟨_, List.getElem?_eq_getElem hi⟩
      obtain ⟨st, hst, _⟩ := attempts_move_of_some hb m
      rw [ha] at hst
      cases hst
      obtain ⟨ms₁, ms₂, rfl, hs⟩ := ih hb
      exact ⟨ms₁, ms₂ ++ [m], by simp, hs⟩
    · have hlt := (List.getElem?_eq_some_iff.mp ha).1
      rcases attempts_move (start.moves ms) m with h | ⟨name, dsn, rfl, h⟩
      · omega
      · have hlen := congrArg List.length h
        rw [List.length_append, List.length_singleton] at hlen
        have hlast : (start.moves ms).group.attempts.length = i := by omega
        rw [h, getElem?_concat_eq_some] at ha
        rcases ha with ha | ⟨_, rfl⟩
        · exact absurd (List.getElem?_eq_some_iff.mp ha).1 hi
        · exact ⟨ms, [], rfl, hlast, hlast ▸ hlen⟩

theorem served_move {r : Registry C σ} {i c : Nat} {key : String} (h : r.group.Served i key c)
    (m : Move C) : (r.move m).group.Served i key c ∨
      m = .cancel c ∧ (r.move m).group.requests[c]? = some ⟨key, .cancelled⟩ := by
  rcases group_move_cases r m with hg | ⟨name, k, -, hg⟩ | ⟨gm, hg, hcancel, -⟩ <;> rw [hg]
  · exact .inl h
  · exact .inl (h.answer name _)
  · exact (h.move gm).imp_right fun ⟨hm, hq⟩ => ⟨hcancel c hm, hq⟩

theorem requests_moves_of_some {r : Registry C σ} {c : Nat} {q : Request Nat}
    (h : r.group.requests[c]? = some q) (hq : ∀ i, q.state ≠ .waiting i) (ms : List (Move C)) :
    (r.moves ms).group.requests[c]? = some q := by
  induction ms generalizing r with
  | nil => exact h
  | cons m ms ih =>
    refine ih ?_
    rcases group_move_cases r m with hg | ⟨name, k, -, hg⟩ | ⟨gm, hg, -, -⟩ <;> rw [hg]
    · exact h
    · exact getElem?_concat_eq_some.mpr (.inl h)
    · exact FlightGroup.requests_move_of_some h hq gm

theorem served_moves {r : Registry C σ} {i c : Nat} {key : String} (h : r.group.Served i key c)
    (ms : List (Move C)) : (r.moves ms).group.Served i key c ∨
      .cancel c ∈ ms ∧ (r.moves ms).group.requests[c]? = some ⟨key, .cancelled⟩ := by
  induction ms generalizing r with
  | nil => exact .inl h
  | cons m ms ih =>
    rcases served_move h m with h | ⟨rfl, h⟩
    · exact (ih h).imp_right fun ⟨hc, hq⟩ => ⟨List.mem_cons_of_mem _ hc, hq⟩
    · exact .inr ⟨List.mem_cons_self, requests_moves_of_some h nofun ms⟩

/-- All calls of the connector for the name, in order. -/
def openingsFor (r : Registry C σ) (name : String) : List Opening :=
  r.openings.filter (·.name = name)

/-- The attempt for the name has sent the handle: all who waited for it have been given it, nobody
else has noticed, and the key is not free yet. -/
structure Sends (r r' : Registry C σ) (i : Nat) (name dsn : String) (handle : Nat) : Prop where
  sent : r'.group.attempts[i]? = some ⟨name, dsn, .sent (.ok handle)⟩
  table : r'.group.inFlight = r.group.inFlight
  told : ∀ (c : Nat) (q : Request Nat), r.group.requests[c]? = some q →
    q.state = .waiting i ∧ r'.group.requests[c]? = some ⟨name, .answered (.ok handle)⟩ ∨
      q.state ≠ .waiting i ∧ r'.group.requests[c]? = some q

/-- A name has one handle over a history. -/
structure OneHandle (start : Registry C σ) (ms : List (Move C)) (name : String) : Prop where
  /-- In front of a call for the name there are failures only; nothing follows one that opens. -/
  calls : ∀ before o after, (start.moves ms).openingsFor name = before ++ o :: after →
    (∀ p ∈ before, p.Failed) ∧ ∀ h, o.Opened h → after = []
  /-- A call carries the connection string of the caller who started its attempt. -/
  dsn : ∀ o ∈ (start.moves ms).openingsFor name, ∃ ms₁ ms₂,
    ms = ms₁ ++ .enter name o.dsn :: ms₂ ∧ (start.moves ms₁).Starts (.enter name o.dsn) o.attempt
  /-- What is kept under the name is the handle of the call that opens, once it is published. -/
  kept : ∀ h, (start.moves ms).handle? name = some h ↔
    ∃ o ∈ (start.moves ms).openingsFor name, o.Kept h
  /-- A call that opens is published by the steps of its own attempt, whatever others do. -/
  published : ∀ ms₁ ms₂ i dsn c f h, ms = ms₁ ++ .connect i c :: ms₂ →
    (start.moves ms₁).At i name dsn .asked → c.Gives (start.moves ms₁).fleet f h →
    stepsToEnd ≤ ms₂.countP (Move.advances i) →
    (start.moves ms).handle? name = some h ∧
      (start.moves ms).opening? i = some ⟨i, name, dsn, .ended (.returned (.ok h))⟩
  /-- An attempt that has published its handle gives it to all who wait for it. -/
  tells : ∀ i dsn h, (start.moves ms).At i name dsn (.ended (.returned (.ok h))) →
    (start.moves ms).Sends ((start.moves ms).tell i) i name dsn h
  /-- Who looks for the name when it is not kept goes on to the table. -/
  seeks : ∀ dsn, (start.moves ms).handle? name = none →
    (name, dsn) ∈ ((start.moves ms).look name dsn).seekers
  /-- Who comes to the table waits for an attempt for the name that runs, or is given its outcome. -/
  joins : ∀ dsn, (name, dsn) ∈ (start.moves ms).seekers → ∃ i,
    ((start.moves ms).enter name dsn).group.Served i name (start.moves ms).group.requests.length
  /-- An attempt that finds nothing kept when it sets to work calls the connector. -/
  asks : ∀ (i : Nat) (dsn : String),
    (start.moves ms).group.attempts[i]? = some ⟨name, dsn, .running⟩ →
    (start.moves ms).opening? i = none → (start.moves ms).handle? name = none →
    ((start.moves ms).wake i).openings = (start.moves ms).openings ++ [⟨i, name, dsn, .asked⟩]
  /-- An attempt that finds the name kept when it sets to work gives out what is kept, and does not
  call the connector. -/
  finds : ∀ (i : Nat) (dsn : String) (h : Nat),
    (start.moves ms).group.attempts[i]? = some ⟨name, dsn, .running⟩ →
    (start.moves ms).opening? i = none → (start.moves ms).handle? name = some h →
    (start.moves ms).Sends ((start.moves ms).wake i) i name dsn h ∧
      ((start.moves ms).wake i).openings = (start.moves ms).openings
  /-- Who has come to wait for the attempt of a call that opens is given its handle as soon as the
  attempt no longer runs, unless the caller gives up. -/
  waiters : ∀ ms₁ ms₂ c i, ms = ms₁ ++ ms₂ →
    (start.moves ms₁).group.requests[c]? = some ⟨name, .waiting i⟩ →
    ∀ o ∈ (start.moves ms).openingsFor name, o.attempt = i → ∀ h, o.Opened h →
      (start.moves ms).group.requests[c]? = some ⟨name, .answered (.ok h)⟩ ∨
      (start.moves ms).group.requests[c]? = some ⟨name, .waiting i⟩ ∧
        (start.moves ms).group.state? i = some .running ∨
      (start.moves ms).group.requests[c]? = some ⟨name, .cancelled⟩ ∧ .cancel c ∈ ms₂
  /-- Who comes to the table when the handle has been sent and before the key is free is given it at
  once. -/
  late : ∀ (ms₁ ms₂ : List (Move C)) (dsn : String) (i : Nat) (w : String) (h : Nat),
    ms = ms₁ ++ .enter name dsn :: ms₂ → (name, dsn) ∈ (start.moves ms₁).seekers →
    (start.moves ms₁).group.attempts[i]? = some ⟨name, w, .sent (.ok h)⟩ →
    (start.moves ms).group.requests[(start.moves ms₁).group.requests.length]? =
      some ⟨name, .answered (.ok h)⟩
  /-- Who looks for the name when it is kept is given the handle, whatever the caller's string. -/
  later : ∀ ms₁ ms₂ dsn h, ms = ms₁ ++ .look name dsn :: ms₂ →
    (start.moves ms₁).handle? name = some h →
    (start.moves ms).group.requests[(start.moves ms₁).group.requests.length]? =
      some ⟨name, .answered (.ok h)⟩
  /-- No caller for the name is given another handle than the one that is kept. -/
  same : ∀ q ∈ (start.moves ms).group.requests, q.key = name → ∀ h, q.state = .answered (.ok h) →
    (start.moves ms).handle? name = some h
  /-- A kept handle is neither replaced nor removed. -/
  stays : ∀ ms₁ ms₂ h, ms = ms₁ ++ ms₂ → (start.moves ms₁).handle? name = some h →
    (start.moves ms).handle? name = some h

theorem mem_openingsFor {r : Registry C σ} {name : String} {o : Opening} :
    o ∈ r.openingsFor name ↔ o ∈ r.openings ∧ o.name = name := by
  simp [openingsFor]

section Sound
variable {r : Registry C σ}

theorem Sound.calls (hs : r.Sound) {name : String} {before after : List Opening} {o : Opening}
    (h : r.openingsFor name = before ++ o :: after) :
    (∀ p ∈ before, p.Failed) ∧ ∀ h, o.Opened h → after = [] := by
  have hname : ∀ p ∈ before ++ o :: after, p.name = name := by
    intro p hp
    rw [← h] at hp
    exact (mem_openingsFor.mp hp).2
  have hp : (before ++ o :: after).Pairwise fun a b => a.name = b.name → a.Failed := by
    rw [← h]
    exact hs.failures.filter _
  obtain ⟨_, hp, hcross⟩ := List.pairwise_append.mp hp
  constructor
  · intro p hpm
    apply hcross p hpm o List.mem_cons_self
    rw [hname p (by simp [hpm]), hname o (by simp)]
  · intro k hk
    by_contra hne
    obtain ⟨p, hpm⟩ := List.exists_mem_of_ne_nil after hne
    refine hk.not_failed ((List.pairwise_cons.mp hp).1 p hpm ?_)
    rw [hname o (by simp), hname p (by simp [hpm])]

theorem Sound.kept_openingsFor (hs : r.Sound) (name : String) (h : Nat) :
    r.handle? name = some h ↔ ∃ o ∈ r.openingsFor name, o.Kept h := by
  rw [hs.kept name h]
  simp only [mem_openingsFor, and_assoc]

/-- Who waits for an attempt asks for its name. -/
theorem Sound.sends (hs : r.Sound) {r' : Registry C σ} {i handle : Nat} {name dsn : String}
    (ha : r.group.attempts[i]? = some ⟨name, dsn, .running⟩)
    (hr' : r'.group = r.group.send i (.returned (.ok handle))) :
    r.Sends r' i name dsn handle where
  sent := by
    rw [hr']
    exact FlightGroup.attempts_send_self ha _
  table := by rw [hr', FlightGroup.send_of_running ha]
  told c q hc := by
    rw [hr']
    rcases FlightGroup.requests_send ha (.returned (.ok handle)) hc with ⟨hw, hq⟩ | hother
    · rw [hs.group.key_of_waiting ha (List.mem_of_getElem? hc) hw] at hq
      exact .inl ⟨hw, hq⟩
    · exact .inr hother

theorem Sound.tells (hs : r.Sound) {i handle : Nat} {name dsn : String}
    (hat : r.At i name dsn (.ended (.returned (.ok handle)))) :
    r.Sends (r.tell i) i name dsn handle := by
  obtain ⟨st, ha⟩ := hs.filed _ (opening?_eq_some hat.opening).1
  have hst := hat.running
  rw [FlightGroup.state?, ha] at hst
  cases hst
  exact hs.sends ha (congrArg Registry.group (tell_of_ended hat.opening))

theorem Sound.waiters (hs : r.Sound) (ms : List (Move C)) {name : String}
    {c : Nat} {o : Opening} (ho : o ∈ (r.moves ms).openings)
    (hc : r.group.requests[c]? = some ⟨name, .waiting o.attempt⟩) {h : Nat} (hh : o.Opened h) :
    (r.moves ms).group.requests[c]? = some ⟨name, .answered (.ok h)⟩ ∨
      (r.moves ms).group.requests[c]? = some ⟨name, .waiting o.attempt⟩ ∧
        (r.moves ms).group.state? o.attempt = some .running ∨
      (r.moves ms).group.requests[c]? = some ⟨name, .cancelled⟩ ∧ .cancel c ∈ ms := by
  have hserved : r.group.Served o.attempt name c :=
    .inl ⟨hs.group.waiting _ (List.mem_of_getElem? hc) _ rfl, hc⟩
  rcases served_moves hserved ms with hserve | ⟨hm, hq⟩
  · rcases hserve with ⟨⟨w, ha⟩, hq⟩ | ⟨w, st, x, ha, hx, hq⟩
    · exact .inr (.inl ⟨hq, by rw [FlightGroup.state?, ha]; rfl⟩)
    · left
      rcases (hs.moves ms).agrees o ho with hr | ⟨e, st', he, hr, hout⟩
      · rw [ha] at hr
        cases hr
        cases hx
      · rw [ha] at hr
        cases hr
        rw [Opening.Opened, he] at hh
        rw [hout] at hx
        cases hx
        rw [hq, Ending.outcome_eq_ok.mpr hh]
  · exact .inr (.inr ⟨hq, hm⟩)

theorem Sound.joins (hs : r.Sound) {name dsn : String} (hseeks : (name, dsn) ∈ r.seekers) :
    ∃ i, (r.enter name dsn).group.Served i name r.group.requests.length := by
  rw [Registry.enter, if_pos hseeks]
  exact ⟨_, hs.group.served_join name dsn⟩

theorem Sound.late (hs : r.Sound) {name dsn w : String} {i h : Nat}
    (hseeks : (name, dsn) ∈ r.seekers)
    (ha : r.group.attempts[i]? = some ⟨name, w, .sent (.ok h)⟩) :
    (r.enter name dsn).group.requests[r.group.requests.length]? =
      some ⟨name, .answered (.ok h)⟩ := by
  have hholds : r.group.Holds name i := ⟨w, _, ha, rfl⟩
  have hfor := hs.group.attemptFor_eq hholds
  have hserved := hs.group.served_join name dsn
  have hattempt := FlightGroup.attempts_join_of_some ha name dsn
  rw [Registry.enter, if_pos hseeks]
  rw [hfor] at hserved
  rcases hserved with ⟨⟨v, hv⟩, -⟩ | ⟨v, st, x, hv, hx, hq⟩
  · rw [hattempt] at hv
    cases hv
  · rw [hattempt] at hv
    cases hv
    cases hx
    exact hq

end Sound

theorem seekers_look {r : Registry C σ} {name : String} (hh : r.handle? name = none)
    (dsn : String) : (name, dsn) ∈ (r.look name dsn).seekers := by
  simp [look, hh]

theorem requests_look {r : Registry C σ} {name : String} {h : Nat}
    (hh : r.handle? name = some h) (dsn : String) :
    (r.look name dsn).group.requests[r.group.requests.length]? =
      some ⟨name, .answered (.ok h)⟩ := by
  simp [look, hh, FlightGroup.answer]

theorem one_handle (options : Options) (user : σ) (ms : List (Move C)) (name : String) :
    OneHandle (initial options user) ms name := by
  have hs := fun ms =>
    (sound_initial options user : (initial options user : Registry C σ).Sound).moves ms
  exact {
    calls := fun _ _ _ h => (hs ms).calls h
    dsn := by
      intro o ho
      obtain ⟨hm, rfl⟩ := mem_openingsFor.mp ho
      obtain ⟨st, ha⟩ := (hs ms).filed o hm
      exact started rfl ms ha
    kept := (hs ms).kept_openingsFor name
    published := by
      rintro ms₁ ms₂ i dsn c f h rfl hat hc hadvances
      rw [moves_append, moves_cons]
      exact ((hs ms₁).ended_of_gives_moves hat hc hadvances).symm
    tells := fun _ _ _ h => (hs ms).tells h
    seeks := fun dsn hh => seekers_look hh dsn
    joins := fun dsn hseeks => (hs ms).joins hseeks
    asks := fun _ _ ha ho hh => openings_wake ha ho hh
    finds := by
      intro i dsn h ha ho hh
      rw [wake_of_kept ha ho hh]
      exact ⟨(hs ms).sends ha rfl, rfl⟩
    waiters := by
      rintro ms₁ ms₂ c i rfl hc o ho rfl h hh
      rw [moves_append] at ho ⊢
      exact (hs ms₁).waiters ms₂ (mem_openingsFor.mp ho).1 hc hh
    late := by
      rintro ms₁ ms₂ dsn i w h rfl hseeks ha
      rw [moves_append, moves_cons]
      exact requests_moves_of_some ((hs ms₁).late hseeks ha) nofun ms₂
    later := by
      rintro ms₁ ms₂ dsn h rfl hh
      rw [moves_append, moves_cons]
      exact requests_moves_of_some (requests_look hh dsn) nofun ms₂
    same := by
      rintro q hq rfl h hx
      exact (hs ms).answered q hq h hx
    stays := by
      rintro ms₁ ms₂ h rfl hh
      rw [moves_append]
      exact (hs ms₁).handle?_moves hh ms₂ }

/-- The third caller looks before the handle is kept and comes to the table when it has been sent,
the fourth when the key is free. -/
example :
    let r := (initial .default () : Registry Unit Unit).moves
      ([.look "orders" "a", .enter "orders" "a", .wake 0, .connect 0 (.failed .recordNotFound),
        .tell 0, .free 0, .look "orders" "b", .look "orders" "c", .look "orders" "d",
        .enter "orders" "b", .wake 1, .connect 1 (.fresh (.create "orders" .mysql))] ++
        List.replicate stepsToEnd (.advance 1) ++
        [.tell 1, .enter "orders" "c", .free 1, .enter "orders" "d", .wake 2])
    r.handles = [("orders", 0)] ∧ r.openings.map (·.dsn) = ["a", "b"] ∧
      r.group.attempts.map (·.work) = ["a", "b", "d"] := by
  decide +kernel

end DatabaseTracing.Registry
