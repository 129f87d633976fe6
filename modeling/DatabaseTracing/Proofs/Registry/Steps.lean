import DatabaseTracing.Proofs.SingleFlight.Moves
import DatabaseTracing.Proofs.Plugin.Installation
import DatabaseTracing.Registry

/-! # Steps of a connection registry

What each step of a registry can do. An attempt that has called the connector goes on
by steps that are noted with its call; the handle is kept under the name by one of them.
What a step does to the group is a move of the group, or the answer to a request that has
found its name.
-/
namespace DatabaseTracing
variable {C σ : Type}

namespace Course

/-- The handle that the connector has given. -/
def given? : Course → Option Nat
  | asked => none
  | installing handle _ => some handle
  | installed handle => some handle
  | kept handle => some handle
  | ended e => e.value?

/-- The handle, once it is kept. -/
def kept? : Course → Option Nat
  | asked => none
  | installing _ _ => none
  | installed _ => none
  | kept handle => some handle
  | ended e => e.value?

/-- The outcome of an installation that is to be reported next. -/
def verdict? : Course → Option Outcome
  | installing _ p => p.outcome?
  | _ => none

theorem given?_of_kept? {c : Course} {h : Nat} (hc : c.kept? = some h) : c.given? = some h := by
  cases c with
  | asked | installing | installed => cases hc
  | kept | ended => exact hc

/-- A step from one course to the next. -/
inductive Next : Course → Course → Prop
  | given (handle : Nat) : Next asked (installing handle .begun)
  | failed {e : Ending Nat} (he : e.value? = none) : Next asked (ended e)
  | installs {p p' : Tracing.Installation} (handle : Nat) (hp : p'.left < p.left) :
      Next (installing handle p) (installing handle p')
  | reported (handle : Nat) (r : Outcome) : Next (installing handle (.finished r)) (installed handle)
  | published (handle : Nat) : Next (installed handle) (kept handle)
  | announced (handle : Nat) : Next (kept handle) (ended (.returned (.ok handle)))

theorem Next.given? {c c' : Course} (h : c.Next c') (handle : Nat) (hc : c.given? = some handle) :
    c'.given? = some handle := by
  cases h with
  | given | failed => cases hc
  | installs | reported | published | announced => exact hc

/-- The steps that are left to an attempt with a handle. -/
def left : Course → Nat
  | asked => Registry.stepsToEnd + 1
  | installing _ p => p.left + 3
  | installed _ => 2
  | kept _ => 1
  | ended _ => 0

theorem Next.left_lt {c c' : Course} (h : c.Next c') : c'.left < c.left := by
  cases h with
  | given handle => exact Nat.lt_succ_self _
  | installs handle hp => exact Nat.add_lt_add_right hp 3
  | failed | reported | published | announced => simp [left, Tracing.Installation.left]

theorem Next.not_ended {c c' : Course} (h : c.Next c') (e : Ending Nat) : c ≠ ended e := by
  rintro rfl
  cases h

end Course

/-- The answer gives a handle, of the fleet as it is then. -/
inductive Connection.Gives (f : Fleet C σ) : Connection C → Fleet C σ → Nat → Prop
  | fresh (db : Database C) : Gives f (.fresh db) (f.add db) f.databases.length
  | existing {handle : Nat} (h : handle < f.databases.length) : Gives f (.existing handle) f handle

theorem Connection.Gives.grown {f f' : Fleet C σ} {c : Connection C} {handle : Nat}
    (h : c.Gives f f' handle) :
    f.databases.length ≤ f'.databases.length ∧ handle < f'.databases.length := by
  cases h with
  | fresh db => simp [Fleet.add]
  | existing h => exact ⟨le_rfl, h⟩

namespace Registry
variable {r r' : Registry C σ} {i : Nat} {name dsn : String}

@[simp] theorem moves_nil (r : Registry C σ) : r.moves [] = r := rfl

@[simp] theorem moves_cons (r : Registry C σ) (m : Move C) (ms : List (Move C)) :
    r.moves (m :: ms) = (r.move m).moves ms := rfl

theorem moves_append (r : Registry C σ) (ms ns : List (Move C)) :
    r.moves (ms ++ ns) = (r.moves ms).moves ns := List.foldl_append

theorem opening?_eq_some {o : Opening} (h : r.opening? i = some o) :
    o ∈ r.openings ∧ o.attempt = i :=
  ⟨List.mem_of_find?_eq_some h, by simpa using List.find?_some h⟩

theorem opening?_eq_none (h : r.opening? i = none) : ∀ o ∈ r.openings, o.attempt ≠ i := by
  intro o ho
  simpa using List.find?_eq_none.mp h o ho

theorem opening?_note (r : Registry C σ) (i j : Nat) (c : Course) :
    (r.note i c).opening? j =
      (r.opening? j).map fun o => if o.attempt = i then { o with course := c } else o := by
  have hattempt : ∀ o : Opening, (if o.attempt = i then { o with course := c } else o).attempt =
      o.attempt := fun o => by split <;> rfl
  have hsame : ((fun o : Opening => o.attempt == j) ∘
      fun o => if o.attempt = i then { o with course := c } else o) = fun o => o.attempt == j :=
    funext fun o => congrArg (· == j) (hattempt o)
  rw [opening?, note, List.find?_map, hsame]
  rfl

theorem opening?_note_self {o : Opening} (h : r.opening? i = some o) (c : Course) :
    (r.note i c).opening? i = some { o with course := c } := by
  rw [opening?_note, h, Option.map_some, if_pos (opening?_eq_some h).2]

theorem opening?_note_other {j : Nat} (hj : j ≠ i) (c : Course) :
    (r.note i c).opening? j = r.opening? j := by
  rw [opening?_note]
  cases ho : r.opening? j with
  | none => rfl
  | some o => rw [Option.map_some, if_neg fun h => hj ((opening?_eq_some ho).2.symm.trans h)]

/-- The name is kept with the handle, whatever it has been kept with before. -/
theorem lookup_publish (handles : List (String × Nat)) (name : String) (handle : Nat) (k : String) :
    (handles.filter (fun e => e.1 != name) ++ [(name, handle)]).lookup k =
      if k = name then some handle else handles.lookup k := by
  rw [List.lookup_append, lookup_filter_fst (fun k => k != name)]
  by_cases hk : k = name
  · subst hk
    simp
  · simp [hk, List.lookup_cons, beq_eq_false_iff_ne.mpr hk]

/-- All that setting to work can do. -/
theorem wake_cases (r : Registry C σ) (i : Nat) :
    r.wake i = r ∨
      ∃ name dsn, r.group.attempts[i]? = some ⟨name, dsn, .running⟩ ∧ r.opening? i = none ∧
        ((∃ h, r.handle? name = some h ∧
            r.wake i = { r with group := r.group.send i (.returned (.ok h)) }) ∨
          r.handle? name = none ∧
            r.wake i = { r with
              openings := r.openings ++ [⟨i, name, dsn, .asked⟩]
              fleet := r.fleet.logged (openingEvent name) }) := by
  unfold wake
  split
  · rename_i name dsn ha ho
    refine Or.inr ⟨name, dsn, ha, ho, ?_⟩
    cases h : r.handle? name with
    | some handle => exact Or.inl ⟨handle, rfl, rfl⟩
    | none => exact Or.inr ⟨rfl, rfl⟩
  · exact Or.inl rfl

theorem wake_of_kept (ha : r.group.attempts[i]? = some ⟨name, dsn, .running⟩)
    (ho : r.opening? i = none) {h : Nat} (hh : r.handle? name = some h) :
    r.wake i = { r with group := r.group.send i (.returned (.ok h)) } := by
  simp only [wake, ha, ho, hh]

theorem openings_wake (ha : r.group.attempts[i]? = some ⟨name, dsn, .running⟩)
    (ho : r.opening? i = none) (hh : r.handle? name = none) :
    (r.wake i).openings = r.openings ++ [⟨i, name, dsn, .asked⟩] := by
  simp only [wake, ha, ho, hh]

/-- An attempt runs, and its call for the name has come that far. -/
structure At (r : Registry C σ) (i : Nat) (name dsn : String) (c : Course) : Prop where
  running : r.group.state? i = some .running
  opening : r.opening? i = some ⟨i, name, dsn, c⟩

theorem connect_of_gives (h : r.At i name dsn .asked) {c : Connection C} {f : Fleet C σ}
    {handle : Nat} (hc : c.Gives r.fleet f handle) :
    r.connect i c = { r with fleet := f }.note i (.installing handle .begun) := by
  cases hc with
  | fresh db => simp only [connect, h.running, h.opening]
  | existing hlt => simp only [connect, h.running, h.opening, if_pos hlt]

/-- All that an answer of the connector can do. -/
theorem connect_cases (r : Registry C σ) (i : Nat) (c : Connection C) :
    r.connect i c = r ∨ ∃ name dsn, r.At i name dsn .asked ∧
      ((∃ f handle, c.Gives r.fleet f handle ∧
          r.connect i c = { r with fleet := f }.note i (.installing handle .begun)) ∨
        ∃ e, e.value? = none ∧ r.connect i c = r.note i (.ended e)) := by
  unfold connect
  split
  · rename_i j name dsn hs ho
    obtain rfl : j = i := (opening?_eq_some ho).2
    cases c with
    | fresh db => exact .inr ⟨name, dsn, ⟨hs, ho⟩, .inl ⟨_, _, .fresh db, rfl⟩⟩
    | existing handle =>
      by_cases hlt : handle < r.fleet.databases.length
      · exact .inr ⟨name, dsn, ⟨hs, ho⟩, .inl ⟨_, _, .existing hlt, if_pos hlt⟩⟩
      · exact .inl (if_neg hlt)
    | failed e => exact .inr ⟨name, dsn, ⟨hs, ho⟩, .inr ⟨_, rfl, rfl⟩⟩
    | panicked m => exact .inr ⟨name, dsn, ⟨hs, ho⟩, .inr ⟨_, rfl, rfl⟩⟩
  · exact .inl rfl

/-- What the next step of an attempt makes of the registry, by how far the attempt has come and how
far it comes. -/
inductive Advances (r : Registry C σ) (i : Nat) (name : String) :
    Course → Course → Registry C σ → Prop
  | install {handle : Nat} {p : Tracing.Installation} {h : Host C σ} (hp : p.outcome? = none)
      (hh : r.fleet.host? handle = some h) :
      Advances r i name (.installing handle p) (.installing handle (p.step r.options h).1)
        ({ r with fleet := r.fleet.put handle (p.step r.options h).2 }.note i
          (.installing handle (p.step r.options h).1))
  | report (handle : Nat) (outcome : Outcome) :
      Advances r i name (.installing handle (.finished outcome)) (.installed handle)
        (r.report i name handle outcome)
  | publish (handle : Nat) :
      Advances r i name (.installed handle) (.kept handle) (r.publish i name handle)
  | announce {handle : Nat} {db : Database C} (hdb : r.fleet.databases[handle]? = some db) :
      Advances r i name (.kept handle) (.ended (.returned (.ok handle)))
        ({ r with fleet := r.fleet.logged (publishedEvent name db.name) }.note i
          (.ended (.returned (.ok handle))))

/-- Only an attempt whose handle is missing, or one that has nothing to do, makes no step, and it
reports nothing then. -/
theorem At.advances {c : Course} (hat : r.At i name dsn c) :
    (∃ c', r.Advances i name c c' (r.advance i)) ∨
      r.advance i = r ∧ c.verdict? = none ∧
        ∀ handle, c.given? = some handle → handle < r.fleet.databases.length →
          ∃ e, c = .ended e := by
  cases c with
  | asked => exact .inr ⟨by simp only [advance, hat.running, hat.opening], rfl, nofun⟩
  | ended e =>
    exact .inr ⟨by simp only [advance, hat.running, hat.opening], rfl, fun _ _ _ => ⟨e, rfl⟩⟩
  | installed handle =>
    simp only [advance, hat.running, hat.opening]
    exact .inl ⟨_, .publish handle⟩
  | kept handle =>
    simp only [advance, hat.running, hat.opening, announce]
    cases hdb : r.fleet.databases[handle]? with
    | none =>
      refine .inr ⟨rfl, rfl, fun _ hg hlt => ?_⟩
      cases hg
      exact absurd (List.getElem?_eq_none_iff.mp hdb) (Nat.not_le.mpr hlt)
    | some db => exact .inl ⟨_, .announce hdb⟩
  | installing handle p =>
    cases hp : p.outcome? with
    | some outcome =>
      obtain rfl := Tracing.Installation.outcome?_eq_some.mp hp
      simp only [advance, hat.running, hat.opening, hp]
      exact .inl ⟨_, .report handle outcome⟩
    | none =>
      simp only [advance, hat.running, hat.opening, hp, install]
      cases hh : r.fleet.host? handle with
      | none =>
        refine .inr ⟨rfl, hp, fun _ hg hlt => ?_⟩
        cases hg
        rw [Fleet.host?, Option.map_eq_none_iff, List.getElem?_eq_none_iff] at hh
        exact absurd hh (Nat.not_le.mpr hlt)
      | some h => exact .inl ⟨_, .install hp hh⟩

/-- All that a step of an attempt can do. -/
theorem advance_cases (r : Registry C σ) (i : Nat) :
    r.advance i = r ∨
      ∃ name dsn c c', r.At i name dsn c ∧ r.Advances i name c c' (r.advance i) := by
  by_cases h : ∃ name dsn c, r.At i name dsn c
  · obtain ⟨name, dsn, c, hat⟩ := h
    exact hat.advances.symm.imp And.left fun ⟨c', ha⟩ => ⟨name, dsn, c, c', hat, ha⟩
  · left
    unfold advance
    split
    · rename_i j name dsn c hs ho
      obtain rfl : j = i := (opening?_eq_some ho).2
      exact absurd ⟨name, dsn, c, hs, ho⟩ h
    · rfl

theorem report_eq (r : Registry C σ) (i : Nat) (name : String) (handle : Nat) (outcome : Outcome) :
    ∃ f, f.databases = r.fleet.databases ∧
      r.report i name handle outcome = { r with fleet := f }.note i (.installed handle) := by
  cases outcome with
  | ok _ => exact ⟨r.fleet, rfl, rfl⟩
  | error e => exact ⟨r.fleet.logged (partialEvent name e), rfl, rfl⟩

/-- The call of an attempt goes on to the next course. Whether a handle is kept under the name shows
in the course. -/
structure Proceeds (r r' : Registry C σ) (i : Nat) (name dsn : String) (c c' : Course) : Prop where
  here : r.At i name dsn c
  next : c.Next c'
  options : r'.options = r.options
  seekers : r'.seekers = r.seekers
  group : r'.group = r.group
  openings : r'.openings = (r.note i c').openings
  handles : r'.handles = r.handles ∧ c'.kept? = c.kept? ∨
    c.kept? = none ∧ ∃ h, c'.kept? = some h ∧
      r'.handles = r.handles.filter (fun e => e.1 != name) ++ [(name, h)]
  grown : r.fleet.databases.length ≤ r'.fleet.databases.length

theorem Proceeds.opening? {c c' : Course} (h : r.Proceeds r' i name dsn c c') :
    r'.opening? i = some ⟨i, name, dsn, c'⟩ := by
  rw [Registry.opening?, h.openings]
  exact opening?_note_self h.here.opening c'

theorem Proceeds.opening?_other {c c' : Course} (h : r.Proceeds r' i name dsn c c') {j : Nat}
    (hj : j ≠ i) : r'.opening? j = r.opening? j := by
  rw [Registry.opening?, h.openings]
  exact opening?_note_other hj c'

theorem At.proceeds_gives (hat : r.At i name dsn .asked) {c : Connection C} {f : Fleet C σ}
    {handle : Nat} (hc : c.Gives r.fleet f handle) :
    r.Proceeds ({ r with fleet := f }.note i (.installing handle .begun)) i name dsn .asked
      (.installing handle .begun) :=
  ⟨hat, .given handle, rfl, rfl, rfl, rfl, .inl ⟨rfl, rfl⟩, hc.grown.1⟩

theorem At.proceeds_fails (hat : r.At i name dsn .asked) {e : Ending Nat} (he : e.value? = none) :
    r.Proceeds (r.note i (.ended e)) i name dsn .asked (.ended e) :=
  ⟨hat, .failed he, rfl, rfl, rfl, rfl, .inl ⟨rfl, he⟩, le_rfl⟩

theorem connect_proceeds (r : Registry C σ) (i : Nat) (c : Connection C) :
    r.connect i c = r ∨ ∃ name dsn c', r.Proceeds (r.connect i c) i name dsn .asked c' := by
  rcases connect_cases r i c with h | ⟨name, dsn, hat, ⟨f, handle, hc, h⟩ | ⟨e, he, h⟩⟩
  · exact .inl h
  · rw [h]
    exact .inr ⟨name, dsn, _, hat.proceeds_gives hc⟩
  · rw [h]
    exact .inr ⟨name, dsn, _, hat.proceeds_fails he⟩

theorem Advances.proceeds {c c' : Course} (hat : r.At i name dsn c)
    (h : r.Advances i name c c' r') : r.Proceeds r' i name dsn c c' := by
  cases h with
  | install hp hh =>
    exact ⟨hat, .installs _ (Tracing.Installation.left_step _ _ hp), rfl, rfl, rfl, rfl,
      .inl ⟨rfl, rfl⟩, List.length_set.ge⟩
  | report handle outcome =>
    obtain ⟨f, hf, he⟩ := report_eq r i name handle outcome
    rw [he]
    exact ⟨hat, .reported handle outcome, rfl, rfl, rfl, rfl, .inl ⟨rfl, rfl⟩,
      (congrArg List.length hf).ge⟩
  | publish handle =>
    exact ⟨hat, .published handle, rfl, rfl, rfl, rfl, .inr ⟨rfl, handle, rfl, rfl⟩, le_rfl⟩
  | announce hdb => exact ⟨hat, .announced _, rfl, rfl, rfl, rfl, .inl ⟨rfl, rfl⟩, le_rfl⟩

theorem advance_proceeds (r : Registry C σ) (i : Nat) :
    r.advance i = r ∨ ∃ name dsn c c', r.Proceeds (r.advance i) i name dsn c c' := by
  rcases advance_cases r i with h | ⟨name, dsn, c, c', hat, h⟩
  · exact .inl h
  · exact .inr ⟨name, dsn, c, c', h.proceeds hat⟩

theorem tell_cases (r : Registry C σ) (i : Nat) :
    r.tell i = r ∨ ∃ name dsn e, r.opening? i = some ⟨i, name, dsn, .ended e⟩ ∧
      r.tell i = { r with group := r.group.send i e } := by
  unfold tell
  split
  · rename_i j name dsn e ho
    obtain rfl : j = i := (opening?_eq_some ho).2
    exact Or.inr ⟨name, dsn, e, ho, rfl⟩
  · exact Or.inl rfl

theorem tell_of_ended {e : Ending Nat} (ho : r.opening? i = some ⟨i, name, dsn, .ended e⟩) :
    r.tell i = { r with group := r.group.send i e } := by
  simp only [tell, ho]

/-- All that a move can do. -/
inductive Changes (r : Registry C σ) : Move C → Registry C σ → Prop
  /-- It concerns nothing but requests and the group. -/
  | quiet (m : Move C) (seekers : List (String × String)) (group : FlightGroup String Nat) :
      Changes r m { r with seekers, group }
  /-- A running attempt that has not called the connector yet finds nothing kept and calls. -/
  | asks {i : Nat} {name dsn : String} (ha : r.group.attempts[i]? = some ⟨name, dsn, .running⟩)
      (ho : r.opening? i = none) (hn : r.handle? name = none) :
      Changes r (.wake i)
        { r with
          openings := r.openings ++ [⟨i, name, dsn, .asked⟩]
          fleet := r.fleet.logged (openingEvent name) }
  | gives {i handle : Nat} {name dsn : String} {c : Connection C} {f : Fleet C σ}
      (hat : r.At i name dsn .asked) (hc : c.Gives r.fleet f handle) :
      Changes r (.connect i c) ({ r with fleet := f }.note i (.installing handle .begun))
  | fails {i : Nat} {name dsn : String} {c : Connection C} {e : Ending Nat}
      (hat : r.At i name dsn .asked) (he : e.value? = none) :
      Changes r (.connect i c) (r.note i (.ended e))
  | advances {i : Nat} {name dsn : String} {c c' : Course} {r' : Registry C σ}
      (hat : r.At i name dsn c) (h : r.Advances i name c c' r') : Changes r (.advance i) r'

theorem changes (r : Registry C σ) (m : Move C) : r.Changes m (r.move m) := by
  cases m with
  | look name dsn =>
    simp only [move, look]
    split <;> exact .quiet ..
  | enter name dsn =>
    simp only [move, enter]
    split <;> exact .quiet ..
  | wake i =>
    rw [move]
    rcases wake_cases r i with he | ⟨name, dsn, ha, ho, ⟨h, _, he⟩ | ⟨hn, he⟩⟩ <;> rw [he]
    · exact .quiet ..
    · exact .quiet ..
    · exact .asks ha ho hn
  | connect i c =>
    rw [move]
    rcases connect_cases r i c with he | ⟨_, _, hat, ⟨f, _, hc, he⟩ | ⟨_, hv, he⟩⟩ <;> rw [he]
    · exact .quiet ..
    · exact .gives hat hc
    · exact .fails hat hv
  | advance i =>
    rw [move]
    rcases advance_cases r i with he | ⟨_, _, _, _, hat, h⟩
    · rw [he]
      exact .quiet ..
    · exact .advances hat h
  | tell i =>
    rw [move]
    rcases tell_cases r i with he | ⟨_, _, _, _, he⟩ <;> rw [he] <;> exact .quiet ..
  | leave | free | cancel => exact .quiet ..

/-- The stores are left alone, or an attempt calls, or the call of an attempt goes on, which it does
by itself once it has been answered. -/
theorem move_cases (r : Registry C σ) (m : Move C) :
    (∃ seekers group, r.move m = { r with seekers := seekers, group := group }) ∨
      (∃ i name dsn, r.move m = { r with
        openings := r.openings ++ [⟨i, name, dsn, .asked⟩]
        fleet := r.fleet.logged (openingEvent name) }) ∨
      ∃ i name dsn c c', r.Proceeds (r.move m) i name dsn c c' ∧ (c = .asked ∨ m = .advance i) := by
  have h := changes r m
  generalize r.move m = r' at h ⊢
  cases h with
  | quiet seekers group => exact .inl ⟨_, _, rfl⟩
  | asks ha ho hn => exact .inr (.inl ⟨_, _, _, rfl⟩)
  | gives hat hc => exact .inr (.inr ⟨_, _, _, _, _, hat.proceeds_gives hc, .inl rfl⟩)
  | fails hat he => exact .inr (.inr ⟨_, _, _, _, _, hat.proceeds_fails he, .inl rfl⟩)
  | advances hat h => exact .inr (.inr ⟨_, _, _, _, _, h.proceeds hat, .inr rfl⟩)

theorem options_move (r : Registry C σ) (m : Move C) : (r.move m).options = r.options := by
  rcases move_cases r m with ⟨_, _, he⟩ | ⟨_, _, _, he⟩ | ⟨_, _, _, _, _, hp, -⟩
  · rw [he]
  · rw [he]
  · exact hp.options

theorem length_databases_move (r : Registry C σ) (m : Move C) :
    r.fleet.databases.length ≤ (r.move m).fleet.databases.length := by
  rcases move_cases r m with ⟨_, _, he⟩ | ⟨_, _, _, he⟩ | ⟨_, _, _, _, _, hp, -⟩
  · rw [he]
  · rw [he]
    exact le_rfl
  · exact hp.grown

/-- A call stays as it is until its own attempt goes on. -/
theorem opening?_move {o : Opening} (ho : r.opening? i = some o) (m : Move C) :
    (r.move m).opening? i = some o ∨ ∃ name dsn c c',
      r.Proceeds (r.move m) i name dsn c c' ∧ (c = .asked ∨ m = .advance i) := by
  rcases move_cases r m with ⟨_, _, he⟩ | ⟨_, _, _, he⟩ | ⟨j, name, dsn, c, c', hp, hc⟩
  · rw [he]
    exact .inl ho
  · rw [he, opening?, List.find?_append, ← opening?, ho, Option.some_or]
    exact .inl rfl
  · by_cases hj : i = j
    · subst hj
      exact .inr ⟨name, dsn, c, c', hp, hc⟩
    · exact .inl ((hp.opening?_other hj).trans ho)

/-- The group's part in a move: an answer to a request that has found its name, or at most one move
of the group, by which callers come to the table or give up only if they do so in the registry. -/
theorem group_move_cases (r : Registry C σ) (m : Move C) :
    (r.move m).group = r.group ∨
      (∃ name h, r.handle? name = some h ∧ (r.move m).group = r.group.answer name (.ok h)) ∨
      ∃ gm, (r.move m).group = r.group.move gm ∧ (∀ c, gm = .cancel c → m = .cancel c) ∧
        ∀ name dsn, gm = .work name dsn → m = .enter name dsn := by
  cases m with
  | look name dsn =>
    simp only [move, look]
    split
    · rename_i h hh
      exact .inr (.inl ⟨name, h, hh, rfl⟩)
    · exact .inl rfl
  | enter name dsn =>
    simp only [move, enter]
    split
    · refine .inr (.inr ⟨.work name dsn, rfl, nofun, fun _ _ h => ?_⟩)
      cases h
      rfl
    · exact .inl rfl
  | leave name dsn => exact .inl rfl
  | wake i =>
    rw [move]
    rcases wake_cases r i with he | ⟨_, _, _, _, ⟨h, _, he⟩ | ⟨_, he⟩⟩ <;> rw [he]
    · exact .inl rfl
    · exact .inr (.inr ⟨.send i (.returned (.ok h)), rfl, nofun, nofun⟩)
    · exact .inl rfl
  | connect i c =>
    rw [move]
    rcases connect_proceeds r i c with h | ⟨_, _, _, h⟩
    · exact .inl (congrArg group h)
    · exact .inl h.group
  | advance i =>
    rw [move]
    rcases advance_proceeds r i with h | ⟨_, _, _, _, h⟩
    · exact .inl (congrArg group h)
    · exact .inl h.group
  | tell i =>
    rw [move]
    rcases tell_cases r i with he | ⟨_, _, e, _, he⟩ <;> rw [he]
    · exact .inl rfl
    · exact .inr (.inr ⟨.send i e, rfl, nofun, nofun⟩)
  | free i => exact .inr (.inr ⟨.release i, rfl, nofun, nofun⟩)
  | cancel c =>
    refine .inr (.inr ⟨.cancel c, rfl, fun d hd => ?_, nofun⟩)
    cases hd
    rfl

theorem attempts_move_of_some {a : Attempt String Nat} (h : r.group.attempts[i]? = some a)
    (m : Move C) : ∃ st, (r.move m).group.attempts[i]? = some ⟨a.key, a.work, st⟩ ∧
      ∀ x, a.state.channel.outcome = some x → st.channel.outcome = some x := by
  rcases group_move_cases r m with hg | ⟨name, handle, -, hg⟩ | ⟨gm, hg, -, -⟩ <;> rw [hg]
  · exact ⟨a.state, h, fun _ hx => hx⟩
  · exact ⟨a.state, h, fun _ hx => hx⟩
  · exact FlightGroup.attempts_move_of_some h gm

theorem attempts_moves_of_some {a : Attempt String Nat} (h : r.group.attempts[i]? = some a)
    (ms : List (Move C)) : ∃ st, (r.moves ms).group.attempts[i]? = some ⟨a.key, a.work, st⟩ ∧
      ∀ x, a.state.channel.outcome = some x → st.channel.outcome = some x := by
  induction ms generalizing r a with
  | nil => exact ⟨a.state, h, fun _ hx => hx⟩
  | cons m ms ih =>
    obtain ⟨st, hst, hx⟩ := attempts_move_of_some h m
    obtain ⟨st', hst', hx'⟩ := ih hst
    exact ⟨st', hst', fun x ha => hx' x (hx x ha)⟩

end Registry
end DatabaseTracing
