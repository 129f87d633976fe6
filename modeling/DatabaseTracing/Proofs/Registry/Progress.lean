import DatabaseTracing.Proofs.Registry.Invariant

/-! # An attempt that has been given a handle comes to its end

Nothing that others do holds up an attempt which the connector has given a handle: each
step of its own brings it nearer to its end, and nothing takes it back, neither other
requests nor work on the handle. Once it has made all its steps the handle is kept under
the name.
-/
namespace DatabaseTracing.Registry
variable {C σ : Type} {r : Registry C σ} {i handle n : Nat} {name dsn : String}

def Move.advances (i : Nat) : Move C → Bool
  | .advance j => j == i
  | _ => false

/-- The attempt has been given the handle and needs so many steps at most to come to its end. -/
structure Given (r : Registry C σ) (i : Nat) (name dsn : String) (handle n : Nat) : Prop where
  call : ∃ c, r.opening? i = some ⟨i, name, dsn, c⟩ ∧ c.given? = some handle ∧ c.left ≤ n
  there : handle < r.fleet.databases.length

theorem given_connect (hat : r.At i name dsn .asked) {c : Connection C} {f : Fleet C σ}
    (hc : c.Gives r.fleet f handle) : (r.connect i c).Given i name dsn handle stepsToEnd := by
  rw [connect_of_gives hat hc]
  refine ⟨⟨.installing handle .begun, ?_, rfl, le_rfl⟩, hc.grown.2⟩
  exact opening?_note_self (r := { r with fleet := f }) hat.opening _

theorem Given.move (h : r.Given i name dsn handle n) (m : Move C) :
    (r.move m).Given i name dsn handle n := by
  obtain ⟨⟨c, ho, hg, hn⟩, hlt⟩ := h
  refine ⟨?_, hlt.trans_le (length_databases_move r m)⟩
  rcases opening?_move ho m with hs | ⟨k, d, c₁, c₂, hp, -⟩
  · exact ⟨c, hs, hg, hn⟩
  · have hhere := hp.here.opening
    rw [ho] at hhere
    cases hhere
    exact ⟨c₂, hp.opening?, hp.next.given? handle hg, hp.next.left_lt.le.trans hn⟩

theorem Given.advance (h : r.Given i name dsn handle (n + 1)) (hs : r.Sound) :
    (r.advance i).Given i name dsn handle n := by
  obtain ⟨⟨c, ho, hg, hn⟩, hlt⟩ := h
  have hended : ∀ e, c = .ended e → (r.advance i).Given i name dsn handle n := by
    rintro e rfl
    exact Given.move ⟨⟨_, ho, hg, Nat.zero_le n⟩, hlt⟩ (.advance i)
  rcases hs.agrees _ (opening?_eq_some ho).1 with ha | ⟨e, -, he, -⟩
  · have hat : r.At i name dsn c := ⟨by rw [FlightGroup.state?, ha]; rfl, ho⟩
    rcases hat.advances with ⟨c', hadv⟩ | ⟨-, -, hstays⟩
    · have hp := hadv.proceeds hat
      refine ⟨⟨c', hp.opening?, hp.next.given? handle hg, ?_⟩, hlt.trans_le hp.grown⟩
      exact Nat.le_of_lt_succ (hp.next.left_lt.trans_le hn)
    · obtain ⟨e, he⟩ := hstays handle hg hlt
      exact hended e he
  · exact hended e he

/-- What happens to a registry: one of its parties makes a move, a handle comes into the fleet, or
somebody works on a handle that is there. -/
inductive Event (C σ : Type) where
  | move (m : Move C)
  | supply (db : Database C)
  | work (handle : Nat) (f : Host C σ → Host C σ)

def occur (r : Registry C σ) : Event C σ → Registry C σ
  | .move m => r.move m
  | .supply db => { r with fleet := r.fleet.add db }
  | .work handle f =>
    match r.fleet.host? handle with
    | some h => { r with fleet := r.fleet.put handle (f h) }
    | none => r

def events (r : Registry C σ) (es : List (Event C σ)) : Registry C σ := es.foldl occur r

@[simp] theorem events_cons (r : Registry C σ) (e : Event C σ) (es : List (Event C σ)) :
    r.events (e :: es) = (r.occur e).events es := rfl

theorem events_map_move (r : Registry C σ) (ms : List (Move C)) :
    r.events (ms.map .move) = r.moves ms := List.foldl_map

/-- Apart from moves, nothing happens but to the fleet. -/
theorem occur_cases (r : Registry C σ) (e : Event C σ) : (∃ m, e = .move m) ∨
    ∃ f, r.occur e = { r with fleet := f } ∧
      r.fleet.databases.length ≤ f.databases.length := by
  cases e with
  | move m => exact .inl ⟨m, rfl⟩
  | supply db => exact .inr ⟨r.fleet.add db, rfl, by simp [Fleet.add]⟩
  | work handle f =>
    right
    rw [occur]
    split
    · exact ⟨_, rfl, List.length_set.ge⟩
    · exact ⟨r.fleet, rfl, le_rfl⟩

theorem Sound.occur (hs : r.Sound) (e : Event C σ) : (r.occur e).Sound := by
  rcases occur_cases r e with ⟨m, rfl⟩ | ⟨f, he, -⟩
  · exact hs.move m
  · exact he ▸ hs.withFleet f

theorem Sound.events (hs : r.Sound) (es : List (Event C σ)) : (r.events es).Sound := by
  induction es generalizing r with
  | nil => exact hs
  | cons e es ih => exact ih (hs.occur e)

theorem length_databases_occur (r : Registry C σ) (e : Event C σ) :
    r.fleet.databases.length ≤ (r.occur e).fleet.databases.length := by
  rcases occur_cases r e with ⟨m, rfl⟩ | ⟨f, he, hf⟩
  · exact length_databases_move r m
  · rwa [he]

theorem options_occur (r : Registry C σ) (e : Event C σ) : (r.occur e).options = r.options := by
  rcases occur_cases r e with ⟨m, rfl⟩ | ⟨f, he, -⟩
  · exact options_move r m
  · rw [he]

theorem Given.occur (h : r.Given i name dsn handle n) (e : Event C σ) :
    (r.occur e).Given i name dsn handle n := by
  rcases occur_cases r e with ⟨m, rfl⟩ | ⟨f, he, hf⟩
  · exact h.move m
  · rw [he]
    exact ⟨h.call, h.there.trans_le hf⟩

/-- It is the attempt's own step. -/
def Event.advances (i : Nat) : Event C σ → Bool
  | .move m => m.advances i
  | _ => false

theorem Event.advances_iff {e : Event C σ} : e.advances i = true ↔ e = .move (.advance i) := by
  rcases e with m | _ | _
  · cases m <;> simp [Event.advances, Move.advances]
  · simp [Event.advances]
  · simp [Event.advances]

/-- Once it has been answered, a call stays as it is until the attempt makes a step itself. -/
theorem opening?_occur {c : Course} (ho : r.opening? i = some ⟨i, name, dsn, c⟩)
    (hg : c.given? = some handle) {e : Event C σ} (he : e.advances i = false) :
    (r.occur e).opening? i = some ⟨i, name, dsn, c⟩ := by
  rcases occur_cases r e with ⟨m, rfl⟩ | ⟨f, heq, -⟩
  · rcases opening?_move ho m with h | ⟨_, _, _, _, hp, rfl | rfl⟩
    · exact h
    · have hhere := hp.here.opening
      rw [ho] at hhere
      cases hhere
      cases hg
    · simp [Event.advances, Move.advances] at he
  · rw [heq]
    exact ho

theorem Given.events (h : r.Given i name dsn handle n) (hs : r.Sound) {es : List (Event C σ)}
    (hes : n ≤ es.countP (Event.advances i)) : (r.events es).Given i name dsn handle 0 := by
  induction es generalizing r n with
  | nil =>
    obtain rfl := Nat.le_zero.mp hes
    exact h
  | cons e es ih =>
    rw [events_cons]
    by_cases he : e.advances i = true
    · obtain rfl := Event.advances_iff.mp he
      rw [List.countP_cons_of_pos he] at hes
      refine ih (Given.advance (n := n - 1) ⟨?_, h.there⟩ hs) (hs.occur _) (by omega)
      obtain ⟨c, ho, hg, hn⟩ := h.call
      exact ⟨c, ho, hg, by omega⟩
    · rw [List.countP_cons_of_neg he] at hes
      exact ih (h.occur e) (hs.occur e) hes

theorem Given.ended (h : r.Given i name dsn handle 0) :
    r.opening? i = some ⟨i, name, dsn, .ended (.returned (.ok handle))⟩ := by
  obtain ⟨⟨c, ho, hg, hn⟩, -⟩ := h
  cases c with
  | ended e =>
    rw [ho, Ending.value?_eq_some.mp hg]
  | asked | installing | installed | kept => simp [Course.left] at hn

/-- An attempt that the connector gives a handle keeps it under the name, whatever comes in between
and whether or not the plugin can be installed. -/
theorem Sound.ended_of_gives (hs : r.Sound) (hat : r.At i name dsn .asked) {c : Connection C}
    {f : Fleet C σ} (hc : c.Gives r.fleet f handle) {es : List (Event C σ)}
    (hes : stepsToEnd ≤ es.countP (Event.advances i)) :
    ((r.connect i c).events es).opening? i =
        some ⟨i, name, dsn, .ended (.returned (.ok handle))⟩ ∧
      ((r.connect i c).events es).handle? name = some handle := by
  have hgiven := (given_connect hat hc).events (hs.move (.connect i c)) hes
  have hm := (opening?_eq_some hgiven.ended).1
  exact ⟨hgiven.ended,
    (((hs.move (.connect i c)).events es).kept name handle).mpr ⟨_, hm, rfl, rfl⟩⟩

theorem Sound.ended_of_gives_moves (hs : r.Sound) (hat : r.At i name dsn .asked)
    {c : Connection C} {f : Fleet C σ} (hc : c.Gives r.fleet f handle) {ms : List (Move C)}
    (hms : stepsToEnd ≤ ms.countP (Move.advances i)) :
    ((r.connect i c).moves ms).opening? i =
        some ⟨i, name, dsn, .ended (.returned (.ok handle))⟩ ∧
      ((r.connect i c).moves ms).handle? name = some handle := by
  rw [← events_map_move]
  refine hs.ended_of_gives hat hc ?_
  rw [List.countP_map]
  exact hms

end DatabaseTracing.Registry
