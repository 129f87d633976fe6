import DatabaseTracing.Proofs.Registry.Cancellation
import DatabaseTracing.Proofs.Registry.StableHandle

/-! # Published handles

Attempts keep the handles they open, whether or not the tracing plugin can be
installed on them: a handle may come with hooks or with the plugin, and it may be
kept under several names, so that two attempts are installing the plugin on it at
the same time. Meanwhile the users of all handles go on using them. Every kept handle
is traced and has each hook once, and the registry warns of those installations, and
only those, that fail.
-/
namespace DatabaseTracing
variable {C σ : Type}

namespace Fleet
variable {f f' : Fleet C σ} {i j : Nat} {h k : Host C σ}

theorem host?_eq_some : f.host? i = some h ↔
    f.databases[i]? = some h.database ∧ h = ⟨h.database, f.telemetry, f.log, f.user⟩ := by
  rw [host?, Option.map_eq_some_iff]
  constructor
  · rintro ⟨db, hdb, rfl⟩
    exact ⟨hdb, rfl⟩
  · rintro ⟨hdb, hh⟩
    exact ⟨_, hdb, hh.symm⟩

theorem databases_put_self (hi : f.host? i = some h) (k : Host C σ) :
    (f.put i k).databases[i]? = some k.database := by
  obtain ⟨hdb, -⟩ := host?_eq_some.mp hi
  exact List.getElem?_set_self (List.getElem?_eq_some_iff.mp hdb).1

theorem databases_put_other (f : Fleet C σ) (hj : j ≠ i) (k : Host C σ) :
    (f.put i k).databases[j]? = f.databases[j]? := List.getElem?_set_ne (Ne.symm hj)

/-- Handles stay ready, and keep the hooks of the stages. -/
structure Keeps (f f' : Fleet C σ) : Prop where
  ready : (∀ (i : Nat) (db : Database C), f.databases[i]? = some db → db.Ready) →
    ∀ (i : Nat) (db : Database C), f'.databases[i]? = some db → db.Ready
  stages : ∀ (i : Nat) (db : Database C), f.databases[i]? = some db →
    ∃ db' : Database C, f'.databases[i]? = some db' ∧ ∀ s : Stage,
      s.name ∈ db.pipelines.stepNames s.operation → s.name ∈ db'.pipelines.stepNames s.operation

theorem Keeps.of_eq (hd : f'.databases = f.databases) : f.Keeps f' :=
  ⟨fun hr => hd ▸ hr, fun _ db hi => ⟨db, hd ▸ hi, fun _ hs => hs⟩⟩

theorem Keeps.add (f : Fleet C σ) {db : Database C} (hdb : db.Ready) : f.Keeps (f.add db) where
  ready hr i db' hi := by
    rcases getElem?_concat_eq_some.mp hi with hi | ⟨-, rfl⟩
    · exact hr i db' hi
    · exact hdb
  stages i db' hi := ⟨db', getElem?_concat_eq_some.mpr (.inl hi), fun _ hs => hs⟩

theorem Keeps.put (hi : f.host? i = some h) (hk : h.Keeps k) : f.Keeps (f.put i k) where
  ready hr j db hj := by
    by_cases hji : j = i
    · subst hji
      rw [databases_put_self hi] at hj
      obtain rfl := Option.some.inj hj
      exact hk.ready (hr j _ (host?_eq_some.mp hi).1)
    · rw [databases_put_other _ hji] at hj
      exact hr j db hj
  stages j db hj := by
    by_cases hji : j = i
    · subst hji
      rw [(host?_eq_some.mp hi).1] at hj
      obtain rfl := Option.some.inj hj
      exact ⟨_, databases_put_self hi k, hk.stages⟩
    · exact ⟨db, (databases_put_other _ hji k).trans hj, fun _ hs => hs⟩

end Fleet

/-- The pipelines have the hooks that they should, by how far the attempt has come. -/
def Course.Reached (ps : Pipelines (Hook C)) : Course → Prop
  | asked => True
  | installing _ p => p.Reached ps
  | installed _ => ps.Traced
  | kept _ => ps.Traced
  | ended _ => ps.Traced

theorem Course.Reached.mono {c : Course} {ps ps' : Pipelines (Hook C)} (hc : c.Reached ps)
    (hps : ∀ s : Stage, s.name ∈ ps.stepNames s.operation → s.name ∈ ps'.stepNames s.operation) :
    c.Reached ps' := by
  cases c with
  | asked => trivial
  | installing _ p => exact Tracing.Installation.Reached.mono hc hps
  | installed | kept | ended => exact fun s => hps s (hc s)

theorem Course.Reached.traced {c : Course} {ps : Pipelines (Hook C)} (hc : c.Reached ps)
    {handle : Nat} (hk : c.kept? = some handle) : ps.Traced := by
  cases c with
  | asked | installing | installed => cases hk
  | kept | ended => exact hc

/-- A handle that its users have had for a while, and not in the fleet yet. -/
def Database.Supplied (σ : Type) (db : Database C) : Prop :=
  ∃ (name : String) (dialect : Dialect) (h k : Host C σ),
    h.database = create name dialect ∧ h.Tended k ∧ k.database = db

theorem Database.Supplied.ready {db : Database C} (hdb : db.Supplied σ) : db.Ready := by
  obtain ⟨name, dialect, h, k, hh, hk, rfl⟩ := hdb
  have hr : h.database.Ready := hh ▸ ready_create name dialect
  exact (hk.keeps hr).ready hr

/-- The connector gives out handles that are in use already, or new to the fleet. -/
def Connection.Genuine (σ : Type) : Connection C → Prop
  | .fresh db => db.Supplied σ
  | _ => True

namespace Registry
variable {r r' : Registry C σ} {i handle : Nat} {name dsn : String} {c c' : Course}

/-- Handles come from the connector or from users, and who works on a handle tends it. -/
def Event.Genuine : Event C σ → Prop
  | .move (.connect _ c) => c.Genuine σ
  | .move _ => True
  | .supply db => db.Supplied σ
  | .work _ f => ∀ h : Host C σ, h.Tended (f h)

/-- All handles are ready to be traced, and have the hooks of the stages that attempts have gone
through. -/
structure Ready (r : Registry C σ) : Prop where
  sound : r.Sound
  databases : ∀ (i : Nat) (db : Database C), r.fleet.databases[i]? = some db → db.Ready
  reached : ∀ o ∈ r.openings, ∀ handle, o.course.given? = some handle →
    ∃ db : Database C, r.fleet.databases[handle]? = some db ∧ o.course.Reached db.pipelines

theorem ready_initial (options : Options) (user : σ) :
    (initial options user : Registry C σ).Ready where
  sound := sound_initial options user
  databases := by simp [initial, Fleet.initial]
  reached := by simp [initial]

theorem Ready.traced (hr : r.Ready) (hh : r.handle? name = some handle) :
    ∃ db : Database C, r.fleet.databases[handle]? = some db ∧ db.pipelines.Traced := by
  obtain ⟨o, ho, -, hk⟩ := (hr.sound.kept name handle).mp hh
  obtain ⟨db, hdb, hreached⟩ := hr.reached o ho handle hk.opened
  exact ⟨db, hdb, hreached.traced hk⟩

/-- A call that has been given nothing asks for nothing of a handle. -/
theorem Ready.of_fleet (hr : r.Ready) (hs : r'.Sound) (hf : r.fleet.Keeps r'.fleet)
    (ho : ∀ o ∈ r'.openings, o ∈ r.openings ∨ o.course.given? = none) : r'.Ready where
  sound := hs
  databases := hf.ready hr.databases
  reached o hm handle hg := by
    rcases ho o hm with hm | hn
    · obtain ⟨db, hdb, hreached⟩ := hr.reached o hm handle hg
      obtain ⟨db', hdb', hstages⟩ := hf.stages handle db hdb
      exact ⟨db', hdb', hreached.mono hstages⟩
    · rw [hn] at hg
      cases hg

/-- An attempt goes on to a course that its handle is ready for. -/
theorem Ready.proceeds (hr : r.Ready) (h : r.Proceeds r' i name dsn c c')
    (hf : r.fleet.Keeps r'.fleet)
    (hreached : ∀ handle, c'.given? = some handle →
      ∃ db : Database C, r'.fleet.databases[handle]? = some db ∧ c'.Reached db.pipelines) :
    r'.Ready where
  sound := hr.sound.proceeds h
  databases := hf.ready hr.databases
  reached o ho handle hg := by
    rw [h.openings] at ho
    rcases (hr.sound.mem_note (opening?_eq_some h.here.opening).1 c').mp ho with rfl | ⟨hm, -⟩
    · exact hreached handle hg
    · obtain ⟨db, hdb, hold⟩ := hr.reached o hm handle hg
      obtain ⟨db', hdb', hstages⟩ := hf.stages handle db hdb
      exact ⟨db', hdb', hold.mono hstages⟩

theorem Ready.at (hr : r.Ready) (hat : r.At i name dsn c)
    (hg : c.given? = some handle) :
    ∃ db : Database C, r.fleet.databases[handle]? = some db ∧ c.Reached db.pipelines :=
  hr.reached _ (opening?_eq_some hat.opening).1 handle hg

theorem databases_report (r : Registry C σ) (i : Nat) (name : String) (handle : Nat)
    (outcome : Outcome) :
    (r.report i name handle outcome).fleet.databases = r.fleet.databases := by
  obtain ⟨f, hf, he⟩ := report_eq r i name handle outcome
  rw [he]
  exact hf

/-- An installation brings about what it comes to; the steps behind it find the handle traced. -/
theorem Ready.advances (hr : r.Ready) (hat : r.At i name dsn c)
    (hadv : r.Advances i name c c' r') : r'.Ready := by
  have hp := hadv.proceeds hat
  cases hadv with
  | @install handle p h hstep hh =>
    obtain ⟨hdb, -⟩ := Fleet.host?_eq_some.mp hh
    obtain ⟨db, hdb', hreached⟩ := hr.at hat rfl
    obtain rfl := Option.some.inj (hdb.symm.trans hdb')
    have hkeeps : h.Keeps (p.step r.options h).2 :=
      Tracing.Installation.Reached.keeps hreached r.options
    refine hr.proceeds hp (.put hh hkeeps) fun _ hg => ?_
    cases hg
    exact ⟨_, Fleet.databases_put_self hh _,
      Tracing.Installation.Reached.step hreached r.options (hr.databases _ _ hdb)⟩
  | report handle outcome =>
    have hd := databases_report r i name handle outcome
    refine hr.proceeds hp (.of_eq hd) fun _ hg => ?_
    cases hg
    obtain ⟨db, hdb, hreached⟩ := hr.at hat rfl
    exact ⟨db, hd ▸ hdb, hreached⟩
  | publish | announce =>
    refine hr.proceeds hp (.of_eq rfl) fun _ hg => ?_
    cases hg
    obtain ⟨db, hdb, hreached⟩ := hr.at hat rfl
    exact ⟨db, hdb, hreached⟩

theorem Ready.gives (hr : r.Ready) (hat : r.At i name dsn .asked) {cn : Connection C}
    {f : Fleet C σ} (hc : cn.Gives r.fleet f handle) (hgenuine : cn.Genuine σ) :
    ({ r with fleet := f }.note i (.installing handle .begun)).Ready := by
  have hkeeps : r.fleet.Keeps f := by
    cases hc with
    | fresh db => exact .add _ hgenuine.ready
    | existing _ => exact .of_eq rfl
  refine hr.proceeds (hat.proceeds_gives hc) hkeeps fun _ hg => ?_
  cases hg
  exact ⟨_, List.getElem?_eq_getElem hc.grown.2, trivial⟩

theorem Ready.move (hr : r.Ready) {m : Move C} (hm : (Event.move m : Event C σ).Genuine) :
    (r.move m).Ready := by
  have hs := hr.sound.move m
  have h := changes r m
  generalize r.move m = r' at hs h ⊢
  cases h with
  | quiet => exact hr.of_fleet hs (.of_eq rfl) fun _ => .inl
  | asks ha ho hn =>
    refine hr.of_fleet hs (.of_eq rfl) fun o ho => ?_
    rcases List.mem_append.mp ho with ho | ho
    · exact .inl ho
    · exact .inr (by rw [List.mem_singleton.mp ho]; rfl)
  | gives hat hc => exact hr.gives hat hc hm
  | fails hat he =>
    refine hr.proceeds (hat.proceeds_fails he) (.of_eq rfl) fun _ hg => ?_
    cases he.symm.trans hg
  | advances hat hadv => exact hr.advances hat hadv

theorem Ready.occur (hr : r.Ready) {e : Event C σ} (he : e.Genuine) : (r.occur e).Ready := by
  have hs := hr.sound.occur e
  cases e with
  | move m => exact hr.move he
  | supply db => exact hr.of_fleet hs (.add _ he.ready) fun _ => .inl
  | work handle f =>
    revert hs
    rw [Registry.occur]
    split
    · rename_i h hh
      have hdb := hr.databases _ _ (Fleet.host?_eq_some.mp hh).1
      exact fun hs => hr.of_fleet hs (.put hh ((he h).keeps hdb)) fun _ => .inl
    · exact fun _ => hr

theorem Ready.events (hr : r.Ready) {es : List (Event C σ)} (hes : ∀ e ∈ es, e.Genuine) :
    (r.events es).Ready := by
  induction es generalizing r with
  | nil => exact hr
  | cons e es ih =>
    obtain ⟨he, hes⟩ := List.forall_mem_cons.mp hes
    exact ih (hr.occur he) hes

/-- What the next step of an attempt reports of its installation. -/
def verdict? (r : Registry C σ) (i : Nat) : Option (String × Outcome) :=
  match r.group.state? i, r.opening? i with
  | some .running, some o => o.course.verdict?.map fun v => (o.name, v)
  | _, _ => none

/-- What an attempt reports of its installation over a history. -/
def verdicts (r : Registry C σ) (i : Nat) : List (Event C σ) → List Outcome
  | [] => []
  | e :: es =>
    (if e.advances i then ((r.verdict? i).map Prod.snd).toList else []) ++
      (r.occur e).verdicts i es

/-- A failed installation is what the registry warns of. -/
def complaint (name : String) : Outcome → List LogEvent
  | .ok _ => []
  | .error e => [partialEvent name e]

/-- What the registry warns of at a move. -/
def warned (r : Registry C σ) : Move C → List LogEvent
  | .advance i => (r.verdict? i).elim [] fun w => complaint w.1 w.2
  | _ => []

/-- Nothing but the steps of the attempt changes the handle. -/
def Undisturbed (r : Registry C σ) (i handle : Nat) : List (Event C σ) → Prop
  | [] => True
  | e :: es =>
    (e.advances i = false → (r.occur e).fleet.databases[handle]? = r.fleet.databases[handle]?) ∧
      (r.occur e).Undisturbed i handle es

theorem verdict?_of_at (hat : r.At i name dsn c) :
    r.verdict? i = c.verdict?.map fun v => (name, v) := by
  simp only [verdict?, hat.running, hat.opening]

theorem verdict?_eq_none {o : Opening} (ho : r.opening? i = some o)
    (hv : o.course.verdict? = none) : r.verdict? i = none := by
  unfold verdict?
  split
  · rename_i o' hs ho'
    rw [ho] at ho'
    cases ho'
    rw [hv]
    rfl
  · rfl

theorem verdict?_of_left_le (hc : c.left ≤ 2) : c.verdict? = none := by
  cases c with
  | installing _ p => simp [Course.left] at hc
  | asked | installed | kept | ended => rfl

/-- An attempt whose installation is over has nothing to report any more. -/
theorem verdicts_eq_nil (ho : r.opening? i = some ⟨i, name, dsn, c⟩)
    (hg : c.given? = some handle) (hc : c.left ≤ 2) (es : List (Event C σ)) :
    r.verdicts i es = [] := by
  induction es generalizing r c with
  | nil => rfl
  | cons e es ih =>
    have hnone := verdict?_eq_none ho (verdict?_of_left_le hc)
    have hrest : (r.occur e).verdicts i es = [] := by
      cases he : e.advances i with
      | false => exact ih (opening?_occur ho hg he) hg hc
      | true =>
        obtain rfl := Event.advances_iff.mp he
        rcases opening?_move ho (.advance i) with h | ⟨_, _, _, c', hp, -⟩
        · exact ih h hg hc
        · have hhere := hp.here.opening
          rw [ho] at hhere
          cases hhere
          exact ih hp.opening? (hp.next.given? handle hg) (hp.next.left_lt.le.trans hc)
    rw [verdicts, hrest, hnone]
    simp

/-- An installation goes on to what it has come to from the start, or it is over and its outcome is
reported. -/
theorem Sound.installs (hs : r.Sound) {p : Tracing.Installation}
    (ho : r.opening? i = some ⟨i, name, dsn, .installing handle p⟩)
    (hlt : handle < r.fleet.databases.length) :
    (∃ p', (r.advance i).opening? i = some ⟨i, name, dsn, .installing handle p'⟩ ∧
        r.verdict? i = none ∧ ∀ h : Host C σ, r.fleet.databases[handle]? = some h.database →
          ∃ k : Host C σ, (r.advance i).fleet.databases[handle]? = some k.database ∧
            (p'.remainder r.options k).1 = (p.remainder r.options h).1) ∨
      ∃ v, p = .finished v ∧ r.verdict? i = some (name, v) ∧
        (r.advance i).opening? i = some ⟨i, name, dsn, .installed handle⟩ := by
  have hat : r.At i name dsn (.installing handle p) := by
    rcases hs.agrees _ (opening?_eq_some ho).1 with ha | ⟨e, -, he, -⟩
    · exact ⟨by rw [FlightGroup.state?, ha]; rfl, ho⟩
    · cases he
  have hverdict := verdict?_of_at hat
  rcases hat.advances with ⟨c', hadv⟩ | ⟨-, -, hstays⟩
  · have hnext := (hadv.proceeds hat).opening?
    generalize r.advance i = r' at hadv hnext ⊢
    cases hadv with
    | @install _ _ h₀ hp hh =>
      refine .inl ⟨_, hnext, ?_, fun h hdb => ⟨_, Fleet.databases_put_self hh _, ?_⟩⟩
      · rw [hverdict, Course.verdict?, hp, Option.map_none]
      · rw [Tracing.Installation.remainder_step]
        refine Tracing.Installation.remainder_congr r.options p ?_
        exact Option.some.inj ((Fleet.host?_eq_some.mp hh).1.symm.trans hdb)
    | report _ outcome => exact .inr ⟨outcome, rfl, hverdict, hnext⟩
  · obtain ⟨e, he⟩ := hstays handle rfl hlt
    cases he

/-- An attempt reports once what its installation has come to. That is what installing the plugin on
the handle comes to, if nothing else changes the handle meanwhile. -/
theorem Sound.verdicts (hs : r.Sound) {p : Tracing.Installation}
    (ho : r.opening? i = some ⟨i, name, dsn, .installing handle p⟩)
    (hlt : handle < r.fleet.databases.length) (es : List (Event C σ)) :
    (∃ p', (r.events es).opening? i = some ⟨i, name, dsn, .installing handle p'⟩) ∨
      ∃ v, r.verdicts i es = [v] ∧ (r.Undisturbed i handle es → ∀ h : Host C σ,
        r.fleet.databases[handle]? = some h.database → v = (p.remainder r.options h).1) := by
  induction es generalizing r p with
  | nil => exact .inl ⟨p, ho⟩
  | cons e es ih =>
    have hgrown := hlt.trans_le (length_databases_occur r e)
    have hoptions := options_occur r e
    rw [events_cons, Registry.verdicts]
    cases he : e.advances i with
    | false =>
      refine (ih (hs.occur e) (opening?_occur ho rfl he) hgrown).imp_right ?_
      rintro ⟨v, hv, hsame⟩
      refine ⟨v, by simp [hv], fun hund h hdb => ?_⟩
      rw [hsame hund.2 h ((hund.1 he).trans hdb), hoptions]
    | true =>
      obtain rfl := Event.advances_iff.mp he
      rcases hs.installs ho hlt with ⟨p', hnext, hnone, hgoes⟩ | ⟨v, rfl, hv, hnext⟩
      · refine (ih (hs.occur (.move (.advance i))) hnext hgrown).imp_right ?_
        rintro ⟨v, hv, hsame⟩
        refine ⟨v, by simp [hv, hnone], fun hund h hdb => ?_⟩
        obtain ⟨k, hk, hsteps⟩ := hgoes h hdb
        rw [hsame hund.2 k hk, hoptions, hsteps]
      · have hrest : (r.occur (.move (.advance i))).verdicts i es = [] :=
          verdicts_eq_nil hnext rfl le_rfl es
        exact .inr ⟨v, by simp [hv, hrest], fun _ _ _ => rfl⟩

/-- What comes of an attempt, asked for that name, that the connector gives a handle: whatever
happens in between, once the attempt has made its steps, -/
structure Publication (r : Registry C σ) (i : Nat) (name dsn : String) (c : Connection C)
    (f : Fleet C σ) (handle : Nat) : Prop where
  /-- the handle is kept under the name; -/
  kept : ∀ es : List (Event C σ), stepsToEnd ≤ es.countP (Event.advances i) →
    ((r.connect i c).events es).handle? name = some handle
  /-- it is what the attempt has returned; -/
  returned : ∀ es : List (Event C σ), stepsToEnd ≤ es.countP (Event.advances i) →
    ∃ st, (((r.connect i c).events es).tell i).group.attempts[i]? = some ⟨name, dsn, st⟩ ∧
      st.channel.outcome = some (.ok handle)
  /-- it is what those are given who wait for it; -/
  told : ∀ es : List (Event C σ), stepsToEnd ≤ es.countP (Event.advances i) → ∀ q : Nat,
    ((r.connect i c).events es).group.requests[q]? = some ⟨name, .waiting i⟩ →
    (((r.connect i c).events es).tell i).group.requests[q]? = some ⟨name, .answered (.ok handle)⟩
  /-- and the attempt has reported once whether the plugin could be installed, which is what
  installing it comes to on the handle as it was given, unless somebody else has changed it. -/
  verdict : ∀ es : List (Event C σ), stepsToEnd ≤ es.countP (Event.advances i) →
    ∃ v, (r.connect i c).verdicts i es = [v] ∧
      ((r.connect i c).Undisturbed i handle es → ∀ h : Host C σ,
        f.databases[handle]? = some h.database → v = (h.install (Tracing.plugin r.options)).1)

theorem Sound.publication (hs : r.Sound) (hat : r.At i name dsn .asked) {c : Connection C}
    {f : Fleet C σ} (hc : c.Gives r.fleet f handle) : r.Publication i name dsn c f handle := by
  have hsound : (r.connect i c).Sound := hs.move (.connect i c)
  have hended : ∀ {es : List (Event C σ)}, stepsToEnd ≤ es.countP (Event.advances i) →
      ((r.connect i c).events es).opening? i =
        some ⟨i, name, dsn, .ended (.returned (.ok handle))⟩ :=
    fun hes => (hs.ended_of_gives hat hc hes).1
  refine ⟨fun es hes => (hs.ended_of_gives hat hc hes).2,
    fun es hes => (hsound.events es).outcome_tell (hended hes), fun es hes q hq => ?_,
    fun es hes => ?_⟩
  · obtain ⟨w, ha⟩ := (hsound.events es).group.waiting _ (List.mem_of_getElem? hq) i rfl
    obtain ⟨st, ha'⟩ := (hsound.events es).filed _ (opening?_eq_some (hended hes)).1
    cases ha.symm.trans ha'
    rw [tell_of_ended (hended hes)]
    rcases FlightGroup.requests_send ha (.returned (.ok handle)) hq with ⟨-, h⟩ | ⟨hne, -⟩
    · exact h
    · exact absurd rfl hne
  · have heq := connect_of_gives hat hc
    have ho : (r.connect i c).opening? i = some ⟨i, name, dsn, .installing handle .begun⟩ := by
      rw [heq]
      exact opening?_note_self (r := { r with fleet := f }) hat.opening _
    have hfleet : (r.connect i c).fleet = f := by rw [heq]; rfl
    have hoptions := options_move r (.connect i c)
    rw [Registry.move] at hoptions
    have hlt : handle < (r.connect i c).fleet.databases.length := by
      rw [hfleet]
      exact hc.grown.2
    rcases hsound.verdicts ho hlt es with ⟨p', h⟩ | ⟨v, hv, hsame⟩
    · cases (hended hes).symm.trans h
    · refine ⟨v, hv, fun hund h hdb => ?_⟩
      rw [hsame hund h (by rw [hfleet]; exact hdb), hoptions]
      rfl

/-- What the registry itself warns of. -/
def warnings (log : List LogEvent) : List LogEvent :=
  log.filter fun e => e.component = .registry ∧ e.level = .warn

@[simp] theorem warnings_append (l m : List LogEvent) :
    warnings (l ++ m) = warnings l ++ warnings m := List.filter_append ..

theorem warnings_step (o : Options) (p : Tracing.Installation) (h : Host C σ) :
    warnings (p.step o h).2.log = warnings h.log := by
  rcases Tracing.Installation.step_log o p h with he | ⟨n, he⟩ <;> rw [he]
  exact (warnings_append ..).trans (List.append_nil _)

theorem warnings_report (r : Registry C σ) (i : Nat) (name : String) (handle : Nat)
    (outcome : Outcome) :
    warnings (r.report i name handle outcome).fleet.log =
      warnings r.fleet.log ++ complaint name outcome := by
  cases outcome with
  | ok _ => exact (List.append_nil _).symm
  | error e => exact warnings_append ..

/-- A step of an attempt makes the registry warn exactly if it reports an installation that has
failed. -/
theorem warnings_advance (r : Registry C σ) (i : Nat) :
    warnings (r.advance i).fleet.log = warnings r.fleet.log ++ r.warned (.advance i) := by
  rw [warned]
  by_cases hat : ∃ name dsn c, r.At i name dsn c
  · obtain ⟨name, dsn, c, hat⟩ := hat
    rw [verdict?_of_at hat]
    rcases hat.advances with ⟨c', hadv⟩ | ⟨he, hnone, -⟩
    · generalize r.advance i = r' at hadv ⊢
      cases hadv with
      | @install _ p h hp hh =>
        obtain ⟨-, hhost⟩ := Fleet.host?_eq_some.mp hh
        have hlog : h.log = r.fleet.log := by rw [hhost]
        rw [Course.verdict?, hp]
        exact (warnings_step r.options p h).trans (by rw [hlog]; simp)
      | report handle outcome => exact warnings_report r i name handle outcome
      | publish handle => exact (List.append_nil _).symm
      | announce hdb => exact warnings_append ..
    · rw [he, hnone]
      exact (List.append_nil _).symm
  · have hsame : r.advance i = r := by
      rcases advance_cases r i with he | ⟨name, dsn, c, _, h, -⟩
      · exact he
      · exact absurd ⟨name, dsn, c, h⟩ hat
    have hnone : r.verdict? i = none := by
      unfold verdict?
      split
      · rename_i o hs ho
        obtain rfl := (opening?_eq_some ho).2
        exact absurd ⟨o.name, o.dsn, o.course, hs, ho⟩ hat
      · rfl
    rw [hsame, hnone]
    exact (List.append_nil _).symm

theorem warnings_move (r : Registry C σ) (m : Move C) :
    warnings (r.move m).fleet.log = warnings r.fleet.log ++ r.warned m := by
  by_cases hm : ∃ i, m = .advance i
  · obtain ⟨i, rfl⟩ := hm
    exact warnings_advance r i
  · have hquiet : r.warned m = [] := by
      cases m with
      | advance i => exact absurd ⟨i, rfl⟩ hm
      | _ => rfl
    have h := changes r m
    generalize r.move m = r' at h ⊢
    rw [hquiet, List.append_nil]
    cases h with
    | quiet => rfl
    | asks => exact (warnings_append ..).trans (List.append_nil _)
    | gives _ hc => cases hc <;> rfl
    | fails => rfl
    | advances => exact absurd ⟨_, rfl⟩ hm

/-- A registry whose kept handles are instrumented. -/
structure Instrumented (r : Registry C σ) : Prop where
  /-- The hooks of every stage are on every kept handle once. -/
  once : ∀ name handle, r.handle? name = some handle → ∃ db : Database C,
    r.fleet.databases[handle]? = some db ∧
      ∀ stage : Stage, (db.pipelines.stepNames stage.operation).count stage.name = 1
  /-- An attempt that is given a handle publishes it and returns it, installed or not. -/
  publication : ∀ i name dsn c f handle, r.At i name dsn .asked → c.Gives r.fleet f handle →
    r.Publication i name dsn c f handle
  /-- The registry warns at the moves that report an installation which has failed, and at no
  other. -/
  warns : ∀ m, warnings (r.move m).fleet.log = warnings r.fleet.log ++ r.warned m

theorem published_once (options : Options) (user : σ) {es : List (Event C σ)}
    (hes : ∀ e ∈ es, e.Genuine) : ((initial options user).events es).Instrumented where
  once name handle hh := by
    have hready := (ready_initial options user).events hes
    obtain ⟨db, hdb, ht⟩ := hready.traced hh
    exact ⟨db, hdb, ht.count_eq_one (hready.databases handle db hdb).sound⟩
  publication i name dsn c f handle hat hc :=
    ((sound_initial options user).events es).publication hat hc
  warns m := warnings_move _ m

/-- The handle is opened for one name and given out again for another, and the two attempts take
turns in installing the plugin. -/
def overlapping : List (Move Nat) :=
  [.look "a" "x", .enter "a" "x", .wake 0, .connect 0 (.fresh (.create "db" .mysql)),
    .look "b" "y", .enter "b" "y", .wake 1, .connect 1 (.existing 0),
    .advance 0, .advance 1, .advance 0, .advance 1, .advance 1] ++
      List.replicate stepsToEnd (.advance 0) ++ List.replicate stepsToEnd (.advance 1)

theorem genuine_overlapping :
    ∀ e ∈ overlapping.map (Event.move : Move Nat → Event Nat Unit), e.Genuine := by
  have hnew : (Database.create "db" .mysql : Database Nat).Supplied Unit :=
    ⟨"db", .mysql, ⟨.create "db" .mysql, .initial, [], ()⟩, _, rfl, .aside rfl, rfl⟩
  simp [overlapping, Event.Genuine, Connection.Genuine, hnew, stepsToEnd,
    Tracing.Installation.left, Stage.all]

/-- Each attempt is in the other's way, so that neither can install the plugin wholly. -/
theorem published_once_overlapping :
    (∀ e ∈ overlapping.map (Event.move : Move Nat → Event Nat Unit), e.Genuine) ∧
      ((initial .default ()).events (overlapping.map .move)).Instrumented ∧
      ((initial .default () : Registry Nat Unit).moves overlapping).handles =
        [("a", 0), ("b", 0)] ∧
      (warnings ((initial .default () : Registry Nat Unit).moves overlapping).fleet.log).length =
        2 :=
  ⟨genuine_overlapping, published_once .default () genuine_overlapping, by decide +kernel,
    by decide +kernel⟩

end Registry
end DatabaseTracing
