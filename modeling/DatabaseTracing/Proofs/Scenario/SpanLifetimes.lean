import DatabaseTracing.Proofs.Run.Holding
import DatabaseTracing.Scenario.Session

/-! # No span is lost or exported twice

The statements of all sessions hold the spans in their call states and those they were
made under. Every command, with all that scripted hooks do in it, keeps this account. So
a recorded span is exported once, when it is told to end or when the last statement lets
go of it, and is then left as it is.
-/
namespace DatabaseTracing

/-- The statement's span, or the one it was made under, is the recorded one. -/
def Statement.Refers (s : Statement) (i : Nat) : Prop :=
  s.callState.span.bind (·.record) = some i ∨ s.context.bind (·.record) = some i

theorem Statement.refers_iff {s : Statement} {i : Nat} :
    s.Refers i ↔ ∃ cx ∈ s.held, cx.record = some i := by
  simp only [Refers, held, List.mem_append, Option.mem_toList, Option.bind_eq_some_iff, or_and_right,
    exists_or, or_comm]

namespace Scenario
open Account

theorem reaches_editSpan (h : ScriptedHost) (s : Statement) (e : SpanEdit) :
    (h.account s).Reaches (Host.account
      { h with telemetry := s.callState.span.elim h.telemetry (h.telemetry.edit · e) } s) := by
  rw [Host.account_eq, Host.account_eq]
  cases s.callState.span with
  | none => exact .refl _
  | some cx => exact reaches_edit _ (Multiset.mem_add.mpr (.inl (Multiset.mem_singleton_self cx))) e

/-- The statement's context goes and makes room for another one. -/
theorem reaches_dropContext (h : ScriptedHost) (s : Statement) :
    (h.account s).Reaches
      ⟨h.telemetry.releaseAll s.context.toList, ↑s.callState.span.toList⟩ := by
  rw [Host.account_eq, Multiset.add_comm]
  exact reaches_releaseAll _ _ _

theorem Action.perform_reaches (a : Action) (h : ScriptedHost) (s : Statement) :
    (h.account s).Reaches ((a.perform h s).1.account (a.perform h s).2) := by
  cases a with
  | setError | clearError | setRows | setSql | pushVar | clearVars | clearStart | register
  | remove => exact .refl _
  | clearSpan =>
    rw [Host.account_eq, Host.account_eq, Action.perform, Option.toList_none, Multiset.coe_nil,
      Multiset.zero_add]
    exact reaches_releaseAll _ _ _
  | detach =>
    rw [Host.account_eq (Action.perform .detach h s).1, Action.perform, Option.toList_none,
      Multiset.coe_nil, Multiset.add_zero]
    exact reaches_dropContext h s
  | attach =>
    rw [Host.account_eq (Action.perform .attach h s).1, Action.perform, Option.toList_some,
      Multiset.coe_singleton, Multiset.add_comm, Multiset.singleton_add]
    have hempty (t : Telemetry) (held : Multiset Context) :
        Reaches ⟨t, held⟩ ⟨t, Context.empty ::ₘ held⟩ :=
      reaches_retain t (.inr (rfl : Context.empty.record = none))
    exact (reaches_dropContext h s).trans (hempty _ _)
  | spanAttribute key text => exact reaches_editSpan h s _
  | spanEnd => exact reaches_editSpan h s _
  | ifError a =>
    rw [Action.perform]
    split
    · exact Action.perform_reaches a h s
    · exact .refl _

theorem performAll_reaches (actions : List Action) (h : ScriptedHost) (s : Statement) :
    (h.account s).Reaches ((performAll actions h s).1.account (performAll actions h s).2) := by
  induction actions generalizing h s with
  | nil => exact .refl _
  | cons a actions ih => exact (a.perform_reaches h s).trans (ih _ _)

theorem userCode_careful : userCode.Careful := fun script h s =>
  performAll_reaches script.actions (ScriptedHost.noted h (.hook script.name h.database.name s)) s

namespace Session
variable {s : Session} {id : String} {st : Statement}

def held (s : Session) : List Context := s.statements.flatMap fun e => e.2.held

/-- Statements go by different names. -/
def Sound (s : Session) : Prop := (s.statements.map Prod.fst).Nodup

theorem Sound.dropStatement (hs : s.Sound) (id : String) : (s.dropStatement id).Sound :=
  (List.filter_sublist.map _).nodup hs

theorem Sound.putStatement (hs : s.Sound) (id : String) (st : Statement) :
    (s.putStatement id st).Sound :=
  nodup_keys_cons_filter hs id st

theorem held_putStatement (s : Session) (id : String) (st : Statement) :
    ((s.putStatement id st).held : Multiset Context) = ↑st.held + ↑(s.dropStatement id).held :=
  (Multiset.coe_add _ _).symm

theorem Sound.held_eq (hs : s.Sound) (h : s.statements.lookup id = some st) :
    (s.held : Multiset Context) = ↑st.held + ↑(s.dropStatement id).held := by
  rw [Multiset.coe_add]
  exact Multiset.coe_eq_coe.mpr ((perm_of_lookup_eq_some hs h).flatMap_right _)

theorem held_dropStatement (h : s.statements.lookup id = none) :
    (s.dropStatement id).held = s.held := by
  rw [held, dropStatement, filter_of_lookup_eq_none h, held]

/-- A new statement's context comes from elsewhere, or some statement holds it. -/
theorem Sound.contextOf (hs : s.Sound) (parent : Parent) {cx : Context}
    (h : s.contextOf parent = some cx) : cx ∈ s.held ∨ cx.record = none := by
  cases parent with
  | missing => cases h
  | empty | remote =>
    cases h
    exact .inr rfl
  | statement id =>
    cases hspan : (s.statements.lookup id).bind (·.callState.span) with
    | none =>
      rw [Session.contextOf, hspan] at h
      cases h
      exact .inr rfl
    | some span =>
      rw [Session.contextOf, hspan] at h
      cases h
      obtain ⟨st, hst, hspan⟩ := Option.bind_eq_some_iff.mp hspan
      have hheld : span ∈ st.held := by simp [Statement.held, hspan]
      exact .inl (List.mem_flatMap.mpr ⟨_, (lookup_eq_some_iff_mem hs).mp hst, hheld⟩)

end Session

namespace Desk
variable {d : Desk} {id : String} {s : Statement}

def account (d : Desk) : Account := ⟨d.host.telemetry, d.session.held⟩

/-- The desk after a command: the account has been led on, and names are still different. -/
structure Follows (d d' : Desk) : Prop where
  sound : d'.session.Sound
  reaches : d.account.Reaches d'.account

theorem Follows.of_eq {d' : Desk} (hd : d.session.Sound)
    (ht : d'.host.telemetry = d.host.telemetry)
    (hs : d'.session.statements = d.session.statements) : Follows d d' := by
  have haccount : d'.account = d.account := by
    rw [account, account, Session.held, Session.held, ht, hs]
  refine ⟨?_, haccount ▸ .refl _⟩
  rw [Session.Sound, hs]
  exact hd

theorem Follows.label {d' : Desk} (h : Follows d d') (id : String) (s : Statement) :
    Follows d (d'.label id s) := by
  unfold Desk.label
  split
  · exact ⟨h.sound, h.reaches⟩
  · exact h

/-- What is done on a statement of the session leaves the others what they hold. -/
theorem follows_work (hd : d.session.Sound) (hs : d.statement? id = some s) {h : ScriptedHost}
    {s' : Statement} (hr : (d.host.account s).Reaches (h.account s')) :
    Follows d ((d.withHost h).putStatement id s') := by
  refine ⟨hd.putStatement id s', ?_⟩
  have hbeside := hr.beside (d.session.dropStatement id).held
  have hbegin : d.account = (d.host.account s).beside (d.session.dropStatement id).held :=
    congrArg (Account.mk _) (hd.held_eq hs)
  have hend : ((d.withHost h).putStatement id s').account =
      (h.account s').beside (d.session.dropStatement id).held :=
    congrArg (Account.mk _) (Session.held_putStatement d.session id s')
  rwa [hbegin, hend]

/-- A new statement holds its context, besides what others hold. -/
theorem make_reaches (hd : d.session.Sound) (script : StatementScript) :
    d.account.Reaches ⟨(d.make script).2.host.telemetry,
      ↑(d.make script).1.held + ↑d.session.held⟩ := by
  rw [make, Statement.make]
  cases hcx : d.session.contextOf script.parent with
  | none => exact .refl _
  | some cx => exact reaches_retain _ (hd.contextOf script.parent hcx)

theorem follows_letGo {d' : Desk} (hd' : d'.session.Sound)
    (h : d.account.Reaches ⟨d'.host.telemetry, ↑s.held + ↑d'.session.held⟩) :
    Follows d (d'.letGo s) :=
  ⟨hd', h.trans (reaches_releaseAll _ _ _)⟩

theorem follows_statement (hd : d.session.Sound) (id : String) (script : StatementScript) :
    Follows d (d.perform (.statement id script)).2 := by
  have hmake := make_reaches hd script
  have hput := Session.held_putStatement d.session id (d.make script).1
  let made := (d.make script).2.putStatement id (d.make script).1
  have hmade : made.session.Sound := hd.putStatement id _
  have hperform : (d.perform (.statement id script)).2 =
      (d.session.statements.lookup id).elim made made.letGo := rfl
  rw [hperform]
  cases hold : d.session.statements.lookup id with
  | none =>
    rw [Session.held_dropStatement hold] at hput
    refine ⟨hmade, ?_⟩
    rwa [← hput] at hmake
  | some old =>
    -- The old statement goes last: the new one may have been made under its span.
    refine follows_letGo hmade ?_
    rw [hd.held_eq hold, ← Multiset.add_assoc, Multiset.add_comm _ (Multiset.ofList old.held),
      Multiset.add_assoc, ← hput] at hmake
    exact hmake

theorem run_reaches (d : Desk) (o : Operation) (outcome : Except DatabaseError UInt64)
    (s : Statement) : (d.host.account s).Reaches
      ((d.run o outcome s).2.2.host.account (d.run o outcome s).2.1) :=
  userCode_careful.run o { d.host with user := { d.host.user with outcome } } s

theorem follows_run (hd : d.session.Sound) (o : Operation)
    (outcome : Except DatabaseError UInt64) (target : RunTarget) :
    Follows d (d.perform (.run o outcome target)).2 := by
  cases target with
  | named id =>
    rw [perform]
    cases hs : d.statement? id with
    | none => exact .of_eq hd rfl rfl
    | some s => exact follows_work hd hs (run_reaches d o outcome s)
  | temporary script =>
    have hrun := (run_reaches (d.make script).2 o outcome (d.make script).1).beside d.session.held
    exact follows_letGo hd ((make_reaches hd script).trans hrun)

theorem follows_before (hd : d.session.Sound) (id hooks spanName : String) :
    Follows d (d.perform (.before id hooks spanName)).2 := by
  rw [perform]
  cases hs : d.statement? id with
  | none => exact .of_eq hd rfl rfl
  | some s =>
    cases hb : d.host.before (d.session.optionsOf hooks) spanName s with
    | none => simpa only [hb] using Follows.of_eq hd rfl rfl
    | some y =>
      simpa only [hb] using (follows_work hd hs (Host.before_reaches hb)).label id y.2

theorem follows_after (hd : d.session.Sound) (id hooks : String) :
    Follows d (d.perform (.after id hooks)).2 := by
  rw [perform]
  cases hs : d.statement? id with
  | none => exact .of_eq hd rfl rfl
  | some s =>
    cases ha : d.host.after (d.session.optionsOf hooks) s with
    | none => simpa only [ha] using Follows.of_eq hd rfl rfl
    | some y => simpa only [ha] using follows_work hd hs (Host.after_reaches ha)

theorem follows_setUp (hd : d.session.Sound) (p : Setup HookScript Bench) :
    Follows d (d.withHost (d.host.setUp p).2) :=
  .of_eq hd (Host.setUp_telemetry p d.host) rfl

theorem follows_perform (hd : d.session.Sound) (c : Command) : Follows d (d.perform c).2 := by
  cases c with
  | register | remove | names | allNames | hasPlugin | describe => exact .of_eq hd rfl rfl
  | usePlugin script =>
    rw [perform]
    cases script.plugin with
    | error e => exact .of_eq hd rfl rfl
    | ok p => exact follows_setUp hd _
  | setUpTracing source =>
    rw [perform]
    cases source.resolve with
    | error e => exact .of_eq hd rfl rfl
    | ok o => exact follows_setUp hd _
  | setGlobal p => exact ⟨hd, .call (c := .setGlobal p) trivial⟩
  | hooks id source =>
    rw [perform]
    cases source.resolve with
    | error e => exact .of_eq hd rfl rfl
    | ok o => exact .of_eq hd rfl rfl
  | statement id script => exact follows_statement hd id script
  | act id actions =>
    rw [perform]
    cases hs : d.statement? id with
    | none => exact .of_eq hd rfl rfl
    | some s => exact follows_work hd hs (performAll_reaches actions d.host s)
  | before id hooks spanName => exact follows_before hd id hooks spanName
  | after id hooks => exact follows_after hd id hooks
  | run o outcome target => exact follows_run hd o outcome target
  | drop id =>
    rw [perform]
    cases hs : d.statement? id with
    | none => exact .of_eq hd rfl rfl
    | some s =>
      refine follows_letGo (hd.dropStatement id) ?_
      rw [account, hd.held_eq hs]
      exact .refl _

end Desk

namespace Scene
variable {t : Scene}

/-- All statements there are. -/
def statements (t : Scene) : List Statement :=
  t.sessions.flatMap fun e => e.2.statements.map Prod.snd

def held (t : Scene) : List Context := t.sessions.flatMap fun e => e.2.held

def account (t : Scene) : Account := ⟨t.fleet.telemetry, t.held⟩

/-- Each handle has one session, and in that statements go by different names. -/
structure Sound (t : Scene) : Prop where
  handles : (t.sessions.map Prod.fst).Nodup
  sessions : ∀ e ∈ t.sessions, e.2.Sound

def others (t : Scene) (handle : Nat) : List (Nat × Session) :=
  t.sessions.filter fun e => e.1 != handle

theorem Sound.session (ht : t.Sound) (handle : Nat) :
    ((t.sessions.lookup handle).getD .empty).Sound ∧
      (t.held : Multiset Context) = ↑((t.sessions.lookup handle).getD .empty).held +
        ↑((t.others handle).flatMap fun e => e.2.held) := by
  cases hs : t.sessions.lookup handle with
  | none =>
    refine ⟨List.nodup_nil, ?_⟩
    rw [others, filter_of_lookup_eq_none hs]
    rfl
  | some session =>
    refine ⟨ht.sessions _ ((lookup_eq_some_iff_mem ht.handles).mp hs), ?_⟩
    rw [Multiset.coe_add]
    exact Multiset.coe_eq_coe.mpr ((perm_of_lookup_eq_some ht.handles hs).flatMap_right _)

theorem perform_reaches (ht : t.Sound) (handle : Nat) (c : Command) :
    (t.perform handle c).2.Sound ∧ t.account.Reaches (t.perform handle c).2.account := by
  rw [perform]
  cases hhost : t.fleet.host? handle with
  | none => exact ⟨ht, .refl _⟩
  | some host =>
    obtain ⟨hsession, hheld⟩ := ht.session handle
    obtain ⟨db, -, rfl⟩ := Option.map_eq_some_iff.mp hhost
    have hperform := Desk.follows_perform (d := ⟨⟨db, t.fleet.telemetry, t.fleet.log, t.fleet.user⟩,
      (t.sessions.lookup handle).getD .empty, t.labels⟩) hsession c
    refine ⟨⟨nodup_keys_cons_filter ht.handles handle _, fun e he => ?_⟩, ?_⟩
    · rcases List.mem_cons.mp he with rfl | he
      · exact hperform.sound
      · exact ht.sessions e (List.mem_filter.mp he).1
    · have hbeside := hperform.reaches.beside ((t.others handle).flatMap fun e => e.2.held)
      rw [account, hheld]
      exact hbeside

/-- Commands in order, each with the handle that it is carried out on. -/
def performAll (t : Scene) (cs : List (Nat × Command)) : Scene :=
  cs.foldl (fun t c => (t.perform c.1 c.2).2) t

theorem performAll_reaches (ht : t.Sound) (cs : List (Nat × Command)) :
    (t.performAll cs).Sound ∧ t.account.Reaches (t.performAll cs).account := by
  induction cs generalizing t with
  | nil => exact ⟨ht, .refl _⟩
  | cons c cs ih =>
    obtain ⟨hsound, hstep⟩ := perform_reaches ht c.1 c.2
    obtain ⟨hall, hrest⟩ := ih hsound
    exact ⟨hall, hstep.trans hrest⟩

/-- Handles with hooks on them that nothing has been done with yet. -/
def start (databases : List (Database HookScript)) (user : Bench) : Scene :=
  ⟨⟨databases, .initial, [], user⟩, [], []⟩

theorem sound_start (databases : List (Database HookScript)) (user : Bench) :
    (start databases user).Sound :=
  ⟨List.nodup_nil, nofun⟩

theorem held_eq (t : Scene) : t.held = t.statements.flatMap Statement.held := by
  simp only [held, Session.held, statements, List.flatMap_assoc, List.flatMap_map]

theorem holdersOf_pos_iff {i : Nat} :
    0 < t.account.holdersOf i ↔ ∃ s ∈ t.statements, s.Refers i := by
  rw [holdersOf, Multiset.countP_pos, account, held_eq]
  constructor
  · rintro ⟨cx, hcx, hi⟩
    obtain ⟨s, hs, hheld⟩ := List.mem_flatMap.mp (Multiset.mem_coe.mp hcx)
    exact ⟨s, hs, Statement.refers_iff.mpr ⟨cx, hheld, hi⟩⟩
  · rintro ⟨s, hs, hi⟩
    obtain ⟨cx, hheld, hi⟩ := Statement.refers_iff.mp hi
    exact ⟨cx, Multiset.mem_coe.mpr (List.mem_flatMap.mpr ⟨s, hs, hheld⟩), hi⟩

/-- After any commands, all exports are of recorded spans, and none is exported twice. A recorded
span has not been exported exactly if it has not been told to end and some statement refers to it:
there are calls that have led here, and it is so for all that may have. What has been exported stays
as it is. -/
theorem spans_exported_once (databases : List (Database HookScript)) (user : Bench)
    (cs ds : List (Nat × Command)) :
    let t := (start databases user).performAll cs
    t.fleet.telemetry.exports.Nodup ∧
      (∀ i ∈ t.fleet.telemetry.exports, i < t.fleet.telemetry.records.length) ∧
      (∃ calls, Leads ⟨.initial, 0⟩ calls t.account) ∧
      (∀ calls, Leads ⟨.initial, 0⟩ calls t.account → ∀ i < t.fleet.telemetry.records.length,
        (i ∉ t.fleet.telemetry.exports ↔ ¬ Told calls i ∧ ∃ s ∈ t.statements, s.Refers i)) ∧
      t.fleet.telemetry.exportedData <+: (t.performAll ds).fleet.telemetry.exportedData := by
  intro t
  obtain ⟨hsound, calls, hcalls⟩ := performAll_reaches (sound_start databases user) cs
  obtain ⟨-, later, hlater⟩ := performAll_reaches hsound ds
  have hbalanced : t.account.Balanced := hcalls.calls ▸ balanced_initial.calls hcalls.permits
  refine ⟨hbalanced.once, fun i hi => ?_, ⟨calls, hcalls⟩, fun calls hcalls i hi => ?_, ?_⟩
  · obtain ⟨r, hr, -⟩ := (hbalanced.exported i).mp hi
    exact (List.getElem?_eq_some_iff.mp hr).1
  · have hiff := not_mem_exports_iff hcalls.permits (i := i)
    rw [hcalls.calls, holdersOf_pos_iff] at hiff
    exact hiff hi
  · have hprefix := hbalanced.exportedData_calls hlater.permits
    rwa [hlater.calls] at hprefix

/-- A span outlives its statement as long as there is another one that was made under it. -/
example :
    let t := (start [.create "db" .mysql] .initial).performAll
      [(0, .setGlobal (.recording "p")), (0, .statement "a" ⟨"", [], .empty⟩),
        (0, .before "a" "" "s"), (0, .statement "b" ⟨"", [], .statement "a"⟩), (0, .drop "a")]
    t.fleet.telemetry.exports = [] ∧
      (t.perform 0 (.drop "b")).2.fleet.telemetry.exports = [0] := by
  decide

end Scene
end Scenario
end DatabaseTracing
