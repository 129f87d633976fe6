import DatabaseTracing.Proofs.Registry.Steps
import Mathlib.Data.List.Nodup
import Mathlib.Data.List.Pairwise

/-! # What holds in every state of a registry

The kept handles, the table of attempts and the answers that callers have been given
agree with the calls of the connector: a call belongs to an attempt that runs or has
sent what the call came to, only failures are followed by another call for the same
name, and a name is kept with the handle of its successful call, which is the only
handle that attempts and callers for the name are given.
-/
namespace DatabaseTracing

namespace Opening

/-- The attempt has ended without a handle. -/
def Failed (o : Opening) : Prop := ∃ e, o.course = .ended e ∧ e.value? = none

/-- The connector has given the handle. -/
def Opened (o : Opening) (h : Nat) : Prop := o.course.given? = some h

def Kept (o : Opening) (h : Nat) : Prop := o.course.kept? = some h

theorem Kept.opened {o : Opening} {h : Nat} (ho : o.Kept h) : o.Opened h :=
  Course.given?_of_kept? ho

theorem Opened.not_failed {o : Opening} {h : Nat} (ho : o.Opened h) : ¬ o.Failed := by
  rintro ⟨e, he, hne⟩
  rw [Opened, he] at ho
  change e.value? = some h at ho
  rw [hne] at ho
  cases ho

theorem not_failed_of_next {o : Opening} {c : Course} (ho : o.course.Next c) : ¬ o.Failed := by
  rintro ⟨e, he, -⟩
  exact ho.not_ended e he

theorem failed_or (o : Opening) : o.Failed ∨ (∀ e, o.course ≠ .ended e) ∨ ∃ h, o.Kept h := by
  cases hc : o.course with
  | asked | installing | installed | kept => exact .inr (.inl nofun)
  | ended e =>
    cases hv : e.value? with
    | none => exact .inl ⟨e, hc, hv⟩
    | some h => exact .inr (.inr ⟨h, by rw [Kept, hc]; exact hv⟩)

/-- The attempt of the call runs, or has the outcome that the call came to. -/
def Agrees (g : FlightGroup String Nat) (o : Opening) : Prop :=
  g.attempts[o.attempt]? = some ⟨o.name, o.dsn, .running⟩ ∨
    ∃ e st, o.course = .ended e ∧ g.attempts[o.attempt]? = some ⟨o.name, o.dsn, st⟩ ∧
      st.channel.outcome = some (e.outcome o.name)

theorem Agrees.move {g : FlightGroup String Nat} {o : Opening} (ho : o.Agrees g)
    (m : FlightGroup.Move String Nat) (hm : ∀ e, m = .send o.attempt e → o.course = .ended e) :
    o.Agrees (g.move m) := by
  rcases ho with ha | ⟨e, st, he, ha, hst⟩
  · rcases FlightGroup.running_move ha m with hr | ⟨e, rfl⟩
    · exact .inl hr
    · exact .inr ⟨e, _, hm e rfl, FlightGroup.attempts_send_self ha e, rfl⟩
  · obtain ⟨st', hst', hx⟩ := FlightGroup.attempts_move_of_some ha m
    exact .inr ⟨e, st', he, hst', hx _ hst⟩

end Opening

namespace Registry
variable {C σ : Type} {r r' : Registry C σ}

structure Sound (r : Registry C σ) : Prop where
  group : r.group.Exact
  agrees : ∀ o ∈ r.openings, o.Agrees r.group
  once : (r.openings.map Opening.attempt).Nodup
  failures : r.openings.Pairwise fun a b => a.name = b.name → a.Failed
  kept : ∀ name h, r.handle? name = some h ↔ ∃ o ∈ r.openings, o.name = name ∧ o.Kept h
  outcomes : ∀ (i : Nat) (key w : String) (st : AttemptState Nat) (h : Nat),
    r.group.attempts[i]? = some ⟨key, w, st⟩ → st.channel.outcome = some (.ok h) →
      r.handle? key = some h
  answered : ∀ q ∈ r.group.requests, ∀ h, q.state = .answered (.ok h) → r.handle? q.key = some h

theorem sound_initial (options : Options) (user : σ) :
    (initial options user : Registry C σ).Sound where
  group := FlightGroup.exact_empty
  agrees := by simp [initial]
  once := by simp [initial]
  failures := by simp [initial]
  kept := by simp [initial, handle?]
  outcomes := by simp [initial, FlightGroup.empty]
  answered := by simp [initial, FlightGroup.empty]

/-- Each call of the connector is that of an attempt for its name. -/
def Filed (r : Registry C σ) : Prop :=
  ∀ o ∈ r.openings, ∃ st, r.group.attempts[o.attempt]? = some ⟨o.name, o.dsn, st⟩

theorem Sound.filed (hs : r.Sound) : r.Filed := by
  intro o ho
  rcases hs.agrees o ho with h | ⟨_, st, _, h, _⟩
  · exact ⟨_, h⟩
  · exact ⟨st, h⟩

theorem Sound.opening_unique (hs : r.Sound) {a b : Opening} (ha : a ∈ r.openings)
    (hb : b ∈ r.openings) (h : a.attempt = b.attempt) : a = b :=
  List.inj_on_of_nodup_map hs.once ha hb h

/-- Of the calls for one name all but one have failed. -/
theorem Sound.not_failed_unique (hs : r.Sound) {a b : Opening}
    (ha : a ∈ r.openings) (hb : b ∈ r.openings) (h : a.name = b.name) (hfa : ¬ a.Failed)
    (hfb : ¬ b.Failed) : a = b := by
  by_contra hne
  have hp : r.openings.Pairwise fun a b => a.name = b.name → a.Failed ∨ b.Failed :=
    hs.failures.imp fun hab he => Or.inl (hab he)
  have hsymm : Std.Symm fun a b : Opening => a.name = b.name → a.Failed ∨ b.Failed :=
    ⟨fun a b hab he => (hab he.symm).symm⟩
  rcases hp.forall ha hb hne h with hf | hf
  · exact hfa hf
  · exact hfb hf

/-- Nothing is kept for a name while the attempt that has called for it goes on without keeping. -/
theorem Sound.handle?_eq_none (hs : r.Sound) {o : Opening} (ho : o ∈ r.openings)
    (hf : ¬ o.Failed) (hk : o.course.kept? = none) : r.handle? o.name = none := by
  cases h : r.handle? o.name with
  | none => rfl
  | some k =>
    obtain ⟨p, hp, hn, hpk⟩ := (hs.kept o.name k).mp h
    have heq := hs.not_failed_unique hp ho hn hpk.opened.not_failed hf
    subst heq
    rw [Opening.Kept, hk] at hpk
    cases hpk

theorem Sound.withFleet (hs : r.Sound) (fleet : Fleet C σ) :
    ({ r with fleet } : Registry C σ).Sound :=
  ⟨hs.group, hs.agrees, hs.once, hs.failures, hs.kept, hs.outcomes, hs.answered⟩

theorem Sound.withSeekers (hs : r.Sound) (seekers : List (String × String)) :
    ({ r with seekers } : Registry C σ).Sound :=
  ⟨hs.group, hs.agrees, hs.once, hs.failures, hs.kept, hs.outcomes, hs.answered⟩

/-- A move of the group is in order if a call's attempt sends what the call came to, and whatever
handle is sent is the one that is kept. -/
theorem Sound.group_move (hs : r.Sound) (m : FlightGroup.Move String Nat)
    (hcall : ∀ o ∈ r.openings, ∀ e, m = .send o.attempt e → o.course = .ended e)
    (hsend : ∀ i e key w h, m = .send i e → r.group.attempts[i]? = some ⟨key, w, .running⟩ →
      e.outcome key = .ok h → r.handle? key = some h) :
    ({ r with group := r.group.move m } : Registry C σ).Sound := by
  have houtcomes : ∀ (i : Nat) (key w : String) (st : AttemptState Nat) (h : Nat),
      (r.group.move m).attempts[i]? = some ⟨key, w, st⟩ →
      st.channel.outcome = some (.ok h) → r.handle? key = some h := by
    intro i key w st h ha hx
    rcases FlightGroup.outcome_move ha hx with ⟨st₀, h₀, hx₀⟩ | ⟨e, he, hr, hout⟩
    · exact hs.outcomes i key w st₀ h h₀ hx₀
    · exact hsend i e key w h he hr hout.symm
  refine ⟨hs.group.move m, fun o ho => (hs.agrees o ho).move m (hcall o ho), hs.once, hs.failures,
    hs.kept, houtcomes, fun q hq h hx => ?_⟩
  rcases hs.group.answered_move hq hx with hold | ⟨i, w, st, ha, ho⟩
  · exact hs.answered q hold h hx
  · exact houtcomes i q.key w st h ha ho

/-- Moves that send nothing are in order. -/
theorem Sound.group_quiet (hs : r.Sound) {m : FlightGroup.Move String Nat}
    (hm : ∀ i e, m ≠ .send i e) : ({ r with group := r.group.move m } : Registry C σ).Sound :=
  hs.group_move m (fun _ _ _ he => absurd he (hm _ _)) fun _ _ _ _ _ he => absurd he (hm _ _)

theorem Sound.look (hs : r.Sound) (name dsn : String) : (r.look name dsn).Sound := by
  unfold Registry.look
  split
  · rename_i h hh
    refine ⟨hs.group.answer name _, hs.agrees, hs.once, hs.failures, hs.kept, hs.outcomes, ?_⟩
    intro q hq k hx
    rcases List.mem_append.mp hq with hq | hq
    · exact hs.answered q hq k hx
    · rw [List.mem_singleton.mp hq] at hx ⊢
      cases hx
      exact hh
  · exact hs.withSeekers _

theorem Sound.enter (hs : r.Sound) (name dsn : String) : (r.enter name dsn).Sound := by
  unfold Registry.enter
  split
  · exact (hs.group_quiet (m := .work name dsn) (by simp)).withSeekers _
  · exact hs

/-- A new call is in order if nothing is kept for the name of a running attempt that has not called
yet: the earlier calls for the name belong to other attempts, so they have failed. -/
theorem Sound.call (hs : r.Sound) {i : Nat} {name dsn : String}
    (ha : r.group.attempts[i]? = some ⟨name, dsn, .running⟩) (hi : ∀ o ∈ r.openings, o.attempt ≠ i)
    (hn : r.handle? name = none) (fleet : Fleet C σ) :
    ({ r with openings := r.openings ++ [⟨i, name, dsn, .asked⟩], fleet } : Registry C σ).Sound := by
  have hfailed : ∀ o ∈ r.openings, o.name = name → o.Failed := by
    intro o ho hname
    rcases o.failed_or with h | h | ⟨k, hk⟩
    · exact h
    · rcases hs.agrees o ho with hr | ⟨e, _, he, _⟩
      · rw [hname] at hr
        exact absurd (hs.group.running_unique hr ha) (hi o ho)
      · exact absurd he (h e)
    · rw [(hs.kept name k).mpr ⟨o, ho, hname, hk⟩] at hn
      cases hn
  refine ⟨hs.group, ?_, ?_, ?_, ?_, hs.outcomes, hs.answered⟩
  · intro o ho
    rcases List.mem_append.mp ho with ho | ho
    · exact hs.agrees o ho
    · rw [List.mem_singleton.mp ho]
      exact Or.inl ha
  · rw [List.map_append, List.nodup_append]
    refine ⟨hs.once, by simp, ?_⟩
    rintro a hm b hb rfl
    obtain ⟨o, ho, rfl⟩ := List.mem_map.mp hm
    rw [List.map_singleton, List.mem_singleton] at hb
    exact hi o ho hb
  · rw [List.pairwise_append]
    refine ⟨hs.failures, List.pairwise_singleton _ _, ?_⟩
    intro o ho p hp hname
    rw [List.mem_singleton.mp hp] at hname
    exact hfailed o ho hname
  · intro k h
    change r.handle? k = some h ↔ _
    rw [hs.kept k h]
    constructor
    · rintro ⟨o, ho, hname, hk⟩
      exact ⟨o, List.mem_append_left _ ho, hname, hk⟩
    · rintro ⟨o, ho, hname, hk⟩
      rcases List.mem_append.mp ho with ho | ho
      · exact ⟨o, ho, hname, hk⟩
      · rw [List.mem_singleton.mp ho] at hk
        cases hk

theorem Sound.wake (hs : r.Sound) (i : Nat) : (r.wake i).Sound := by
  rcases wake_cases r i with h | ⟨name, dsn, ha, ho, ⟨h, hh, he⟩ | ⟨hn, he⟩⟩
  · rw [h]
    exact hs
  · rw [he]
    refine hs.group_move (.send i (.returned (.ok h))) ?_ ?_
    · intro o hm e he
      cases he
      exact absurd rfl (opening?_eq_none ho o hm)
    · intro j e key w k he ha' hk
      cases he
      rw [ha] at ha'
      cases ha'
      cases hk
      exact hh
  · rw [he]
    exact hs.call ha (opening?_eq_none ho) hn _

/-- Only the call of the attempt is changed. -/
theorem Sound.mem_note (hs : r.Sound) {p : Opening} (hp : p ∈ r.openings) (c : Course)
    {o : Opening} : o ∈ (r.note p.attempt c).openings ↔
      o = { p with course := c } ∨ o ∈ r.openings ∧ o ≠ p := by
  unfold note
  rw [List.mem_map]
  constructor
  · rintro ⟨q, hq, rfl⟩
    by_cases h : q.attempt = p.attempt
    · rw [hs.opening_unique hq hp h]
      simp
    · rw [if_neg h]
      exact Or.inr ⟨hq, fun he => h (congrArg Opening.attempt he)⟩
  · rintro (rfl | ⟨ho, hne⟩)
    · exact ⟨p, hp, by simp⟩
    · refine ⟨o, ho, if_neg ?_⟩
      exact fun h => hne (hs.opening_unique ho hp h)

theorem map_attempt_note (r : Registry C σ) (i : Nat) (c : Course) :
    (r.note i c).openings.map Opening.attempt = r.openings.map Opening.attempt := by
  rw [note, List.map_map]
  refine List.map_congr_left fun o _ => ?_
  simp only [Function.comp_apply]
  split <;> rfl

/-- A call that goes on is in front of no other call for its name. -/
theorem Sound.failures_note (hs : r.Sound) {p : Opening} (hp : p ∈ r.openings) (hf : ¬ p.Failed)
    (c : Course) :
    (r.note p.attempt c).openings.Pairwise fun a b => a.name = b.name → a.Failed := by
  rw [note, List.pairwise_map]
  apply hs.failures.imp_of_mem
  intro a b ha hb hab hname
  by_cases hi : a.attempt = p.attempt
  · rw [hs.opening_unique ha hp hi] at hab hname
    refine absurd (hab ?_) hf
    split at hname <;> split at hname <;> exact hname
  · rw [if_neg hi] at hname ⊢
    apply hab
    split at hname <;> exact hname

/-- If the next course keeps no more than the last one, the same handles are kept. -/
theorem Sound.kept_note (hs : r.Sound) {p : Opening} (hp : p ∈ r.openings) {c : Course}
    (hc : c.kept? = p.course.kept?) (k : String) (h : Nat) :
    (∃ o ∈ (r.note p.attempt c).openings, o.name = k ∧ o.Kept h) ↔
      ∃ o ∈ r.openings, o.name = k ∧ o.Kept h := by
  constructor
  · rintro ⟨o, ho, hname, hk⟩
    rcases (hs.mem_note hp c).mp ho with rfl | ⟨hm, -⟩
    · exact ⟨p, hp, hname, hc.symm.trans hk⟩
    · exact ⟨o, hm, hname, hk⟩
  · rintro ⟨o, ho, hname, hk⟩
    by_cases hop : o = p
    · subst hop
      exact ⟨_, (hs.mem_note hp c).mpr (.inl rfl), hname, hc.trans hk⟩
    · exact ⟨o, (hs.mem_note hp c).mpr (.inr ⟨ho, hop⟩), hname, hk⟩

/-- The call that keeps a handle now is the only one that may have kept one for its name. -/
theorem Sound.kept_publish (hs : r.Sound) {p : Opening} (hp : p ∈ r.openings) (hf : ¬ p.Failed)
    {c : Course} {handle : Nat} (hc : c.kept? = some handle) (k : String) (h : Nat) :
    (∃ o ∈ (r.note p.attempt c).openings, o.name = k ∧ o.Kept h) ↔
      if k = p.name then handle = h else r.handle? k = some h := by
  constructor
  · rintro ⟨o, ho, rfl, hk⟩
    rcases (hs.mem_note hp c).mp ho with rfl | ⟨hm, hne⟩
    · rw [if_pos rfl]
      exact Option.some.inj (hc.symm.trans hk)
    · by_cases hname : o.name = p.name
      · exact absurd (hs.not_failed_unique hm hp hname hk.opened.not_failed hf) hne
      · rw [if_neg hname]
        exact (hs.kept o.name h).mpr ⟨o, hm, rfl, hk⟩
  · intro hk
    by_cases hname : k = p.name
    · subst hname
      rw [if_pos rfl] at hk
      exact ⟨_, (hs.mem_note hp c).mpr (.inl rfl), rfl, hk ▸ hc⟩
    · rw [if_neg hname] at hk
      obtain ⟨o, ho, rfl, ho'⟩ := (hs.kept k h).mp hk
      refine ⟨o, (hs.mem_note hp c).mpr (.inr ⟨ho, ?_⟩), rfl, ho'⟩
      rintro rfl
      exact hname rfl

/-- What is kept for a name stays as it is. -/
theorem Sound.handle?_proceeds (hs : r.Sound) {i : Nat} {name dsn : String} {c c' : Course}
    (h : r.Proceeds r' i name dsn c c') {k : String} {handle : Nat}
    (hk : r.handle? k = some handle) : r'.handle? k = some handle := by
  rcases h.handles with ⟨he, -⟩ | ⟨hnone, h₀, -, he⟩
  · exact (congrArg (·.lookup k) he).trans hk
  · have hm := (opening?_eq_some h.here.opening).1
    have hfree := hs.handle?_eq_none hm (Opening.not_failed_of_next h.next) hnone
    have hne : k ≠ name := by
      rintro rfl
      rw [hk] at hfree
      cases hfree
    rw [handle?, he, lookup_publish, if_neg hne]
    exact hk

theorem Sound.proceeds (hs : r.Sound) {i : Nat} {name dsn : String} {c c' : Course}
    (h : r.Proceeds r' i name dsn c c') : r'.Sound := by
  have hm := (opening?_eq_some h.here.opening).1
  have hf : ¬ (⟨i, name, dsn, c⟩ : Opening).Failed := Opening.not_failed_of_next h.next
  have hmem := fun o => hs.mem_note hm c' (o := o)
  refine ⟨h.group ▸ hs.group, ?_, ?_, h.openings ▸ hs.failures_note hm hf c', ?_, ?_, ?_⟩
  · intro o ho
    rw [h.openings, hmem] at ho
    rw [h.group]
    rcases ho with rfl | ⟨ho, -⟩
    · rcases hs.agrees _ hm with ha | ⟨e, _, he, -⟩
      · exact .inl ha
      · exact absurd he (h.next.not_ended e)
    · exact hs.agrees o ho
  · rw [h.openings, map_attempt_note]
    exact hs.once
  · intro k handle
    rw [h.openings]
    rcases h.handles with ⟨he, hc⟩ | ⟨-, h₀, hc, he⟩
    · rw [hs.kept_note hm hc k handle, ← hs.kept k handle, handle?, he]
      rfl
    · rw [hs.kept_publish hm hf hc k handle, handle?, he, lookup_publish]
      split
      · exact Option.some_inj
      · exact Iff.rfl
  · intro j key w st k ha hx
    rw [h.group] at ha
    exact hs.handle?_proceeds h (hs.outcomes j key w st k ha hx)
  · intro q hq k hx
    rw [h.group] at hq
    exact hs.handle?_proceeds h (hs.answered q hq k hx)

theorem Sound.tell (hs : r.Sound) (i : Nat) : (r.tell i).Sound := by
  rcases tell_cases r i with h | ⟨name, dsn, e, ho, he⟩
  · rw [h]
    exact hs
  · have hm := (opening?_eq_some ho).1
    rw [he]
    refine hs.group_move (.send i e) ?_ ?_
    · intro o hm' f hf
      cases hf
      rw [hs.opening_unique hm' hm rfl]
    · intro j f key w k hf ha hk
      cases hf
      have hname : key = name := by
        obtain ⟨st, h⟩ := hs.filed _ hm
        rw [ha] at h
        cases h
        rfl
      subst hname
      exact (hs.kept key k).mpr ⟨_, hm, rfl, Ending.outcome_eq_ok.mp hk⟩

theorem Sound.move (hs : r.Sound) (m : Move C) : (r.move m).Sound := by
  cases m with
  | look name dsn => exact hs.look name dsn
  | enter name dsn => exact hs.enter name dsn
  | leave name dsn => exact hs.withSeekers _
  | wake i => exact hs.wake i
  | connect i c =>
    rw [Registry.move]
    rcases connect_proceeds r i c with h | ⟨_, _, _, h⟩
    · exact h.symm ▸ hs
    · exact hs.proceeds h
  | advance i =>
    rw [Registry.move]
    rcases advance_proceeds r i with h | ⟨_, _, _, _, h⟩
    · exact h.symm ▸ hs
    · exact hs.proceeds h
  | tell i => exact hs.tell i
  | free i => exact hs.group_quiet (m := .release i) (by simp)
  | cancel c => exact hs.group_quiet (m := .cancel c) (by simp)

theorem Sound.moves (hs : r.Sound) (ms : List (Move C)) : (r.moves ms).Sound := by
  induction ms generalizing r with
  | nil => exact hs
  | cons m ms ih => exact ih (hs.move m)

theorem Sound.handle?_move (hs : r.Sound) {name : String} {h : Nat}
    (hh : r.handle? name = some h) (m : Move C) : (r.move m).handle? name = some h := by
  rcases move_cases r m with ⟨_, _, he⟩ | ⟨_, _, _, he⟩ | ⟨_, _, _, _, _, hp, -⟩
  · rw [he]
    exact hh
  · rw [he]
    exact hh
  · exact hs.handle?_proceeds hp hh

theorem Sound.handle?_moves (hs : r.Sound) {name : String} {h : Nat}
    (hh : r.handle? name = some h) (ms : List (Move C)) : (r.moves ms).handle? name = some h := by
  induction ms generalizing r with
  | nil => exact hh
  | cons m ms ih => exact ih (hs.move m) (hs.handle?_move hh m)

end Registry
end DatabaseTracing
