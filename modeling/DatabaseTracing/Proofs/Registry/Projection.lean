import DatabaseTracing.Proofs.Registry.Invariant
import DatabaseTracing.Proofs.SingleFlight.Projection
import Mathlib.Data.List.Find

/-! # One name of a registry

What a registry holds for one name is again a registry, with the attempts and the
requests of the name numbered among themselves. A move of the registry either is one
of the name, and makes the same move there, or it changes nothing there but what all
handles share.
-/
namespace DatabaseTracing
variable {C σ : Type}

namespace Opening

/-- The call's attempt gets a new number. -/
def renumber (f : Nat → Nat) (o : Opening) : Opening := { o with attempt := f o.attempt }

def noted (i : Nat) (c : Course) (o : Opening) : Opening :=
  if o.attempt = i then { o with course := c } else o

/-- The calls of one name, with their attempts numbered among those of the name. -/
def ofName (name : String) (keys : List String) (os : List Opening) : List Opening :=
  (os.filter fun o => o.name == name).map (renumber (rank name keys))

theorem filter_noted (name : String) (i : Nat) (c : Course) (os : List Opening) :
    (os.map (noted i c)).filter (fun o => o.name == name) =
      (os.filter fun o => o.name == name).map (noted i c) := by
  rw [List.filter_map]
  congr 2
  funext o
  rw [Function.comp_apply, noted]
  split <;> rfl

section Filed
variable {name : String} {keys : List String} {os : List Opening}
  (hos : ∀ o ∈ os, keys[o.attempt]? = some o.name)
include hos

theorem find?_ofName {i : Nat} (hi : keys[i]? = some name) :
    (ofName name keys os).find? (fun o => o.attempt == rank name keys i) =
      (os.find? fun o => o.attempt == i).map (renumber (rank name keys)) := by
  rw [ofName, List.find?_map, List.find?_filter]
  refine congrArg _ (List.find?_congr fun o ho => ?_)
  have hkeys := hos o ho
  by_cases hname : o.name = name
  · have hiff := rank_inj (hname ▸ hkeys) hi
    simp [hname, renumber, hiff, Bool.beq_eq_decide_eq]
  · have hne : o.attempt ≠ i := by
      rintro rfl
      rw [hi] at hkeys
      exact hname (Option.some.inj hkeys).symm
    simp [hname, hne]

theorem ofName_append_keys (more : List String) :
    ofName name (keys ++ more) os = ofName name keys os := by
  refine List.map_congr_left fun o ho => ?_
  have hlt := (List.getElem?_eq_some_iff.mp (hos o (List.mem_filter.mp ho).1)).1
  rw [renumber, renumber, rank_append (Nat.le_of_lt hlt)]

theorem ofName_noted_self {i : Nat} (hi : keys[i]? = some name) (c : Course) :
    ofName name keys (os.map (noted i c)) =
      (ofName name keys os).map (noted (rank name keys i) c) := by
  rw [ofName, ofName, filter_noted, List.map_map, List.map_map]
  refine List.map_congr_left fun o ho => ?_
  obtain ⟨hm, hname⟩ := List.mem_filter.mp ho
  have hiff := rank_inj (beq_iff_eq.mp hname ▸ hos o hm) hi
  by_cases ho : o.attempt = i
  · simp [noted, ho, renumber]
  · simp [noted, ho, renumber, hiff]

theorem ofName_noted_other {i : Nat} (hi : keys[i]? ≠ some name) (c : Course) :
    ofName name keys (os.map (noted i c)) = ofName name keys os := by
  rw [ofName, ofName, filter_noted, List.map_map]
  refine List.map_congr_left fun o ho => ?_
  obtain ⟨hm, hname⟩ := List.mem_filter.mp ho
  have hne : o.attempt ≠ i := by
    rintro rfl
    exact hi (beq_iff_eq.mp hname ▸ hos o hm)
  simp [noted, hne]

end Filed
end Opening

namespace Registry
variable {name : String} {r : Registry C σ}

/-- What the registry holds for one name. The handles are all there. -/
def project (name : String) (r : Registry C σ) : Registry C σ where
  options := r.options
  handles := r.handles.filter fun e => e.1 == name
  seekers := r.seekers.filter fun e => e.1 == name
  group := r.group.project name
  openings := Opening.ofName name r.group.attemptKeys r.openings
  fleet := r.fleet

/-- The move under the numbers that the name's attempts and requests have among themselves, if it is
one of the name. -/
def own? (name : String) (r : Registry C σ) : Move C → Option (Move C)
  | .look k dsn => if k = name then some (.look k dsn) else none
  | .enter k dsn => if k = name then some (.enter k dsn) else none
  | .leave k dsn => if k = name then some (.leave k dsn) else none
  | .wake i => (rank? name r.group.attemptKeys i).map .wake
  | .connect i c => (rank? name r.group.attemptKeys i).map (.connect · c)
  | .advance i => (rank? name r.group.attemptKeys i).map .advance
  | .tell i => (rank? name r.group.attemptKeys i).map .tell
  | .free i => (rank? name r.group.attemptKeys i).map .free
  | .cancel c => (rank? name r.group.requestKeys c).map .cancel

theorem handle?_project (name : String) (r : Registry C σ) :
    (r.project name).handle? name = r.handle? name := by
  refine (lookup_filter_fst (fun k => k == name) r.handles name).trans ?_
  rw [beq_self_eq_true, if_pos rfl]
  rfl

theorem Filed.attemptKeys (hr : r.Filed) :
    ∀ o ∈ r.openings, r.group.attemptKeys[o.attempt]? = some o.name := by
  intro o ho
  obtain ⟨st, hst⟩ := hr o ho
  exact FlightGroup.attemptKeys_eq_some hst

theorem Filed.opening?_project (hr : r.Filed) {i : Nat}
    (hi : r.group.attemptKeys[i]? = some name) :
    (r.project name).opening? (rank name r.group.attemptKeys i) =
      (r.opening? i).map (Opening.renumber (rank name r.group.attemptKeys)) :=
  Opening.find?_ofName hr.attemptKeys hi

theorem project_look_self (name dsn : String) (r : Registry C σ) :
    (r.look name dsn).project name = (r.project name).look name dsn := by
  unfold look
  rw [handle?_project]
  cases r.handle? name with
  | some h =>
    simp only [project, FlightGroup.project_answer_self]
    rfl
  | none => simp [project]

theorem project_look_other {k : String} (hk : k ≠ name) (dsn : String) (r : Registry C σ) :
    (r.look k dsn).project name = r.project name := by
  unfold look
  split
  · simp only [project, FlightGroup.project_answer_other _ hk]
    rfl
  · simp [project, hk]

/-- The calls of a name do not change their numbers when an attempt starts. -/
theorem Filed.ofName_join (hr : r.Filed) (key work : String) :
    Opening.ofName name (r.group.join key work).attemptKeys r.openings =
      Opening.ofName name r.group.attemptKeys r.openings := by
  rcases FlightGroup.attempts_join r.group key work with h | h
  · rw [FlightGroup.attemptKeys, h]
    rfl
  · rw [FlightGroup.attemptKeys, h, List.map_append]
    exact Opening.ofName_append_keys hr.attemptKeys _

theorem Sound.project_enter_self (hr : r.Sound) (dsn : String) :
    (r.enter name dsn).project name = (r.project name).enter name dsn := by
  have hseekers : (name, dsn) ∈ (r.project name).seekers ↔ (name, dsn) ∈ r.seekers := by
    simp [project]
  unfold Registry.enter
  simp only [hseekers]
  split
  · simp only [project, hr.group.project_join_self, hr.filed.ofName_join, List.erase_filter]
  · rfl

theorem filter_erase_other {k : String} (hk : k ≠ name) (dsn : String) (l : List (String × String)) :
    (l.erase (k, dsn)).filter (fun e => e.1 == name) = l.filter fun e => e.1 == name := by
  rw [← List.erase_filter, List.erase_of_not_mem]
  simp [hk]

theorem Sound.project_enter_other (hr : r.Sound) {k : String} (hk : k ≠ name) (dsn : String) :
    (r.enter k dsn).project name = r.project name := by
  unfold Registry.enter
  split
  · simp only [project, hr.group.project_join_other hk, hr.filed.ofName_join,
      filter_erase_other hk]
  · rfl

theorem project_leave_self (name dsn : String) (r : Registry C σ) :
    (r.leave name dsn).project name = (r.project name).leave name dsn := by
  simp only [leave, project, List.erase_filter]

theorem project_leave_other {k : String} (hk : k ≠ name) (dsn : String) (r : Registry C σ) :
    (r.leave k dsn).project name = r.project name := by
  simp only [leave, project, filter_erase_other hk]

theorem attemptKeys_send (g : FlightGroup String Nat) (i : Nat) (e : Ending Nat) :
    (g.send i e).attemptKeys = g.attemptKeys := by
  rcases FlightGroup.send_cases g i e with ⟨-, h⟩ | ⟨key, w, -, h⟩ <;> rw [h]
  exact FlightGroup.attemptKeys_modify g i _

theorem attemptKeys_release (g : FlightGroup String Nat) (i : Nat) :
    (g.release i).attemptKeys = g.attemptKeys := by
  rcases FlightGroup.release_cases g i with h | ⟨key, w, x, -, h⟩ <;> rw [h]
  exact FlightGroup.attemptKeys_modify g i _

theorem Sound.project_wake_self (hr : r.Sound) {i : Nat}
    (hi : r.group.attemptKeys[i]? = some name) :
    (r.wake i).project name = (r.project name).wake (rank name r.group.attemptKeys i) := by
  have hopening := hr.filed.opening?_project hi
  have hattempt : (r.project name).group.attempts[rank name r.group.attemptKeys i]? =
      r.group.attempts[i]? := FlightGroup.attempts_project hi
  rcases ha : r.group.attempts[i]? with _ | ⟨key, dsn, st⟩
  · simp only [Registry.wake, hattempt, ha]
  · have hkey : key = name :=
      Option.some.inj ((FlightGroup.attemptKeys_eq_some ha).symm.trans hi)
    subst hkey
    cases st with
    | running =>
      cases ho : r.opening? i with
      | some o => simp only [Registry.wake, hattempt, ha, hopening, ho, Option.map_some]
      | none =>
        cases hh : r.handle? key with
        | some h =>
          simp only [Registry.wake, hattempt, ha, hopening, ho, Option.map_none, handle?_project, hh]
          simp only [project, hr.group.project_send_self hi, attemptKeys_send]
        | none =>
          simp only [Registry.wake, hattempt, ha, hopening, ho, Option.map_none, handle?_project, hh]
          simp [project, Opening.ofName, Opening.renumber]
    | sent | resolved | lost => simp only [Registry.wake, hattempt, ha]

theorem Sound.project_wake_other (hr : r.Sound) {i : Nat}
    (hi : r.group.attemptKeys[i]? ≠ some name) :
    (r.wake i).project name = { r.project name with fleet := (r.wake i).fleet } := by
  rcases wake_cases r i with he | ⟨key, dsn, ha, -, ⟨h, -, he⟩ | ⟨-, he⟩⟩ <;> rw [he]
  · rfl
  · simp only [project, hr.group.project_send_other hi, attemptKeys_send]
  · have hkey : key ≠ name := fun hk => hi (hk ▸ FlightGroup.attemptKeys_eq_some ha)
    simp [project, Opening.ofName, hkey]

theorem Sound.project_tell_self (hr : r.Sound) {i : Nat}
    (hi : r.group.attemptKeys[i]? = some name) :
    (r.tell i).project name = (r.project name).tell (rank name r.group.attemptKeys i) := by
  have hopening := hr.filed.opening?_project hi
  rcases ho : r.opening? i with _ | ⟨j, key, dsn, c⟩
  · simp only [Registry.tell, hopening, ho, Option.map_none]
  · cases c with
    | ended e =>
      simp only [Registry.tell, hopening, ho, Option.map_some, Opening.renumber]
      simp only [project, hr.group.project_send_self hi, attemptKeys_send]
    | asked | installing | installed | kept =>
      simp only [Registry.tell, hopening, ho, Option.map_some, Opening.renumber]

theorem Sound.project_tell_other (hr : r.Sound) {i : Nat}
    (hi : r.group.attemptKeys[i]? ≠ some name) : (r.tell i).project name = r.project name := by
  rcases tell_cases r i with he | ⟨key, dsn, e, -, he⟩ <;> rw [he]
  simp only [project, hr.group.project_send_other hi, attemptKeys_send]

theorem project_free_self {i : Nat} (hi : r.group.attemptKeys[i]? = some name) :
    (r.free i).project name = (r.project name).free (rank name r.group.attemptKeys i) := by
  simp only [free, project, FlightGroup.project_release_self hi, attemptKeys_release]

theorem project_free_other {i : Nat} (hi : r.group.attemptKeys[i]? ≠ some name) :
    (r.free i).project name = r.project name := by
  simp only [free, project, FlightGroup.project_release_other hi, attemptKeys_release]

theorem project_cancel_self {c : Nat} (hc : r.group.requestKeys[c]? = some name) :
    (r.cancel c).project name = (r.project name).cancel (rank name r.group.requestKeys c) := by
  simp only [cancel, project, FlightGroup.project_cancel_self hc]
  rfl

theorem project_cancel_other {c : Nat} (hc : r.group.requestKeys[c]? ≠ some name) :
    (r.cancel c).project name = r.project name := by
  simp only [cancel, project, FlightGroup.project_cancel_other hc]
  rfl

theorem Filed.project_note_self (hr : r.Filed) {i : Nat}
    (hi : r.group.attemptKeys[i]? = some name) (c : Course) :
    (r.note i c).project name = (r.project name).note (rank name r.group.attemptKeys i) c := by
  have hopenings := Opening.ofName_noted_self hr.attemptKeys hi c
  exact congrArg (Registry.mk r.options _ _ _ · r.fleet) hopenings

theorem Filed.project_note_other (hr : r.Filed) {i : Nat}
    (hi : r.group.attemptKeys[i]? ≠ some name) (c : Course) :
    (r.note i c).project name = r.project name := by
  have hopenings := Opening.ofName_noted_other hr.attemptKeys hi c
  exact congrArg (Registry.mk r.options _ _ _ · r.fleet) hopenings

theorem Filed.project_publish_self (hr : r.Filed) {i : Nat}
    (hi : r.group.attemptKeys[i]? = some name) (handle : Nat) :
    (r.publish i name handle).project name =
      (r.project name).publish (rank name r.group.attemptKeys i) name handle := by
  have hhandles : (r.handles.filter (fun e => e.1 != name) ++ [(name, handle)]).filter
        (fun e => e.1 == name) =
      (r.handles.filter fun e => e.1 == name).filter (fun e => e.1 != name) ++
        [(name, handle)] := by
    simp [List.filter_filter, Bool.and_comm]
  have hfiled : ({ r with
      handles := r.handles.filter (·.1 != name) ++ [(name, handle)] } : Registry C σ).Filed := hr
  rw [publish, hfiled.project_note_self hi]
  exact congrArg (Registry.note · _ _) (congrArg (Registry.mk r.options · _ _ _ _) hhandles)

theorem Filed.project_publish_other (hr : r.Filed) {i : Nat} {k : String} (hk : k ≠ name)
    (hi : r.group.attemptKeys[i]? ≠ some name) (handle : Nat) :
    (r.publish i k handle).project name = r.project name := by
  have hhandles : (r.handles.filter (fun e => e.1 != k) ++ [(k, handle)]).filter
      (fun e => e.1 == name) = r.handles.filter fun e => e.1 == name := by
    have hnew : [(k, handle)].filter (fun e => e.1 == name) = [] := by simp [hk]
    rw [List.filter_append, List.filter_filter, hnew, List.append_nil]
    refine List.filter_congr fun e _ => ?_
    by_cases he : e.1 = name
    · simp [he, Ne.symm hk]
    · simp [he]
  have hfiled : ({ r with
      handles := r.handles.filter (·.1 != k) ++ [(k, handle)] } : Registry C σ).Filed := hr
  rw [publish, hfiled.project_note_other hi]
  exact congrArg (Registry.mk r.options · _ _ _ _) hhandles

theorem Filed.name_of_opening? (hr : r.Filed) {i : Nat} {o : Opening} (ho : r.opening? i = some o) :
    r.group.attemptKeys[i]? = some o.name := by
  obtain ⟨hm, hi⟩ := opening?_eq_some ho
  rw [← hi]
  exact hr.attemptKeys o hm

theorem state?_project (r : Registry C σ) {i : Nat} (hi : r.group.attemptKeys[i]? = some name) :
    (r.project name).group.state? (rank name r.group.attemptKeys i) = r.group.state? i :=
  congrArg (Option.map Attempt.state) (FlightGroup.attempts_project hi)

theorem Filed.project_connect_self (hr : r.Filed) {i : Nat}
    (hi : r.group.attemptKeys[i]? = some name) (cn : Connection C) :
    (r.connect i cn).project name =
      (r.project name).connect (rank name r.group.attemptKeys i) cn := by
  have hfleet : (r.project name).fleet = r.fleet := rfl
  unfold connect
  rw [state?_project r hi, hr.opening?_project hi]
  rcases hs : r.group.state? i with _ | st
  · rfl
  · cases st with
    | running =>
      rcases ho : r.opening? i with _ | ⟨j, key, dsn, c⟩
      · rfl
      · cases c with
        | asked =>
          simp only [Option.map_some, Opening.renumber]
          cases cn with
          | fresh db =>
            have hfiled : ({ r with fleet := r.fleet.add db } : Registry C σ).Filed := hr
            exact hfiled.project_note_self hi _
          | existing handle =>
            simp only [hfleet]
            split
            · exact hr.project_note_self hi _
            · rfl
          | failed e => exact hr.project_note_self hi _
          | panicked message => exact hr.project_note_self hi _
        | installing | installed | kept | ended => rfl
    | sent | resolved | lost => rfl

theorem Filed.project_install_self (hr : r.Filed) {i : Nat}
    (hi : r.group.attemptKeys[i]? = some name) (handle : Nat) (p : Tracing.Installation) :
    (r.install i handle p).project name =
      (r.project name).install (rank name r.group.attemptKeys i) handle p := by
  have hfleet : (r.project name).fleet = r.fleet := rfl
  unfold install
  rw [hfleet]
  split
  · rfl
  · rename_i h _
    have hfiled : ({ r with fleet := r.fleet.put handle (p.step r.options h).2 } :
      Registry C σ).Filed := hr
    exact hfiled.project_note_self hi _

theorem Filed.project_report_self (hr : r.Filed) {i : Nat}
    (hi : r.group.attemptKeys[i]? = some name) (handle : Nat) (outcome : Outcome) :
    (r.report i name handle outcome).project name =
      (r.project name).report (rank name r.group.attemptKeys i) name handle outcome := by
  cases outcome with
  | ok _ => exact hr.project_note_self hi _
  | error e =>
    have hfiled : ({ r with fleet := r.fleet.logged (partialEvent name e) } :
      Registry C σ).Filed := hr
    exact hfiled.project_note_self hi _

theorem Filed.project_announce_self (hr : r.Filed) {i : Nat}
    (hi : r.group.attemptKeys[i]? = some name) (handle : Nat) :
    (r.announce i name handle).project name =
      (r.project name).announce (rank name r.group.attemptKeys i) name handle := by
  have hfleet : (r.project name).fleet = r.fleet := rfl
  unfold announce
  rw [hfleet]
  split
  · rfl
  · rename_i db _
    have hfiled : ({ r with fleet := r.fleet.logged (publishedEvent name db.name) } :
      Registry C σ).Filed := hr
    exact hfiled.project_note_self hi _

theorem Filed.project_advance_self (hr : r.Filed) {i : Nat}
    (hi : r.group.attemptKeys[i]? = some name) :
    (r.advance i).project name = (r.project name).advance (rank name r.group.attemptKeys i) := by
  unfold advance
  rw [state?_project r hi, hr.opening?_project hi]
  rcases hs : r.group.state? i with _ | st
  · rfl
  · cases st with
    | running =>
      rcases ho : r.opening? i with _ | ⟨j, key, dsn, c⟩
      · rfl
      · obtain rfl : key = name := Option.some.inj ((hr.name_of_opening? ho).symm.trans hi)
        simp only [Option.map_some, Opening.renumber]
        cases c with
        | asked | ended => rfl
        | installed handle => exact hr.project_publish_self hi handle
        | kept handle => exact hr.project_announce_self hi handle
        | installing handle p =>
          cases hp : p.outcome? with
          | none =>
            simp only [hp]
            exact hr.project_install_self hi handle p
          | some outcome =>
            simp only [hp]
            exact hr.project_report_self hi handle outcome
    | sent | resolved | lost => rfl

theorem Filed.project_connect_other (hr : r.Filed) {i : Nat}
    (hi : r.group.attemptKeys[i]? ≠ some name) (cn : Connection C) :
    (r.connect i cn).project name = { r.project name with fleet := (r.connect i cn).fleet } := by
  rcases connect_cases r i cn with he | ⟨_, _, -, ⟨f, _, -, he⟩ | ⟨_, -, he⟩⟩ <;> rw [he]
  · rfl
  · have hfiled : ({ r with fleet := f } : Registry C σ).Filed := hr
    exact hfiled.project_note_other hi _
  · exact hr.project_note_other hi _

theorem Filed.project_advance_other (hr : r.Filed) {i : Nat}
    (hi : r.group.attemptKeys[i]? ≠ some name) :
    (r.advance i).project name = { r.project name with fleet := (r.advance i).fleet } := by
  rcases advance_cases r i with he | ⟨k, dsn, c, c', hat, hadv⟩
  · rw [he]
    rfl
  · have hk : k ≠ name := fun hk => hi (hk ▸ hr.name_of_opening? hat.opening)
    generalize r.advance i = r' at hadv ⊢
    cases hadv with
    | @install handle p h hp hh =>
      have hfiled : ({ r with fleet := r.fleet.put handle (p.step r.options h).2 } :
        Registry C σ).Filed := hr
      exact hfiled.project_note_other hi _
    | report handle outcome =>
      obtain ⟨f, -, he⟩ := report_eq r i k handle outcome
      have hfiled : ({ r with fleet := f } : Registry C σ).Filed := hr
      rw [he]
      exact hfiled.project_note_other hi _
    | publish handle => exact hr.project_publish_other hk hi handle
    | @announce handle db hdb =>
      have hfiled : ({ r with fleet := r.fleet.logged (publishedEvent k db.name) } :
        Registry C σ).Filed := hr
      exact hfiled.project_note_other hi _

/-- A move of the name is made by what the registry holds for the name. -/
theorem Sound.project_move_self (hr : r.Sound) {m n : Move C} (h : own? name r m = some n) :
    (r.move m).project name = (r.project name).move n := by
  cases m with
  | look k dsn =>
    obtain ⟨rfl, ⟨⟩⟩ := Option.ite_none_right_eq_some.mp h
    exact project_look_self k dsn r
  | enter k dsn =>
    obtain ⟨rfl, ⟨⟩⟩ := Option.ite_none_right_eq_some.mp h
    exact hr.project_enter_self dsn
  | leave k dsn =>
    obtain ⟨rfl, ⟨⟩⟩ := Option.ite_none_right_eq_some.mp h
    exact project_leave_self k dsn r
  | wake i =>
    obtain ⟨j, hj, rfl⟩ := Option.map_eq_some_iff.mp h
    obtain ⟨hi, rfl⟩ := rank?_eq_some.mp hj
    exact hr.project_wake_self hi
  | connect i c =>
    obtain ⟨j, hj, rfl⟩ := Option.map_eq_some_iff.mp h
    obtain ⟨hi, rfl⟩ := rank?_eq_some.mp hj
    exact hr.filed.project_connect_self hi c
  | advance i =>
    obtain ⟨j, hj, rfl⟩ := Option.map_eq_some_iff.mp h
    obtain ⟨hi, rfl⟩ := rank?_eq_some.mp hj
    exact hr.filed.project_advance_self hi
  | tell i =>
    obtain ⟨j, hj, rfl⟩ := Option.map_eq_some_iff.mp h
    obtain ⟨hi, rfl⟩ := rank?_eq_some.mp hj
    exact hr.project_tell_self hi
  | free i =>
    obtain ⟨j, hj, rfl⟩ := Option.map_eq_some_iff.mp h
    obtain ⟨hi, rfl⟩ := rank?_eq_some.mp hj
    exact project_free_self hi
  | cancel c =>
    obtain ⟨j, hj, rfl⟩ := Option.map_eq_some_iff.mp h
    obtain ⟨hc, rfl⟩ := rank?_eq_some.mp hj
    exact project_cancel_self hc

/-- Any other move changes nothing there but the handles, the span store, the log and the users'
state, which all names share. -/
theorem Sound.project_move_other (hr : r.Sound) {m : Move C} (h : own? name r m = none) :
    (r.move m).project name = { r.project name with fleet := (r.move m).fleet } := by
  have hsame : ∀ {r' : Registry C σ}, r'.project name = r.project name →
      r'.project name = { r.project name with fleet := r'.fleet } := by
    intro r' h'
    have hfleet : (r'.project name).fleet = (r.project name).fleet := congrArg Registry.fleet h'
    change _ = { r.project name with fleet := (r'.project name).fleet }
    rw [hfleet, h']
  cases m with
  | look k dsn =>
    have hk : k ≠ name := fun hk => by simp [own?, hk] at h
    exact hsame (project_look_other hk dsn r)
  | enter k dsn =>
    have hk : k ≠ name := fun hk => by simp [own?, hk] at h
    exact hsame (hr.project_enter_other hk dsn)
  | leave k dsn =>
    have hk : k ≠ name := fun hk => by simp [own?, hk] at h
    exact hsame (project_leave_other hk dsn r)
  | wake i => exact hr.project_wake_other (rank?_eq_none.mp (Option.map_eq_none_iff.mp h))
  | connect i c =>
    exact hr.filed.project_connect_other (rank?_eq_none.mp (Option.map_eq_none_iff.mp h)) c
  | advance i =>
    exact hr.filed.project_advance_other (rank?_eq_none.mp (Option.map_eq_none_iff.mp h))
  | tell i => exact hsame (hr.project_tell_other (rank?_eq_none.mp (Option.map_eq_none_iff.mp h)))
  | free i => exact hsame (project_free_other (rank?_eq_none.mp (Option.map_eq_none_iff.mp h)))
  | cancel c => exact hsame (project_cancel_other (rank?_eq_none.mp (Option.map_eq_none_iff.mp h)))

end Registry
end DatabaseTracing
