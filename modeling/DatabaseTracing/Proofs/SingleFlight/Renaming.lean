import DatabaseTracing.Proofs.SingleFlight.Steps

/-! # Results under other names

A group passes the results of its attempts on and never looks at them. Under a
renaming of the results every operation is the same.
-/
namespace DatabaseTracing
variable {α β γ : Type}

def Ending.map (f : β → γ) : Ending β → Ending γ
  | .returned r => .returned (r.map f)
  | .panicked message => .panicked message

theorem Ending.outcome_map (f : β → γ) (key : String) (e : Ending β) :
    (e.map f).outcome key = (e.outcome key).map f := by
  cases e <;> rfl

def AttemptState.map (f : β → γ) : AttemptState β → AttemptState γ
  | .running => .running
  | .sent r => .sent (r.map f)
  | .resolved r => .resolved (r.map f)
  | .lost => .lost

def Attempt.map (f : β → γ) (a : Attempt α β) : Attempt α γ := ⟨a.key, a.work, a.state.map f⟩

def RequestState.map (f : β → γ) : RequestState β → RequestState γ
  | .waiting i => .waiting i
  | .answered r => .answered (r.map f)
  | .cancelled => .cancelled

def Request.map (f : β → γ) (q : Request β) : Request γ := ⟨q.key, q.state.map f⟩

theorem Request.map_told (f : β → γ) (i : Nat) (r : Except DatabaseError β) (q : Request β) :
    (q.told i r).map f = (q.map f).told i (r.map f) := by
  rcases q with ⟨k, j | x | _⟩
  · by_cases h : j = i <;> simp [told, map, RequestState.map, h]
  · rfl
  · rfl

theorem Request.map_cancel (f : β → γ) (q : Request β) : q.cancel.map f = (q.map f).cancel := by
  rcases q with ⟨k, j | x | _⟩ <;> rfl

namespace FlightGroup

/-- The group with other results. -/
def map (f : β → γ) (g : FlightGroup α β) : FlightGroup α γ :=
  ⟨g.attempts.map (Attempt.map f), g.inFlight, g.requests.map (Request.map f)⟩

variable (f : β → γ) (g : FlightGroup α β)

theorem attempts_map (i : Nat) : (g.map f).attempts[i]? = (g.attempts[i]?).map (Attempt.map f) :=
  List.getElem?_map

theorem map_answer (key : String) (r : Except DatabaseError β) :
    (g.answer key r).map f = (g.map f).answer key (r.map f) := by
  simp [map, answer, Request.map, RequestState.map]

theorem standing_map (key : String) (i : Nat) :
    (g.map f).standing key i = (g.standing key i).map f := by
  rw [standing, standing, state?, state?, attempts_map]
  rcases g.attempts[i]? with _ | ⟨k, w, st⟩
  · rfl
  · cases st <;> rfl

theorem map_join (key : String) (work : α) :
    (g.join key work).map f = (g.map f).join key work := by
  have htable : (g.map f).inFlight = g.inFlight := rfl
  unfold join
  rw [htable]
  cases g.inFlight.lookup key with
  | some i =>
    simp only [standing_map]
    simp [map, Request.map]
  | none => simp [map, Request.map, Attempt.map, AttemptState.map, RequestState.map]

theorem map_modify_state (i : Nat) (st : AttemptState β) :
    (g.attempts.modify i fun a => { a with state := st }).map (Attempt.map f) =
      (g.map f).attempts.modify i fun a => { a with state := st.map f } :=
  map_modify (h := fun a : Attempt α γ => { a with state := st.map f }) (fun _ => rfl) g.attempts i

theorem map_send (i : Nat) (e : Ending β) : (g.send i e).map f = (g.map f).send i (e.map f) := by
  unfold send
  rw [attempts_map]
  rcases g.attempts[i]? with _ | ⟨key, w, st⟩
  · rfl
  · cases st with
    | running =>
      simp only [Option.map_some, Attempt.map, AttemptState.map, Ending.outcome_map]
      simp only [map, map_modify_state]
      simp [Request.map_told, AttemptState.map]
    | sent | resolved | lost => rfl

theorem map_release (i : Nat) : (g.release i).map f = (g.map f).release i := by
  unfold release
  rw [attempts_map]
  rcases g.attempts[i]? with _ | ⟨key, w, st⟩
  · rfl
  · cases st with
    | sent r =>
      simp only [Option.map_some, Attempt.map, AttemptState.map]
      simp only [map, map_modify_state]
      simp [AttemptState.map]
    | running | resolved | lost => rfl

theorem map_cancel (c : Nat) : (g.cancel c).map f = (g.map f).cancel c := by
  simp only [cancel, map]
  rw [map_modify (Request.map_cancel f)]

end FlightGroup
end DatabaseTracing
