import DatabaseTracing.Proofs.Registry.Projection
import DatabaseTracing.Proofs.Registry.Renaming

/-! # Names are independent

If the connector hands out a fresh handle each time, then what a registry holds for
one name is what it would hold if it only ever made the moves of this name, but for the
numbers of the handles. So whatever becomes of the attempts for one name, no other name
notices.
-/
namespace DatabaseTracing.Registry
variable {C σ : Type}

/-- The moves of one name, under the numbers that its attempts and requests have among
themselves. -/
def own (name : String) (r : Registry C σ) : List (Move C) → List (Move C)
  | [] => []
  | m :: ms => (own? name r m).toList ++ own name (r.move m) ms

/-- The handles that are opened for one name on the way. -/
def opened (name : String) (r : Registry C σ) : List (Move C) → List Nat
  | [] => []
  | m :: ms =>
    (if (own? name r m).any (r.project name).opens then [r.fleet.databases.length] else []) ++
      opened name (r.move m) ms

theorem opened_append (name : String) (r : Registry C σ) (ms ns : List (Move C)) :
    opened name r (ms ++ ns) = opened name r ms ++ opened name (r.moves ms) ns := by
  induction ms generalizing r with
  | nil => rfl
  | cons m ms ih => rw [List.cons_append, opened, opened, ih, moves_cons, List.append_assoc]

/-- Making a move one's own, a name does not take over a handle. -/
theorem Move.Fresh.own {name : String} {r : Registry C σ} {m n : Move C} (h : m.Fresh)
    (hn : own? name r m = some n) : n.Fresh := by
  rintro i k rfl
  cases m with
  | connect j c =>
    obtain ⟨i', -, heq⟩ := Option.map_eq_some_iff.mp hn
    cases heq
    exact h j k rfl
  | look | enter | leave | wake | advance | tell | free | cancel => simp [own?] at hn

section Opened
variable {name : String} {r : Registry C σ}

theorem length_moves_le (r : Registry C σ) (ms : List (Move C)) :
    r.fleet.databases.length ≤ (r.moves ms).fleet.databases.length := by
  induction ms generalizing r with
  | nil => exact le_rfl
  | cons m ms ih => exact (length_databases_move r m).trans (ih (r.move m))

theorem Sound.length_move_of_opens (hr : r.Sound) {m n : Move C} (hfresh : m.Fresh)
    (hn : own? name r m = some n) (hopens : (r.project name).opens n = true) :
    (r.move m).fleet.databases.length = r.fleet.databases.length + 1 := by
  change ((r.move m).project name).fleet.databases.length = _
  rw [hr.project_move_self hn, length_databases_fresh _ (hfresh.own hn), if_pos hopens]
  rfl

/-- The handles come in increasing order. -/
theorem Sound.opened_increasing (hr : r.Sound) (name : String) {ms : List (Move C)}
    (hms : ∀ m ∈ ms, m.Fresh) :
    (opened name r ms).Pairwise (· < ·) ∧
      ∀ k ∈ opened name r ms, r.fleet.databases.length ≤ k ∧
        k < (r.moves ms).fleet.databases.length := by
  induction ms generalizing r with
  | nil => exact ⟨List.Pairwise.nil, nofun⟩
  | cons m ms ih =>
    obtain ⟨hm, hrest⟩ := List.forall_mem_cons.mp hms
    obtain ⟨hpair, hbounds⟩ := ih (hr.move m) hrest
    have hle := length_databases_move r m
    have hend := length_moves_le (r.move m) ms
    rw [opened]
    split
    · rename_i hopens
      obtain ⟨n, hn, hopens⟩ := (Option.any_eq_true _ _).mp hopens
      have hlength := hr.length_move_of_opens hm hn hopens
      refine ⟨List.pairwise_cons.mpr ⟨fun k hk => ?_, hpair⟩, fun k hk => ?_⟩
      · have := (hbounds k hk).1
        omega
      · rcases List.mem_cons.mp hk with rfl | hk
        · rw [moves_cons]
          omega
        · have := hbounds k hk
          rw [moves_cons]
          omega
    · refine ⟨hpair, fun k hk => ?_⟩
      have := hbounds k hk
      rw [moves_cons]
      omega

end Opened

section Along
variable {name : String} {f : Nat → Nat} {r s : Registry C σ}

/-- The handles of the name's registry belong to calls for the name. -/
theorem UpTo.owner (h : UpTo f (r.project name) s) (hs : s.Owned) {k : Nat}
    (hk : k < s.fleet.databases.length) :
    ∃ o ∈ r.openings, o.name = name ∧ o.course.given? = some (f k) := by
  obtain ⟨o, ho, hg⟩ := hs.owner k hk
  have hm : o.rename f ∈ (r.project name).openings := by
    rw [h.openings]
    exact List.mem_map_of_mem ho
  obtain ⟨p, hp, heq⟩ := List.mem_map.mp hm
  obtain ⟨hp, hname⟩ := List.mem_filter.mp hp
  refine ⟨p, hp, beq_iff_eq.mp hname, ?_⟩
  have hcourse : p.course = o.course.rename f := congrArg Opening.course heq
  rw [hcourse, Course.given?_rename, hg, Option.map_some]

/-- A move that is not one of the name leaves the handles of the name alone. -/
theorem UpTo.move_other (h : UpTo f (r.project name) s) (hr : r.Owned) (hs : s.Owned) {m : Move C}
    (hm : m.Fresh) (hn : own? name r m = none) : UpTo f ((r.move m).project name) s := by
  rw [hr.sound.project_move_other hn]
  refine ⟨h.options, h.handles, h.seekers, h.group, h.openings, fun k db hk => ?_⟩
  obtain ⟨o, ho, hname, hg⟩ := h.owner hs (List.getElem?_eq_some_iff.mp hk).1
  have hother : m ≠ .advance o.attempt := by
    rintro rfl
    have hnone := rank?_eq_none.mp (Option.map_eq_none_iff.mp hn)
    exact hnone (hname ▸ hr.sound.filed.attemptKeys o ho)
  rw [hr.databases_move hm ho hg hother]
  exact h.databases k db hk

/-- What the registry holds for a name goes along with a registry that makes the moves of the name
alone, if `f` names the handles that are opened. -/
theorem UpTo.moves (h : UpTo f (r.project name) s) (hinj : Function.Injective f) (hr : r.Owned)
    (hs : s.Owned) {ms : List (Move C)} (hms : ∀ m ∈ ms, m.Fresh)
    (hf : ∀ j k, (opened name r ms)[j]? = some k → f (s.fleet.databases.length + j) = k) :
    UpTo f ((r.moves ms).project name) (s.moves (own name r ms)) := by
  induction ms generalizing r s with
  | nil => exact h
  | cons m ms ih =>
    obtain ⟨hm, hrest⟩ := List.forall_mem_cons.mp hms
    rw [own, moves_append, moves_cons]
    rw [opened] at hf
    rcases hn : own? name r m with _ | n
    · refine ih (h.move_other hr hs hm hn) (hr.move hm) hs hrest fun j k hk => hf j k ?_
      rw [hn]
      exact hk
    · rw [hn] at hf
      have hopens := h.opens n
      have hfresh := hm.own hn
      have hstep : UpTo f ((r.move m).project name) (s.move n) := by
        rw [hr.sound.project_move_self hn]
        refine h.move hinj hs hfresh fun hs => ?_
        rw [← hopens] at hs
        refine hf 0 _ ?_
        rw [Option.any_some, if_pos hs]
        rfl
      refine ih hstep (hr.move hm) (hs.move hfresh) hrest fun j k hk => ?_
      change f ((s.move n).fleet.databases.length + j) = k
      rw [length_databases_fresh s hfresh, ← hopens]
      rw [Option.any_some] at hf
      split
      · rename_i hs
        rw [if_pos hs] at hf
        have := hf (j + 1) k (by simpa using hk)
        rwa [Nat.add_assoc, Nat.add_comm 1 j]
      · rename_i hs
        rw [if_neg hs] at hf
        exact hf j k hk

end Along

/-- Handles called as in the list, as far as it goes, and by numbers from `n` on otherwise. -/
def called (ks : List Nat) (n k : Nat) : Nat := ks[k]?.getD (n + k)

theorem called_injective {ks : List Nat} {n : Nat} (hpair : ks.Pairwise (· < ·))
    (hlt : ∀ k ∈ ks, k < n) : Function.Injective (called ks n) := by
  intro i j h
  unfold called at h
  rcases hi : ks[i]? with _ | a <;> rcases hj : ks[j]? with _ | b <;> rw [hi, hj] at h
  · simpa using h
  · have := hlt b (List.mem_of_getElem? hj)
    simp only [Option.getD_none, Option.getD_some] at h
    omega
  · have := hlt a (List.mem_of_getElem? hi)
    simp only [Option.getD_none, Option.getD_some] at h
    omega
  · simp only [Option.getD_some] at h
    subst h
    have hnodup : ks.Nodup := hpair.imp Nat.ne_of_lt
    exact (List.getElem?_inj (List.getElem?_eq_some_iff.mp hi).1 hnodup).mp (hi.trans hj.symm)

/-- At every point of a history, what the registry holds for a name is what it holds after the moves
of the name alone, up to one renaming of the handles; and a move that is not one of the name changes
nothing there. -/
theorem names_independent (options : Options) (user : σ) (name : String) (ms : List (Move C))
    (hms : ∀ m ∈ ms, m.Fresh) :
    (∃ f : Nat → Nat, Function.Injective f ∧ ∀ ms₁ ms₂, ms = ms₁ ++ ms₂ →
      UpTo f (((initial options user).moves ms₁).project name)
        ((initial options user).moves (own name (initial options user) ms₁))) ∧
    ∀ ms₁ m ms₂, ms = ms₁ ++ m :: ms₂ → own? name ((initial options user).moves ms₁) m = none →
      ((initial options user).moves (ms₁ ++ [m])).project name =
        { ((initial options user).moves ms₁).project name with
          fleet := ((initial options user).moves (ms₁ ++ [m])).fleet } := by
  have hr : (initial options user : Registry C σ).Owned := owned_initial options user
  obtain ⟨hpair, hbounds⟩ := hr.sound.opened_increasing name hms
  have hinj := called_injective hpair fun k hk => (hbounds k hk).2
  refine ⟨⟨_, hinj, ?_⟩, ?_⟩
  · rintro ms₁ ms₂ rfl
    have hstart : UpTo (called (opened name (initial options user) (ms₁ ++ ms₂))
          ((initial options user).moves (ms₁ ++ ms₂)).fleet.databases.length)
        ((initial options user : Registry C σ).project name) (initial options user) :=
      ⟨rfl, rfl, rfl, rfl, rfl, nofun⟩
    have hms₁ : ∀ m ∈ ms₁, m.Fresh := fun m hm => hms m (List.mem_append_left _ hm)
    refine hstart.moves hinj hr hr hms₁ fun j k hk => ?_
    have hj : (opened name (initial options user) (ms₁ ++ ms₂))[j]? = some k := by
      rw [opened_append]
      exact List.getElem?_append_left (List.getElem?_eq_some_iff.mp hk).1 ▸ hk
    change called _ _ (0 + j) = k
    rw [Nat.zero_add, called, hj, Option.getD_some]
  · intro ms₁ m ms₂ _ hm
    rw [moves_append]
    exact (hr.sound.moves ms₁).project_move_other hm

theorem names_independent_panicked :
    let ms : List (Move Empty) :=
      [.look "a" "x", .enter "a" "x", .look "b" "y", .enter "b" "y", .wake 1, .wake 0,
        .connect 0 (.fresh (.create "db" .mysql)), .connect 1 (.panicked none), .look "a" "z",
        .advance 0, .tell 1, .free 1, .look "b" "z", .enter "b" "z", .cancel 0, .wake 2,
        .connect 2 (.fresh (.create "db" .mysql)), .advance 2, .advance 0] ++
          List.replicate stepsToEnd (.advance 2) ++ [.advance 0, .tell 2]
    (∀ m ∈ ms, m.Fresh) ∧ ∃ f : Nat → Nat, Function.Injective f ∧
      UpTo f (((initial .default ()).moves ms).project "b") ((initial .default ()).moves
        ([.look "b" "y", .enter "b" "y", .wake 0, .connect 0 (.panicked none), .tell 0, .free 0,
          .look "b" "z", .enter "b" "z", .wake 1, .connect 1 (.fresh (.create "db" .mysql)),
          .advance 1] ++ List.replicate stepsToEnd (.advance 1) ++ [.tell 1])) := by
  intro ms
  have hms : ∀ m ∈ ms, m.Fresh := by
    simp [ms, Move.Fresh, stepsToEnd, Tracing.Installation.left, Stage.all]
  obtain ⟨f, hf, h⟩ := (names_independent .default () "b" ms hms).1
  exact ⟨hms, f, hf, h ms [] (List.append_nil ms).symm⟩

end DatabaseTracing.Registry
