import DatabaseTracing.Pipeline
import Mathlib.Data.List.Nodup

/-! # Histories of hook pipelines

The pipelines of a handle change by calls that register and remove hooks. In
every state that such calls lead to, the names of a pipeline differ and the
built-in step is there; hooks and their order stay as they are until one of them
is removed.
-/
namespace DatabaseTracing
variable {H : Type}

namespace Pipeline
variable {p p' : Pipeline H} {o : Operation} {a b anchor name : String} {new s : Step H} {body : H}

/-- The two names stand in the pipeline in this order. -/
def Ahead (a b : String) (p : Pipeline H) : Prop := [a, b].Sublist p.names

instance : Decidable (Ahead a b p) := inferInstanceAs (Decidable ([a, b].Sublist p.names))

theorem mem_names : name ∈ p.names ↔ ∃ s ∈ p, s.name = name := by
  simp only [names, List.mem_map]

/-- A pipeline splits at the first step of a name. -/
theorem exists_split (h : name ∈ p.names) :
    ∃ l x r, p = l ++ x :: r ∧ x.name = name ∧ name ∉ names l := by
  induction p with
  | nil => cases h
  | cons s p ih =>
    by_cases hs : s.name = name
    · exact ⟨[], s, p, rfl, hs, List.not_mem_nil⟩
    · obtain ⟨l, x, r, rfl, hx, hl⟩ := ih ((List.mem_cons.mp h).resolve_left (Ne.symm hs))
      exact ⟨s :: l, x, r, rfl, hx, List.not_mem_cons_of_ne_of_not_mem (Ne.symm hs) hl⟩

theorem insertBefore_append {l r : Pipeline H} {x : Step H} (hl : anchor ∉ names l)
    (hx : x.name = anchor) : insertBefore anchor new (l ++ x :: r) = some (l ++ new :: x :: r) := by
  induction l with
  | nil => rw [List.nil_append, insertBefore, if_pos hx, List.nil_append]
  | cons s l ih =>
    obtain ⟨hs, hl⟩ := not_or.mp (List.mem_cons.not.mp hl)
    rw [List.cons_append, insertBefore, if_neg (Ne.symm hs), ih hl, Option.map_some,
      List.cons_append]

theorem insertAfter_append {l r : Pipeline H} {x : Step H} (hl : anchor ∉ names l)
    (hx : x.name = anchor) : insertAfter anchor new (l ++ x :: r) =
      some (l ++ x :: (r.takeWhile (Step.follows anchor)
        ++ new :: r.dropWhile (Step.follows anchor))) := by
  induction l with
  | nil => rw [List.nil_append, insertAfter, if_pos hx, List.nil_append, List.cons_append]
  | cons s l ih =>
    obtain ⟨hs, hl⟩ := not_or.mp (List.mem_cons.not.mp hl)
    rw [List.cons_append, insertAfter, if_neg (Ne.symm hs), ih hl, Option.map_some,
      List.cons_append]

theorem insert_eq_none {position : Position} (h : position.anchor ∉ p.names) :
    p.insert position name body = none := by
  induction p with
  | nil => cases position <;> rfl
  | cons s p ih =>
    obtain ⟨hs, hp⟩ := not_or.mp (List.mem_cons.not.mp h)
    have ih := ih hp
    cases position with
    | before anchor =>
      simp only [insert, Position.anchor] at hs ih ⊢
      rw [insertBefore, if_neg (Ne.symm hs), ih, Option.map_none]
    | after anchor =>
      simp only [insert, Position.anchor] at hs ih ⊢
      rw [insertAfter, if_neg (Ne.symm hs), ih, Option.map_none]

theorem insert_eq_none_iff {position : Position} :
    p.insert position name body = none ↔ position.anchor ∉ p.names := by
  refine ⟨fun h hp => ?_, insert_eq_none⟩
  obtain ⟨l, x, r, rfl, hx, hl⟩ := exists_split hp
  cases position with
  | before anchor =>
    rw [Position.anchor] at hx hl
    rw [insert, insertBefore_append hl hx] at h
    cases h
  | after anchor =>
    rw [Position.anchor] at hx hl
    rw [insert, insertAfter_append hl hx] at h
    cases h

theorem anchor_mem {position : Position} (h : p.insert position name body = some p') :
    position.anchor ∈ p.names := by
  by_contra hp
  rw [insert_eq_none_iff.mpr hp] at h
  cases h

theorem insert_after_eq_some (h : p.insert (.after anchor) name body = some p') :
    ∃ l x r, p = l ++ x :: r ∧ x.name = anchor ∧ anchor ∉ names l ∧
      p' = l ++ x :: (r.takeWhile (Step.follows anchor)
        ++ .hook name (some anchor) body :: r.dropWhile (Step.follows anchor)) := by
  have ha : anchor ∈ p.names := anchor_mem h
  obtain ⟨l, x, r, rfl, hx, hl⟩ := exists_split ha
  rw [insert, insertAfter_append hl hx] at h
  exact ⟨l, x, r, rfl, hx, hl, (Option.some.inj h).symm⟩

/-- The step that a registration inserts. -/
def newStep (position : Position) (name : String) (body : H) : Step H :=
  match position with
  | .before _ => .hook name none body
  | .after anchor => .hook name (some anchor) body

theorem newStep_name (position : Position) (name : String) (body : H) :
    (newStep position name body).name = name := by
  cases position <;> rfl

theorem insert_eq_some {position : Position} (h : p.insert position name body = some p') :
    ∃ l r, p = l ++ r ∧ p' = l ++ newStep position name body :: r := by
  cases position with
  | before anchor =>
    have ha : anchor ∈ p.names := anchor_mem h
    obtain ⟨l, x, r, rfl, hx, hl⟩ := exists_split ha
    rw [insert, insertBefore_append hl hx] at h
    exact ⟨l, x :: r, rfl, (Option.some.inj h).symm⟩
  | after anchor =>
    obtain ⟨l, x, r, rfl, _, _, rfl⟩ := insert_after_eq_some h
    refine ⟨l ++ x :: r.takeWhile (Step.follows anchor), r.dropWhile (Step.follows anchor), ?_, ?_⟩
    · rw [List.append_assoc, List.cons_append, List.takeWhile_append_dropWhile]
    · rw [List.append_assoc, List.cons_append]
      rfl

/-! ### What a registration comes to -/

theorem register_of_taken {position : Position} (hn : name ∈ p.names) :
    p.register o position name body = .error (.taken name o) := if_pos hn

theorem register_of_missing {position : Position} (hn : name ∉ p.names)
    (ha : position.anchor ∉ p.names) :
    p.register o position name body = .error (.anchorMissing position.anchor o) := by
  rw [register, if_neg hn, insert_eq_none ha]

theorem register_of_free (o : Operation) (body : H) {position : Position} (hn : name ∉ p.names)
    (ha : position.anchor ∈ p.names) :
    ∃ p', p.insert position name body = some p' ∧ p.register o position name body = .ok p' := by
  obtain ⟨p', hp⟩ := Option.ne_none_iff_exists'.mp fun hnone : p.insert position name body = none =>
    insert_eq_none_iff.mp hnone ha
  exact ⟨p', hp, by rw [register, if_neg hn, hp]⟩

/-- Every pipeline that calls lead to. -/
structure Sound (o : Operation) (p : Pipeline H) : Prop where
  nodup : p.names.Nodup
  builtin : .builtin o ∈ p

theorem sound_initial (o : Operation) : Sound o (initial o : Pipeline H) :=
  ⟨List.nodup_singleton _, List.mem_singleton_self _⟩

theorem Sound.insert {position : Position} (hs : p.Sound o) (hn : name ∉ p.names)
    (h : p.insert position name body = some p') : p'.Sound o := by
  obtain ⟨l, r, rfl, rfl⟩ := insert_eq_some h
  have hb := hs.builtin
  have hd := hs.nodup
  refine ⟨?_, by simp only [List.mem_append, List.mem_cons] at hb ⊢; exact hb.imp_right .inr⟩
  simp only [names, List.map_append, List.map_cons, newStep_name] at hn hd ⊢
  exact List.nodup_middle.mpr (List.nodup_cons.mpr ⟨hn, hd⟩)

theorem Sound.erase (hs : p.Sound o) (name : String) : (p.erase name).Sound o where
  nodup := hs.nodup.sublist (List.filter_sublist.map _)
  builtin := List.mem_filter.mpr ⟨hs.builtin, rfl⟩

theorem Sound.eq_of_name (hs : p.Sound o) {t : Step H} (h : s ∈ p) (ht : t ∈ p)
    (hn : s.name = t.name) : s = t :=
  List.inj_on_of_nodup_map hs.nodup h ht hn

/-- A name occurs once. -/
theorem Sound.name_ne {l r : Pipeline H} {x : Step H} (hs : p.Sound o) (hp : p = l ++ x :: r)
    (h : s ∈ l ++ r) : s.name ≠ x.name := by
  have hd := hs.nodup
  rw [hp, names, List.map_append, List.map_cons, List.nodup_middle, List.nodup_cons,
    ← List.map_append] at hd
  intro he
  exact hd.1 (he ▸ List.mem_map_of_mem h)

theorem mem_insert {position : Position} (hs : s ∈ p)
    (h : p.insert position name body = some p') : s ∈ p' := by
  obtain ⟨l, r, rfl, rfl⟩ := insert_eq_some h
  simp only [List.mem_append, List.mem_cons] at hs ⊢
  exact hs.imp_right .inr

theorem newStep_mem_insert {position : Position} (h : p.insert position name body = some p') :
    newStep position name body ∈ p' := by
  obtain ⟨l, r, -, rfl⟩ := insert_eq_some h
  exact List.mem_append_right _ List.mem_cons_self

theorem mem_erase (hs : s ∈ p) (h : s.name ≠ name ∨ s.isBuiltin) : s ∈ p.erase name := by
  refine List.mem_filter.mpr ⟨hs, ?_⟩
  rcases h with h | h <;> simp [isHookNamed, h]

theorem ahead_append {l r : Pipeline H} (ha : a ∈ names l) (hb : b ∈ names r) :
    Ahead a b (l ++ r) := by
  rw [Ahead, names, List.map_append]
  exact (List.singleton_sublist.mpr ha).append (List.singleton_sublist.mpr hb)

theorem ahead_append_cons {r : Pipeline H} (l : Pipeline H) (s : Step H) (hb : b ∈ names r) :
    Ahead s.name b (l ++ s :: r) := by
  rw [Ahead, names, List.map_append, List.map_cons]
  exact (List.Sublist.cons_cons s.name (List.singleton_sublist.mpr hb)).trans
    (List.sublist_append_right _ _)

theorem Ahead.insert {position : Position} (ha : p.Ahead a b)
    (h : p.insert position name body = some p') : p'.Ahead a b := by
  obtain ⟨l, r, rfl, rfl⟩ := insert_eq_some h
  refine List.Sublist.trans ha (List.Sublist.map _ ?_)
  exact List.Sublist.append (List.Sublist.refl l) (List.sublist_cons_self _ r)

/-- Leaving other steps out keeps the order. -/
theorem Ahead.filter {f : Step H → Bool} (ha : p.Ahead a b)
    (hf : ∀ s ∈ p, s.name = a ∨ s.name = b → f s) : Ahead a b (p.filter f) := by
  obtain ⟨l, hl, he⟩ := List.sublist_map_iff.mp ha
  have hkeep : l.filter f = l := by
    refine List.filter_eq_self.mpr fun s hs => hf s (hl.subset hs) ?_
    have hn : s.name ∈ [a, b] := he ▸ List.mem_map_of_mem hs
    exact List.mem_pair.mp hn
  refine List.sublist_map_iff.mpr ⟨l, ?_, he⟩
  rw [← hkeep]
  exact hl.filter _

theorem Ahead.mem (h : p.Ahead a b) : a ∈ p.names ∧ b ∈ p.names :=
  ⟨List.Sublist.subset h (by simp), List.Sublist.subset h (by simp)⟩

/-- Names that differ stand in one order only. -/
theorem not_sublist_swap {l : List String} (hd : l.Nodup) (h : [a, b].Sublist l) :
    ¬ [b, a].Sublist l := by
  induction l with
  | nil => cases h
  | cons x l ih =>
    obtain ⟨hx, hd⟩ := List.nodup_cons.mp hd
    intro h'
    rw [List.cons_sublist_cons'] at h h'
    rcases h with h | ⟨rfl, hb⟩
    · rcases h' with h' | ⟨rfl, _⟩
      · exact ih hd h h'
      · exact hx (h.subset (by simp))
    · rcases h' with h' | ⟨rfl, hb'⟩
      · exact hx (h'.subset (by simp))
      · exact hx (List.singleton_sublist.mp hb)

theorem Sound.not_ahead (hs : p.Sound o) (h : p.Ahead a b) : ¬ p.Ahead b a :=
  not_sublist_swap hs.nodup h

end Pipeline

namespace Pipelines

/-- One call on the pipelines of a handle. -/
inductive Call (H : Type) where
  | register (o : Operation) (position : Position) (name : String) (body : H)
  | remove (o : Operation) (name : String)
  deriving DecidableEq, Repr

def call (ps : Pipelines H) : Call H → Pipelines H
  | .register o position name body => (ps.register o position name body).2
  | .remove o name => (ps.remove o name).2

def calls (ps : Pipelines H) (cs : List (Call H)) : Pipelines H := cs.foldl call ps

variable {ps : Pipelines H} {o : Operation} {a b name : String} {body : H} {position : Position}

theorem calls_cons (ps : Pipelines H) (c : Call H) (cs : List (Call H)) :
    ps.calls (c :: cs) = (ps.call c).calls cs := rfl

theorem calls_append (ps : Pipelines H) (cs ds : List (Call H)) :
    ps.calls (cs ++ ds) = (ps.calls cs).calls ds := List.foldl_append

theorem register_of_error {e : RegisterError} (h : (ps o).register o position name body = .error e) :
    ps.register o position name body = (.error e.toError, ps) := by
  rw [Pipelines.register, h]

theorem register_of_ok {p : Pipeline H} (h : (ps o).register o position name body = .ok p) :
    ps.register o position name body = (.ok (), ps.set o p) := by
  rw [Pipelines.register, h]

theorem register_eq_ok (h : (ps.register o position name body).1 = .ok ()) :
    name ∉ (ps o).names ∧ ∃ p', (ps o).insert position name body = some p' := by
  unfold Pipelines.register Pipeline.register at h
  by_cases hn : name ∈ (ps o).names
  · rw [if_pos hn] at h
    cases h
  · refine ⟨hn, Option.ne_none_iff_exists'.mp fun hp => ?_⟩
    rw [if_neg hn, hp] at h
    cases h

theorem call_register (ps : Pipelines H) (o : Operation) (position : Position) (name : String)
    (body : H) : ps.call (.register o position name body) o =
      if name ∈ (ps o).names then ps o else ((ps o).insert position name body).getD (ps o) := by
  simp only [call, Pipelines.register, Pipeline.register]
  by_cases hn : name ∈ (ps o).names
  · rw [if_pos hn, if_pos hn]
  · rw [if_neg hn, if_neg hn]
    cases (ps o).insert position name body with
    | none => rfl
    | some p => exact set_same ..

theorem call_register_of_insert {p' : Pipeline H} (hn : name ∉ (ps o).names)
    (hp : (ps o).insert position name body = some p') :
    ps.call (.register o position name body) o = p' := by
  rw [call_register, if_neg hn, hp, Option.getD_some]

theorem call_register_other (ps : Pipelines H) {o o' : Operation} (ho : o ≠ o')
    (position : Position) (name : String) (body : H) :
    ps.call (.register o' position name body) o = ps o := by
  simp only [call, Pipelines.register]
  cases (ps o').register o' position name body with
  | error e => rfl
  | ok p => exact set_other ps ho p

/-- What a call does to the pipeline of one operation. -/
theorem call_cases (ps : Pipelines H) (c : Call H) (o : Operation) :
    ps.call c o = ps o
      ∨ (∃ position name body, c = .register o position name body ∧ name ∉ (ps o).names ∧
          (ps o).insert position name body = some (ps.call c o))
      ∨ ∃ name, c = .remove o name ∧ ps.call c o = (ps o).erase name := by
  cases c with
  | register o' position name body =>
    by_cases ho : o = o'
    · subst ho
      rw [call_register]
      by_cases hn : name ∈ (ps o).names
      · exact .inl (if_pos hn)
      · rw [if_neg hn]
        cases hp : (ps o).insert position name body with
        | none => exact .inl rfl
        | some p => exact .inr (.inl ⟨position, name, body, rfl, hn, hp⟩)
    · exact .inl (call_register_other ps ho position name body)
  | remove o' name =>
    by_cases ho : o = o'
    · subst ho
      exact .inr (.inr ⟨name, rfl, set_same ..⟩)
    · exact .inl (set_other ps ho _)

def Sound (ps : Pipelines H) : Prop := ∀ o, (ps o).Sound o

theorem sound_initial : Sound (initial : Pipelines H) := Pipeline.sound_initial

theorem Sound.call (hs : ps.Sound) (c : Call H) : (ps.call c).Sound := by
  intro o
  rcases call_cases ps c o with h | ⟨_, _, _, _, hn, h⟩ | ⟨name, _, h⟩
  · rw [h]
    exact hs o
  · exact (hs o).insert hn h
  · rw [h]
    exact (hs o).erase name

theorem Sound.calls (hs : ps.Sound) (cs : List (Call H)) : (ps.calls cs).Sound := by
  induction cs generalizing ps with
  | nil => exact hs
  | cons c cs ih => exact ih (hs.call c)

/-- The call takes the step out of its pipeline, if it is there. -/
def Call.Removes (c : Call H) (o : Operation) (s : Step H) : Prop :=
  c = .remove o s.name ∧ s.isBuiltin = false

theorem kept_iff {s : Step H} :
    ¬ Call.Removes (.remove o name) o s ↔ s.name ≠ name ∨ s.isBuiltin = true := by
  simp only [Call.Removes, Call.remove.injEq, true_and, not_and_or, Bool.not_eq_false]
  exact or_congr_left ne_comm

theorem mem_call {s : Step H} {c : Call H} (hm : s ∈ ps o) (hc : ¬ c.Removes o s) :
    s ∈ ps.call c o := by
  rcases call_cases ps c o with h | ⟨_, _, _, _, _, h⟩ | ⟨name, rfl, h⟩
  · rw [h]
    exact hm
  · exact Pipeline.mem_insert hm h
  · rw [h]
    exact Pipeline.mem_erase hm (kept_iff.mp hc)

theorem mem_calls {s : Step H} {cs : List (Call H)} (hm : s ∈ ps o)
    (hc : ∀ c ∈ cs, ¬ c.Removes o s) : s ∈ ps.calls cs o := by
  induction cs generalizing ps with
  | nil => exact hm
  | cons c cs ih =>
    obtain ⟨hc, hcs⟩ := List.forall_mem_cons.mp hc
    exact ih (mem_call hm hc) hcs

/-- The call takes neither of the steps out. -/
theorem Sound.ahead_call {s t : Step H} {c : Call H} (hs : ps.Sound) (hm : s ∈ ps o) (ht : t ∈ ps o)
    (ha : (ps o).Ahead s.name t.name) (hc : ¬ c.Removes o s) (hd : ¬ c.Removes o t) :
    (ps.call c o).Ahead s.name t.name := by
  rcases call_cases ps c o with h | ⟨_, _, _, _, _, h⟩ | ⟨name, rfl, h⟩
  · rw [h]
    exact ha
  · exact ha.insert h
  · rw [h]
    refine ha.filter fun x hx hn => ?_
    have hkept : ¬ Call.Removes (.remove o name) o x := by
      rcases hn.imp ((hs o).eq_of_name hx hm) ((hs o).eq_of_name hx ht) with rfl | rfl
      · exact hc
      · exact hd
    exact (List.mem_filter.mp (Pipeline.mem_erase hx (kept_iff.mp hkept))).2

theorem Sound.ahead_calls {s t : Step H} {cs : List (Call H)} (hs : ps.Sound) (hm : s ∈ ps o)
    (ht : t ∈ ps o) (ha : (ps o).Ahead s.name t.name)
    (hc : ∀ c ∈ cs, ¬ c.Removes o s ∧ ¬ c.Removes o t) :
    (ps.calls cs o).Ahead s.name t.name := by
  induction cs generalizing ps with
  | nil => exact ha
  | cons c cs ih =>
    obtain ⟨⟨hcs, hct⟩, hrest⟩ := List.forall_mem_cons.mp hc
    exact ih (hs.call c) (mem_call hm hcs) (mem_call ht hct)
      (hs.ahead_call hm ht ha hcs hct) hrest

/-- A call takes a step out only by its name, and a built-in step not at all. -/
theorem Sound.not_removes_of_name {s : Step H} {cs : List (Call H)} (hs : ps.Sound) (hm : s ∈ ps o)
    (h : .remove o s.name ∈ cs → s.name = o.builtinStep) : ∀ c ∈ cs, ¬ c.Removes o s := by
  rintro c hc ⟨rfl, hhook⟩
  have hbuiltin : s = .builtin o := (hs o).eq_of_name hm (hs o).builtin (h hc)
  rw [hbuiltin] at hhook
  cases hhook

/-- Two names stay in order while neither of them is removed. -/
theorem Sound.ahead_calls_of_names {cs : List (Call H)} (hs : ps.Sound) (h : (ps o).Ahead a b)
    (ha : .remove o a ∈ cs → a = o.builtinStep) (hb : .remove o b ∈ cs → b = o.builtinStep) :
    (ps.calls cs o).Ahead a b := by
  obtain ⟨s, hm, rfl⟩ := Pipeline.mem_names.mp h.mem.1
  obtain ⟨t, ht, rfl⟩ := Pipeline.mem_names.mp h.mem.2
  exact hs.ahead_calls hm ht h fun c hc =>
    ⟨hs.not_removes_of_name hm ha c hc, hs.not_removes_of_name ht hb c hc⟩

end Pipelines
end DatabaseTracing
