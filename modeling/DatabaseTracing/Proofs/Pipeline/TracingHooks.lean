import DatabaseTracing.Plugin
import DatabaseTracing.Proofs.Pipeline.AfterOrder
import Mathlib.Data.List.TakeWhile

/-! # Tracing hooks among others

The tracing plugin puts a hook of its own on either side of every built-in step.
Leaving these out of a pipeline gives what the same registrations build without
the plugin, up to the first hook that is registered after a step whose run of
followers a tracing hook interrupts. Such a hook stops at the tracing hook, ahead
of earlier followers that it would otherwise stand behind, and the two pipelines
differ from then on.
-/
namespace DatabaseTracing

/-- Whether the name is that of a stage. -/
def Stage.isName (name : String) : Bool := Stage.all.any (·.name == name)

theorem Stage.isName_name (s : Stage) : Stage.isName s.name = true := by
  rcases s with ⟨o, p⟩
  cases o <;> cases p <;> decide

theorem Stage.isName_builtinStep (o : Operation) : Stage.isName o.builtinStep = false := by
  cases o <;> decide

variable {H : Type}

namespace Pipeline
variable {p p' : Pipeline H} {o : Operation} {anchor name : String} {position : Position} {body : H}

/-- The pipeline with the tracing hooks left out. -/
def withoutTracing (p : Pipeline H) : Pipeline H := p.filter fun s => !Stage.isName s.name

/-- The hooks that would belong to the run behind the anchor if no tracing hook stood in it. -/
def severed (anchor : String) (p : Pipeline H) : Pipeline H :=
  (withoutTracing ((p.behind anchor).dropWhile (Step.follows anchor))).takeWhile
    (Step.follows anchor)

theorem severed_sublist (anchor : String) (p : Pipeline H) :
    (p.severed anchor).Sublist p.withoutTracing := by
  have hrest : ((p.behind anchor).dropWhile (Step.follows anchor)).Sublist p :=
    ((List.dropWhile_sublist _).trans (List.tail_sublist _)).trans (List.dropWhile_sublist _)
  exact (List.takeWhile_sublist _).trans (hrest.filter _)

theorem severed_eq_nil (h : anchor ∉ p.names) : p.severed anchor = [] := by
  have hdrop : p.dropWhile (·.name ≠ anchor) = [] := by
    refine List.dropWhile_eq_nil_iff.mpr fun s hs => decide_eq_true fun hn => h ?_
    exact mem_names.mpr ⟨s, hs, hn⟩
  rw [severed, behind, hdrop]
  rfl

theorem mem_names_withoutTracing (h : Stage.isName name = false) :
    name ∈ p.withoutTracing.names ↔ name ∈ p.names := by
  simp only [mem_names, withoutTracing, List.mem_filter]
  constructor
  · rintro ⟨s, ⟨hs, _⟩, hn⟩
    exact ⟨s, hs, hn⟩
  · rintro ⟨s, hs, rfl⟩
    exact ⟨s, ⟨hs, by simp [h]⟩, rfl⟩

theorem withoutTracing_append (l r : Pipeline H) :
    withoutTracing (l ++ r) = withoutTracing l ++ withoutTracing r := List.filter_append ..

theorem withoutTracing_cons {s : Step H} (hs : Stage.isName s.name = false) (r : Pipeline H) :
    withoutTracing (s :: r) = s :: withoutTracing r := List.filter_cons_of_pos (by simp [hs])

theorem withoutTracing_eq_self (h : ∀ s ∈ p, Stage.isName s.name = false) :
    p.withoutTracing = p := List.filter_eq_self.mpr fun s hs => by simp [h s hs]

/-- Leaving steps out splits a run in two: what was in it, and what joins it. -/
theorem withoutTracing_run (f : Step H → Bool) (r : Pipeline H) :
    (withoutTracing r).takeWhile f = withoutTracing (r.takeWhile f)
        ++ (withoutTracing (r.dropWhile f)).takeWhile f ∧
      (withoutTracing r).dropWhile f = (withoutTracing (r.dropWhile f)).dropWhile f := by
  have hf : ∀ s ∈ withoutTracing (r.takeWhile f), f s = true := fun s hs =>
    List.mem_takeWhile_imp (List.mem_filter.mp hs).1
  have hr : withoutTracing r = withoutTracing (r.takeWhile f) ++ withoutTracing (r.dropWhile f) := by
    rw [← withoutTracing_append, List.takeWhile_append_dropWhile]
  rw [hr]
  exact ⟨List.takeWhile_append_of_pos hf, List.dropWhile_append_of_pos hf⟩

theorem withoutTracing_insert_before (hn : Stage.isName name = false)
    (ha : Stage.isName anchor = false) (h : p.insert (.before anchor) name body = some p') :
    p.withoutTracing.insert (.before anchor) name body = some p'.withoutTracing := by
  have hp : anchor ∈ p.names := anchor_mem h
  obtain ⟨l, x, r, rfl, hx, hl⟩ := exists_split hp
  rw [insert, insertBefore_append hl hx] at h
  obtain rfl := Option.some.inj h
  have hx' : Stage.isName x.name = false := hx ▸ ha
  have hl' : anchor ∉ l.withoutTracing.names := by rwa [mem_names_withoutTracing ha]
  rw [withoutTracing_append, withoutTracing_cons hx', insert, insertBefore_append hl' hx,
    withoutTracing_append, withoutTracing_cons (s := .hook name none body) hn,
    withoutTracing_cons hx']

/-- What the hook passes in the pipeline without the tracing hooks is the severed part. -/
theorem withoutTracing_insert_after (hn : Stage.isName name = false)
    (ha : Stage.isName anchor = false) (h : p.insert (.after anchor) name body = some p') :
    ∃ l r, p'.withoutTracing = l ++ .hook name (some anchor) body :: (p.severed anchor ++ r) ∧
      p.withoutTracing.insert (.after anchor) name body =
        some (l ++ p.severed anchor ++ .hook name (some anchor) body :: r) := by
  obtain ⟨l, x, r, rfl, hx, hl, rfl⟩ := insert_after_eq_some h
  have hx' : Stage.isName x.name = false := hx ▸ ha
  have hl' : anchor ∉ l.withoutTracing.names := by rwa [mem_names_withoutTracing ha]
  obtain ⟨htake, hdrop⟩ := withoutTracing_run (Step.follows anchor) r
  refine ⟨l.withoutTracing ++ x :: withoutTracing (r.takeWhile (Step.follows anchor)),
    (withoutTracing (r.dropWhile (Step.follows anchor))).dropWhile (Step.follows anchor), ?_, ?_⟩
  · rw [severed, behind_append hl hx, List.takeWhile_append_dropWhile, withoutTracing_append,
      withoutTracing_cons hx', withoutTracing_append,
      withoutTracing_cons (s := .hook name (some anchor) body) hn]
    simp only [List.append_assoc, List.cons_append]
  · rw [severed, behind_append hl hx, withoutTracing_append, withoutTracing_cons hx', insert,
      insertAfter_append hl' hx, htake, hdrop]
    simp only [List.append_assoc, List.cons_append]

/-- Unless the run behind the anchor is severed, the hook goes to the same place. -/
theorem withoutTracing_insert (hn : Stage.isName name = false)
    (ha : Stage.isName position.anchor = false)
    (hs : ∀ anchor, position = .after anchor → p.severed anchor = [])
    (h : p.insert position name body = some p') :
    p.withoutTracing.insert position name body = some p'.withoutTracing := by
  cases position with
  | before anchor => exact withoutTracing_insert_before hn ha h
  | after anchor =>
    have ha : Stage.isName anchor = false := ha
    obtain ⟨l, r, hl, hr⟩ := withoutTracing_insert_after hn ha h
    have hs := hs anchor rfl
    rw [hr, hl, hs, List.append_nil, List.nil_append]

/-- Past a severed hook, the order of the new hook and that hook is reversed. -/
theorem ahead_of_severed {s : Step H} (hn : Stage.isName name = false)
    (ha : Stage.isName anchor = false) (hs : s ∈ p.severed anchor)
    (h : p.insert (.after anchor) name body = some p') :
    p'.Ahead name s.name ∧ ∃ q, p.withoutTracing.insert (.after anchor) name body = some q ∧
      q.Ahead s.name name := by
  obtain ⟨l, r, hl, hr⟩ := withoutTracing_insert_after hn ha h
  refine ⟨?_, _, hr, ahead_append ?_ List.mem_cons_self⟩
  · have hahead : p'.withoutTracing.Ahead name s.name := by
      rw [hl]
      refine ahead_append_cons l (.hook name (some anchor) body) ?_
      exact mem_names.mpr ⟨s, List.mem_append_left _ hs, rfl⟩
    exact hahead.trans (List.filter_sublist.map _)
  · exact mem_names.mpr ⟨s, List.mem_append_right _ hs, rfl⟩

/-- A tracing hook leaves no trace. -/
theorem withoutTracing_insert_tracing (hn : Stage.isName name = true)
    (h : p.insert position name body = some p') : p'.withoutTracing = p.withoutTracing := by
  obtain ⟨l, r, rfl, rfl⟩ := insert_eq_some h
  rw [withoutTracing_append, withoutTracing_append]
  have hnew : (!Stage.isName (newStep position name body).name) = false := by
    rw [newStep_name, hn]
    rfl
  exact congrArg _ (List.filter_cons_of_neg (Bool.not_eq_true _ ▸ hnew))

end Pipeline

/-- One call that registers a hook on a handle. -/
structure Registration (C : Type) where
  operation : Operation
  position : Position
  name : String
  hook : Hook C

namespace Registration
variable {C : Type}

def call (r : Registration C) : Pipelines.Call (Hook C) :=
  .register r.operation r.position r.name r.hook

/-- Neither the hook nor its anchor has the name of a tracing hook. -/
structure Foreign (r : Registration C) : Prop where
  name : Stage.isName r.name = false
  anchor : Stage.isName r.position.anchor = false

theorem foreign_iff {r : Registration C} : r.Foreign ↔
    Stage.isName r.name = false ∧ Stage.isName r.position.anchor = false :=
  ⟨fun h => ⟨h.name, h.anchor⟩, fun h => ⟨h.1, h.2⟩⟩

instance (r : Registration C) : Decidable r.Foreign := decidable_of_iff' _ foreign_iff

/-- The hook is new to the pipeline and goes behind a step whose followers are severed. -/
def Interrupted (r : Registration C) (o : Operation) (p : Pipeline (Hook C)) : Prop :=
  r.operation = o ∧ r.name ∉ p.names ∧
    ∃ anchor, r.position = .after anchor ∧ p.severed anchor ≠ []

end Registration

namespace Pipelines
variable {C : Type} {ps qs : Pipelines (Hook C)} {o : Operation}

/-- A call that interferes with no run has the same effect with and without tracing hooks. -/
theorem withoutTracing_call {r : Registration C} (hf : r.Foreign)
    (he : (ps o).withoutTracing = qs o) (hi : ¬ r.Interrupted o (ps o)) :
    (ps.call r.call o).withoutTracing = qs.call r.call o := by
  by_cases ho : o = r.operation
  · subst ho
    rw [Registration.call, call_register, call_register, ← he]
    by_cases hn : r.name ∈ (ps r.operation).names
    · rw [if_pos hn, if_pos ((Pipeline.mem_names_withoutTracing hf.name).mpr hn)]
    · rw [if_neg hn, if_neg (mt (Pipeline.mem_names_withoutTracing hf.name).mp hn)]
      have hs : ∀ anchor, r.position = .after anchor → (ps r.operation).severed anchor = [] := by
        intro anchor ha
        by_contra hs
        exact hi ⟨rfl, hn, anchor, ha, hs⟩
      cases hp : (ps r.operation).insert r.position r.name r.hook with
      | some p => rw [Pipeline.withoutTracing_insert hf.name hf.anchor hs hp]; rfl
      | none =>
        have ha : r.position.anchor ∉ (ps r.operation).withoutTracing.names := by
          rw [Pipeline.mem_names_withoutTracing hf.anchor]
          exact Pipeline.insert_eq_none_iff.mp hp
        rw [Pipeline.insert_eq_none_iff.mpr ha]
        rfl
  · rw [Registration.call, call_register_other ps ho, call_register_other qs ho, he]

theorem insert_of_interrupted {r : Registration C} (hi : r.Interrupted o (ps o))
    (hf : r.Foreign) (he : (ps o).withoutTracing = qs o) :
    ∃ s t, s ∈ ps.call r.call o ∧ t ∈ ps.call r.call o ∧ s ∈ qs.call r.call o ∧
      t ∈ qs.call r.call o ∧ (ps.call r.call o).Ahead s.name t.name ∧
      (qs.call r.call o).Ahead t.name s.name := by
  obtain ⟨rfl, hn, anchor, hpos, hsevered⟩ := hi
  have ha : Stage.isName anchor = false := by simpa [hpos, Position.anchor] using hf.anchor
  obtain ⟨t, ht⟩ := List.exists_mem_of_ne_nil _ hsevered
  have hanchor : anchor ∈ (ps r.operation).names := by
    by_contra h
    exact hsevered (Pipeline.severed_eq_nil h)
  obtain ⟨p', hp⟩ : ∃ p', (ps r.operation).insert (.after anchor) r.name r.hook = some p' :=
    Option.ne_none_iff_exists'.mp fun h => Pipeline.insert_eq_none_iff.mp h hanchor
  obtain ⟨hst, q, hq, hts⟩ := Pipeline.ahead_of_severed hf.name ha ht hp
  have hnq : r.name ∉ (qs r.operation).names := by
    rwa [← he, Pipeline.mem_names_withoutTracing hf.name]
  have htq : t ∈ (ps r.operation).withoutTracing := (Pipeline.severed_sublist anchor _).subset ht
  have htp : t ∈ ps r.operation := (List.mem_filter.mp htq).1
  rw [he] at hq htq
  rw [Registration.call, hpos, call_register_of_insert hn hp, call_register_of_insert hnq hq]
  exact ⟨.hook r.name (some anchor) r.hook, t, Pipeline.newStep_mem_insert hp,
    Pipeline.mem_insert htp hp, Pipeline.newStep_mem_insert hq, Pipeline.mem_insert htq hq, hst, hts⟩

/-- A call on a handle's pipelines takes nothing out. -/
theorem registrations_remove_nothing (rs : List (Registration C)) (o : Operation)
    (s : Step (Hook C)) : ∀ c ∈ rs.map Registration.call, ¬ c.Removes o s := by
  intro c hc
  obtain ⟨r, _, rfl⟩ := List.mem_map.mp hc
  rintro ⟨h, _⟩
  cases h

/-- Registrations other than the plugin's make no tracing hook. -/
theorem registrations_foreign {rs : List (Registration C)} (hf : ∀ r ∈ rs, r.Foreign)
    (hp : ∀ s ∈ ps o, Stage.isName s.name = false) :
    ∀ s ∈ ps.calls (rs.map Registration.call) o, Stage.isName s.name = false := by
  induction rs generalizing ps with
  | nil => exact hp
  | cons r rs ih =>
    obtain ⟨hr, hrs⟩ := List.forall_mem_cons.mp hf
    refine ih hrs ?_
    rcases call_cases ps r.call o with h | ⟨_, _, _, hc, _, h⟩ | ⟨_, hc, _⟩
    · rw [h]
      exact hp
    · cases hc
      obtain ⟨l, r', hl, hr'⟩ := Pipeline.insert_eq_some h
      rw [hl] at hp
      rw [hr']
      intro s hs
      rcases List.mem_append.mp hs with hs | hs
      · exact hp s (List.mem_append_left _ hs)
      · rcases List.mem_cons.mp hs with rfl | hs
        · rw [Pipeline.newStep_name]
          exact hr.name
        · exact hp s (List.mem_append_right _ hs)
    · cases hc

/-- With and without tracing hooks, the same registrations build the same pipeline exactly if none
of them is interrupted. -/
theorem Sound.registrations_agree_iff {rs : List (Registration C)} (hp : ps.Sound) (hq : qs.Sound)
    (hf : ∀ r ∈ rs, r.Foreign) (he : (ps o).withoutTracing = qs o) :
    (ps.calls (rs.map Registration.call) o).withoutTracing =
        qs.calls (rs.map Registration.call) o ↔
      ∀ as r bs, rs = as ++ r :: bs →
        ¬ r.Interrupted o (ps.calls (as.map Registration.call) o) := by
  induction rs generalizing ps qs with
  | nil =>
    refine iff_of_true he fun as r bs h => ?_
    simp at h
  | cons r rs ih =>
    obtain ⟨hr, hrs⟩ := List.forall_mem_cons.mp hf
    by_cases hi : r.Interrupted o (ps o)
    · refine iff_of_false (fun h => ?_) fun h => h [] r rs rfl hi
      obtain ⟨s, t, hs, ht, hs', ht', hst, hts⟩ := insert_of_interrupted hi hr he
      have hkeep : ∀ c ∈ rs.map Registration.call, ¬ c.Removes o s ∧ ¬ c.Removes o t :=
        fun c hc => ⟨registrations_remove_nothing rs o s c hc,
          registrations_remove_nothing rs o t c hc⟩
      have hst := (hp.call r.call).ahead_calls hs ht hst hkeep
      have hts := (hq.call r.call).ahead_calls ht' hs' hts fun c hc => (hkeep c hc).symm
      rw [List.map_cons, calls_cons, calls_cons] at h
      rw [← h] at hts
      have hback : ((ps.call r.call).calls (rs.map Registration.call) o).Ahead t.name s.name :=
        hts.trans (List.filter_sublist.map _)
      exact ((hp.call r.call).calls _ o).not_ahead hst hback
    · rw [List.map_cons, calls_cons, calls_cons,
        ih (hp.call r.call) (hq.call r.call) hrs (withoutTracing_call hr he hi)]
      constructor
      · intro h as r' bs has
        rcases as with _ | ⟨a, as⟩
        · obtain ⟨rfl, _⟩ := List.cons.inj has
          exact hi
        · obtain ⟨rfl, rfl⟩ := List.cons.inj has
          exact h as r' bs rfl
      · rintro h as r' bs rfl
        exact h (r :: as) r' bs rfl

end Pipelines

namespace Tracing
variable {C σ : Type}

def stageCall (o : Options) (s : Stage) : Pipelines.Call (Hook C) :=
  .register s.operation s.position s.name (s.hook o)

theorem registerStages_pipelines (o : Options) (ss : List Stage) (failures : Failures)
    (h : Host C σ) : (h.setUp (registerStages o ss failures)).2.database.pipelines =
      h.database.pipelines.calls (ss.map (stageCall o)) := by
  induction ss generalizing h failures with
  | nil => rfl
  | cons s ss ih =>
    rw [registerStages, Host.setUp, ih]
    rfl

/-- Setting the plugin up changes nothing but tracing hooks. -/
theorem withoutTracing_stageCalls (opts : Options) (ss : List Stage) (ps : Pipelines (Hook C))
    (o : Operation) : (ps.calls (ss.map (stageCall opts)) o).withoutTracing =
      (ps o).withoutTracing := by
  induction ss generalizing ps with
  | nil => rfl
  | cons s ss ih =>
    rw [List.map_cons, Pipelines.calls_cons, ih]
    rcases Pipelines.call_cases ps (stageCall opts s) o with h | ⟨_, _, _, hc, _, h⟩ | ⟨_, hc, _⟩
    · rw [h]
    · cases hc
      exact Pipeline.withoutTracing_insert_tracing s.isName_name h
    · cases hc

end Tracing

namespace Database
variable {C : Type}

def registerAll (db : Database C) (rs : List (Registration C)) : Database C :=
  rs.foldl (fun db r => (db.register r.operation r.position r.name r.hook).2) db

theorem registerAll_pipelines (db : Database C) (rs : List (Registration C)) :
    (db.registerAll rs).pipelines = db.pipelines.calls (rs.map Registration.call) := by
  induction rs generalizing db with
  | nil => rfl
  | cons r rs ih => exact ih _

end Database

namespace Tracing
variable {C σ : Type}

/-- The handle after the plugin was set up and further hooks were registered. -/
def installed (opts : Options) (h : Host C σ) (rs : List (Registration C)) : Database C :=
  (h.setUp (setup opts)).2.database.registerAll rs

/-- The plugin moves no other hook exactly if no registration that comes after it is interrupted. -/
theorem setup_keeps_order_iff (opts : Options) {h : Host C σ} {dbName : String} {dialect : Dialect}
    {before after : List (Registration C)}
    (hd : h.database = (Database.create dbName dialect).registerAll before)
    (hf : ∀ r ∈ before ++ after, r.Foreign) (o : Operation) :
    ((installed opts h after).pipelines o).withoutTracing =
        ((Database.create dbName dialect).registerAll (before ++ after)).pipelines o ↔
      ∀ as r bs, after = as ++ r :: bs →
        ¬ r.Interrupted o ((installed opts h as).pipelines o) := by
  obtain ⟨hbefore, hafter⟩ := List.forall_mem_append.mp hf
  set qs : Pipelines (Hook C) := Pipelines.initial.calls (before.map Registration.call) with hqs
  have hinstalled : ∀ rs, (installed opts h rs).pipelines =
      (qs.calls (Stage.all.map (stageCall opts))).calls (rs.map Registration.call) := by
    intro rs
    rw [installed, Database.registerAll_pipelines, setup, registerStages_pipelines, hd,
      Database.registerAll_pipelines]
    rfl
  have hplain : ((Database.create dbName dialect).registerAll (before ++ after)).pipelines =
      qs.calls (after.map Registration.call) := by
    rw [Database.registerAll_pipelines, List.map_append, Pipelines.calls_append]
    rfl
  have hsound : qs.Sound := Pipelines.sound_initial.calls _
  have hown : ∀ s ∈ qs o, Stage.isName s.name = false := by
    refine Pipelines.registrations_foreign hbefore fun s hs => ?_
    obtain rfl := List.mem_singleton.mp hs
    exact Stage.isName_builtinStep o
  have hagree : (qs.calls (Stage.all.map (stageCall opts)) o).withoutTracing = qs o := by
    rw [withoutTracing_stageCalls, Pipeline.withoutTracing_eq_self hown]
  simp only [hinstalled, hplain]
  exact (hsound.calls _).registrations_agree_iff hsound hafter hagree

/-- One hook after the query step and one after that hook, then the plugin. -/
theorem setup_keeps_order_iff_chained :
    ∃ (h : Host Nat Unit) (before after : List (Registration Nat)),
      h.database = (Database.create "db" .mysql).registerAll before ∧
      (∀ r ∈ before ++ after, r.Foreign) ∧
      (((installed .default h after).pipelines .query).withoutTracing =
          ((Database.create "db" .mysql).registerAll (before ++ after)).pipelines .query ↔
        ∀ as r bs, after = as ++ r :: bs →
          ¬ r.Interrupted .query ((installed .default h as).pipelines .query)) := by
  have hf : ∀ r ∈ ([⟨.query, .after "db:query", "h", .custom 0⟩,
      ⟨.query, .after "h", "k", .custom 1⟩] : List (Registration Nat)) ++
      [⟨.query, .before "k", "m", .custom 2⟩], r.Foreign := by decide
  exact ⟨⟨(Database.create "db" .mysql).registerAll [⟨.query, .after "db:query", "h", .custom 0⟩,
    ⟨.query, .after "h", "k", .custom 1⟩], .initial, [], ()⟩, _, _, rfl, hf,
    setup_keeps_order_iff .default rfl hf .query⟩

/-- The second hook after `h` lands ahead of the first, which the plugin's hook cut off. -/
theorem setup_moves_hook :
    ¬ ∀ (opts : Options) (h : Host Nat Unit) (dbName : String) (dialect : Dialect)
      (before after : List (Registration Nat)),
      h.database = (Database.create dbName dialect).registerAll before →
      (∀ r ∈ before ++ after, r.Foreign) → ∀ o,
      ((installed opts h after).pipelines o).withoutTracing =
        ((Database.create dbName dialect).registerAll (before ++ after)).pipelines o := by
  intro h
  have hf : ∀ r ∈ ([⟨.query, .after "db:query", "h", .custom 0⟩,
      ⟨.query, .after "h", "k", .custom 1⟩] : List (Registration Nat)) ++
      [⟨.query, .after "h", "m", .custom 2⟩], r.Foreign := by decide
  have hsame := h .default
    ⟨(Database.create "db" .mysql).registerAll [⟨.query, .after "db:query", "h", .custom 0⟩,
      ⟨.query, .after "h", "k", .custom 1⟩], .initial, [], ()⟩ "db" .mysql _ _ rfl hf .query
  have hnames := congrArg Pipeline.names hsame
  revert hnames
  decide

end Tracing
end DatabaseTracing
