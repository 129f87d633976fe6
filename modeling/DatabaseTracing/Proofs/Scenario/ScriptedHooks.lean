import DatabaseTracing.Proofs.Run.Ledgers
import DatabaseTracing.Proofs.Run.InForce
import DatabaseTracing.Scenario.Script

/-! # Scripted hooks do not look at spans

A scripted hook notes the statement that it sees, and what it does goes by the error of the
statement at most. So it does the same to a statement whatever spans the statement has,
and the rest of the host is the same afterwards, up to the spans in the notes.
-/
namespace DatabaseTracing
variable {C : Type}

/-! ### Registering on a handle with silent hooks -/

theorem Step.name_silent (s : Step (Hook C)) : s.silent.name = s.name := by cases s <;> rfl

theorem Step.follows_silent (anchor : String) (s : Step (Hook C)) :
    s.silent.follows anchor = s.follows anchor := by
  cases s <;> rfl

namespace Pipeline

theorem names_silent (p : Pipeline (Hook C)) : names (p.map Step.silent) = names p := by
  rw [names, names, List.map_map]
  exact List.map_congr_left fun s _ => s.name_silent

theorem isHookNamed_silent (name : String) (s : Step (Hook C)) :
    isHookNamed name s.silent = isHookNamed name s := by
  cases s <;> rfl

theorem insertBefore_silent (anchor : String) (new : Step (Hook C)) (p : Pipeline (Hook C)) :
    insertBefore anchor new.silent (p.map Step.silent) =
      (insertBefore anchor new p).map (List.map Step.silent) := by
  induction p with
  | nil => rfl
  | cons s p ih =>
    simp only [List.map_cons, insertBefore, Step.name_silent, ih]
    split
    · rfl
    · cases insertBefore anchor new p <;> rfl

theorem insertAfter_silent (anchor : String) (new : Step (Hook C)) (p : Pipeline (Hook C)) :
    insertAfter anchor new.silent (p.map Step.silent) =
      (insertAfter anchor new p).map (List.map Step.silent) := by
  have hfollows : Step.follows anchor ∘ Step.silent = (Step.follows anchor : Step (Hook C) → Bool) :=
    funext (Step.follows_silent anchor)
  induction p with
  | nil => rfl
  | cons s p ih =>
    simp only [List.map_cons, insertAfter, Step.name_silent, ih]
    split
    · simp [List.takeWhile_map, List.dropWhile_map, hfollows]
    · cases insertAfter anchor new p <;> rfl

theorem register_silent (o : Operation) (position : Position) (name : String) (body : Hook C)
    (p : Pipeline (Hook C)) : register o position name body.silent (p.map Step.silent) =
      (register o position name body p).map (List.map Step.silent) := by
  have hinsert : insert position name body.silent (p.map Step.silent) =
      (insert position name body p).map (List.map Step.silent) := by
    cases position with
    | before anchor => exact insertBefore_silent anchor (.hook name none body) p
    | after anchor => exact insertAfter_silent anchor (.hook name (some anchor) body) p
  unfold register
  rw [names_silent, hinsert]
  split
  · rfl
  · cases insert position name body p <;> rfl

end Pipeline

namespace Pipelines

def silent (ps : Pipelines (Hook C)) : Pipelines (Hook C) := fun o => (ps o).map Step.silent

theorem silent_set (ps : Pipelines (Hook C)) (o : Operation) (p : Pipeline (Hook C)) :
    ps.silent.set o (p.map Step.silent) = (ps.set o p).silent := by
  funext o'
  by_cases ho : o' = o
  · subst ho
    simp [silent]
  · simp [silent, ho]

theorem register_silent (ps : Pipelines (Hook C)) (o : Operation) (position : Position)
    (name : String) (body : Hook C) : ps.silent.register o position name body.silent =
      ((ps.register o position name body).1, (ps.register o position name body).2.silent) := by
  have hone := (ps o).register_silent o position name body
  unfold register
  rw [silent, hone]
  cases (ps o).register o position name body with
  | error e => rfl
  | ok p => exact congrArg (Prod.mk _) (ps.silent_set o p)

theorem remove_silent (ps : Pipelines (Hook C)) (o : Operation) (name : String) :
    ps.silent.remove o name = ((ps.remove o name).1, (ps.remove o name).2.silent) := by
  have hhas : Pipeline.hasHook name ((ps o).map Step.silent) = Pipeline.hasHook name (ps o) := by
    rw [Pipeline.hasHook, Pipeline.hasHook, List.any_map]
    exact congrArg ((ps o).any ·) (funext (Pipeline.isHookNamed_silent name))
  have herase : Pipeline.erase name ((ps o).map Step.silent) =
      (Pipeline.erase name (ps o)).map Step.silent := by
    rw [Pipeline.erase, Pipeline.erase, List.filter_map]
    refine congrArg (List.map Step.silent) (List.filter_congr fun s _ => ?_)
    exact congrArg (!·) (Pipeline.isHookNamed_silent name s)
  exact Prod.ext hhas ((congrArg (ps.silent.set o) herase).trans (ps.silent_set o _))

end Pipelines

namespace Database
variable {db db' : Database C}

/-- Handles that differ in sources only answer a registration alike, and differ in no more then. -/
theorem register_of_silent_eq (h : db.silent = db'.silent) (o : Operation) (position : Position)
    (name : String) (body : Hook C) :
    (db.register o position name body).1 = (db'.register o position name body).1 ∧
      (db.register o position name body).2.silent = (db'.register o position name body).2.silent := by
  have hone (d : Database C) : d.silent.register o position name body.silent =
      ((d.register o position name body).1, (d.register o position name body).2.silent) :=
    congrArg (fun x : Outcome × Pipelines (Hook C) =>
      (x.1, { d.silent with pipelines := x.2 })) (d.pipelines.register_silent o position name body)
  have hboth := (hone db).symm.trans ((congrArg (·.register o position name body.silent) h).trans
    (hone db'))
  exact Prod.mk.inj hboth

theorem remove_of_silent_eq (h : db.silent = db'.silent) (o : Operation) (name : String) :
    (db.remove o name).1 = (db'.remove o name).1 ∧
      (db.remove o name).2.silent = (db'.remove o name).2.silent := by
  have hone (d : Database C) : d.silent.remove o name =
      ((d.remove o name).1, (d.remove o name).2.silent) :=
    congrArg (fun x : Bool × Pipelines (Hook C) =>
      (x.1, { d.silent with pipelines := x.2 })) (d.pipelines.remove_silent o name)
  have hboth := (hone db).symm.trans ((congrArg (·.remove o name) h).trans (hone db'))
  exact Prod.mk.inj hboth

end Database

namespace Scenario

/-! ### Scripted code -/

/-- The notes tell the same but for the spans that statements carry. -/
inductive Note.Alike : Note → Note → Prop
  | same (n : Note) : Alike n n
  | hook (name database : String) {s t : Statement} (h : s.Hushed t) :
      Alike (.hook name database s) (.hook name database t)

structure Bench.Alike (a b : Bench) : Prop where
  journal : List.Forall₂ Note.Alike a.journal b.journal
  outcome : a.outcome = b.outcome

theorem Bench.Alike.noted {a b : Bench} (h : a.Alike b) {n m : Note} (hn : n.Alike m) :
    (a.noted n).Alike (b.noted m) :=
  ⟨List.rel_append h.journal (.cons hn .nil), h.outcome⟩

theorem Bench.Alike.refl (b : Bench) : b.Alike b := ⟨List.forall₂_same.mpr fun n _ => .same n, rfl⟩

/-- What an action does to the spans of a statement. -/
def Action.handlings (s : Statement) : Action → List Handling
  | clearSpan => [.drop]
  | detach => [.detach]
  | attach => [.attach none]
  | spanAttribute key text => [.edit (.attribute key (.text text))]
  | spanEnd => [.edit .finish]
  | ifError a => if s.error.isSome then a.handlings s else []
  | _ => []

/-- What a script does to the spans of a statement, action by action. -/
def handlings : List Action → ScriptedHost → Statement → List Handling
  | [], _, _ => []
  | a :: as, h, s => a.handlings s ++ handlings as (a.perform h s).1 (a.perform h s).2

abbrev Hushed (x y : ScriptedHost × Statement) : Prop := UserCode.Hushed Bench.Alike x y

variable {x y : ScriptedHost × Statement}

theorem Action.perform_hushed (a : Action) (h : Hushed x y) :
    Hushed (a.perform x.1 x.2) (a.perform y.1 y.2) := by
  obtain ⟨hhost, hs⟩ := h
  cases a with
  | setError e => exact ⟨hhost, { hs with error := rfl }⟩
  | clearError => exact ⟨hhost, { hs with error := rfl }⟩
  | setRows n => exact ⟨hhost, { hs with rowsAffected := rfl }⟩
  | setSql sql => exact ⟨hhost, { hs with sql := rfl }⟩
  | pushVar v => exact ⟨hhost, { hs with vars := congrArg (· ++ [v]) hs.vars }⟩
  | clearVars => exact ⟨hhost, { hs with vars := rfl }⟩
  | clearStart => exact ⟨hhost, { hs with started := rfl }⟩
  | clearSpan => exact ⟨⟨hhost.database, hhost.log, hhost.user⟩, { hs with span := rfl }⟩
  | detach => exact ⟨⟨hhost.database, hhost.log, hhost.user⟩, { hs with context := rfl }⟩
  | attach => exact ⟨⟨hhost.database, hhost.log, hhost.user⟩, { hs with context := rfl }⟩
  | register o position name actions =>
    obtain ⟨houtcome, hdatabase⟩ := Database.register_of_silent_eq hhost.database o position name
      (.custom ⟨name, actions⟩)
    exact ⟨⟨hdatabase, hhost.log, hhost.user.noted (houtcome ▸ .same (.registered name _))⟩, hs⟩
  | remove o name =>
    obtain ⟨houtcome, hdatabase⟩ := Database.remove_of_silent_eq hhost.database o name
    have hnote : (Note.removed name (x.1.database.remove o name).1).Alike
        (.removed name (y.1.database.remove o name).1) := houtcome ▸ .same _
    exact ⟨⟨hdatabase, hhost.log, hhost.user.noted hnote⟩, hs⟩
  | spanAttribute key text => exact ⟨⟨hhost.database, hhost.log, hhost.user⟩, hs⟩
  | spanEnd => exact ⟨⟨hhost.database, hhost.log, hhost.user⟩, hs⟩
  | ifError a =>
    rw [Action.perform, Action.perform, hs.error]
    split
    · exact Action.perform_hushed a ⟨hhost, hs⟩
    · exact ⟨hhost, hs⟩

theorem performAll_hushed (actions : List Action) (h : Hushed x y) :
    Hushed (performAll actions x.1 x.2) (performAll actions y.1 y.2) := by
  induction actions generalizing x y with
  | nil => exact h
  | cons a actions ih => exact ih (a.perform_hushed h)

/-- The hook begins with a note of what it sees. -/
theorem noted_hushed (script : HookScript) (h : Hushed x y) :
    Hushed (ScriptedHost.noted x.1 (.hook script.name x.1.database.name x.2), x.2)
      (ScriptedHost.noted y.1 (.hook script.name y.1.database.name y.2), y.2) := by
  have hname : x.1.database.name = y.1.database.name :=
    (congrArg Database.name h.host.database :)
  have hnote : Note.Alike (.hook script.name x.1.database.name x.2)
      (.hook script.name y.1.database.name y.2) := hname ▸ .hook _ _ h.statement
  exact ⟨⟨h.host.database, h.host.log, h.host.user.noted hnote⟩, h.statement⟩

theorem userCode_incurious : userCode.Incurious Bench.Alike where
  hook script {x y} h := performAll_hushed script.actions (noted_hushed script h)
  driver o {s t a b} hab h := by
    have hnote : (Note.driven o s.sql s.vars.length s.rowsAffected).Alike
        (.driven o t.sql t.vars.length t.rowsAffected) := by
      rw [h.sql, h.vars, h.rowsAffected]
      exact .same _
    exact ⟨hab.outcome, hab.noted hnote⟩

theorem Action.handlings_eq (a : Action) {s t : Statement} (h : s.Hushed t) :
    a.handlings s = a.handlings t := by
  cases a with
  | ifError a => rw [handlings, handlings, h.error, Action.handlings_eq a h]
  | _ => rfl

theorem handlings_eq (actions : List Action) (h : Hushed x y) :
    handlings actions x.1 x.2 = handlings actions y.1 y.2 := by
  induction actions generalizing x y with
  | nil => rfl
  | cons a actions ih =>
    rw [handlings, handlings, a.handlings_eq h.statement, ih (a.perform_hushed h)]

theorem Action.perform_database (a : Action) (h : Hushed x y)
    (hdatabase : x.1.database = y.1.database) :
    (a.perform x.1 x.2).1.database = (a.perform y.1 y.2).1.database := by
  cases a with
  | register o position name actions =>
    exact congrArg (fun db : Database HookScript => (db.register o position name _).2) hdatabase
  | remove o name => exact congrArg (fun db : Database HookScript => (db.remove o name).2) hdatabase
  | ifError a =>
    rw [Action.perform, Action.perform, h.statement.error]
    split
    · exact Action.perform_database a h hdatabase
    · exact hdatabase
  | _ => exact hdatabase

theorem performAll_database (actions : List Action) (h : Hushed x y)
    (hdatabase : x.1.database = y.1.database) :
    (performAll actions x.1 x.2).1.database = (performAll actions y.1 y.2).1.database := by
  induction actions generalizing x y with
  | nil => exact hdatabase
  | cons a actions ih => exact ih (a.perform_hushed h) (a.perform_database h hdatabase)

theorem Action.perform_holdings (a : Action) (h : ScriptedHost) (s : Statement) :
    (a.perform h s).1.holdings (a.perform h s).2 =
      (a.handlings s).foldl Handling.apply (h.holdings s) := by
  cases a with
  | ifError a =>
    rw [Action.perform, Action.handlings]
    split
    · exact Action.perform_holdings a h s
    · rfl
  | _ => rfl

theorem performAll_holdings (actions : List Action) (h : ScriptedHost) (s : Statement) :
    (performAll actions h s).1.holdings (performAll actions h s).2 =
      (handlings actions h s).foldl Handling.apply (h.holdings s) := by
  induction actions generalizing h s with
  | nil => rfl
  | cons a actions ih =>
    rw [handlings, List.foldl_append, ← a.perform_holdings]
    exact ih _ _

/-- What a scripted hook does to spans. -/
def plan (script : HookScript) (h : ScriptedHost) (s : Statement) : List Handling :=
  handlings script.actions (ScriptedHost.noted h (.hook script.name h.database.name s)) s

theorem userCode_handles : userCode.Handles plan Bench.Alike where
  incurious := userCode_incurious
  blind script {_ _} h := handlings_eq script.actions (noted_hushed script h)
  database script {_ _} h hdatabase :=
    performAll_database script.actions (noted_hushed script h) hdatabase
  holdings script h s := performAll_holdings script.actions
    (ScriptedHost.noted h (.hook script.name h.database.name s)) s

theorem globalProvider_editSpan (t : Telemetry) (c : Option Context) (e : SpanEdit) :
    (c.elim t (t.edit · e)).globalProvider = t.globalProvider := by
  cases c with
  | none => rfl
  | some c => exact (t.edit_sameBirths c e).globalProvider

theorem Action.perform_globalProvider (a : Action) (h : ScriptedHost) (s : Statement) :
    (a.perform h s).1.telemetry.globalProvider = h.telemetry.globalProvider := by
  cases a with
  | clearSpan => exact Telemetry.globalProvider_releaseAll ..
  | detach => exact Telemetry.globalProvider_releaseAll ..
  | attach => exact Telemetry.globalProvider_releaseAll ..
  | spanAttribute key text => exact globalProvider_editSpan ..
  | spanEnd => exact globalProvider_editSpan ..
  | ifError a =>
    rw [Action.perform]
    split
    · exact Action.perform_globalProvider a h s
    · rfl
  | _ => rfl

theorem performAll_globalProvider (actions : List Action) (h : ScriptedHost) (s : Statement) :
    (performAll actions h s).1.telemetry.globalProvider = h.telemetry.globalProvider := by
  induction actions generalizing h s with
  | nil => rfl
  | cons a actions ih => exact (ih _ _).trans (a.perform_globalProvider h s)

theorem userCode_leavesGlobal : userCode.LeavesGlobal := fun script h s =>
  performAll_globalProvider script.actions
    (ScriptedHost.noted h (.hook script.name h.database.name s)) s

end Scenario
end DatabaseTracing
