import DatabaseTracing.Plugin
import DatabaseTracing.Proofs.Pipeline.Sides
import DatabaseTracing.Proofs.Run.Transparency

/-! # Plugins that install plugins

A plugin's setup may install further plugins on the handle it was given, to any
depth and also under its own name. What happens on the way is read off a journal:
the setups are given steps that note the moments and leave all else as it is. A
handle's plugins are then those from before and the ones whose installation
succeeded in the meantime, each once.
-/
namespace DatabaseTracing
variable {C σ : Type}

theorem Pipelines.sublist_call_register {H : Type} (ps : Pipelines H) (o : Operation)
    (position : Position) (name : String) (body : H) (o' : Operation) :
    (ps o').Sublist (ps.call (.register o position name body) o') := by
  rcases call_cases ps (.register o position name body) o' with h | ⟨_, _, _, _, _, h⟩ | ⟨_, hc, _⟩
  · exact h ▸ List.Sublist.refl _
  · obtain ⟨l, r, hl, hr⟩ := Pipeline.insert_eq_some h
    rw [hl, hr]
    exact (List.Sublist.refl l).append (List.sublist_cons_self _ r)
  · cases hc

/-- A moment of an installation. -/
inductive PluginNote (C : Type) where
  /-- The setup of the plugin of that name begins. -/
  | began (name : String)
  /-- The setup comes to its result. -/
  | ended (name : String) (r : Outcome)
  /-- A setup learns what came of installing the plugin of that name. -/
  | answered (name : String) (r : Outcome)
  | registered (o : Operation) (position : Position) (name : String) (hook : Hook C) (r : Outcome)

namespace PluginNote

/-- The plugin that was installed at that moment. -/
def installed? : PluginNote C → Option String
  | .answered name (.ok _) => some name
  | _ => none

def toUser (n : PluginNote C) (x : σ × List (PluginNote C)) : σ × List (PluginNote C) :=
  (x.1, x.2 ++ [n])

/-- The plugins that were installed, in order. -/
def installed (notes : List (PluginNote C)) : List String := notes.filterMap installed?

@[simp] theorem installed_nil : installed ([] : List (PluginNote C)) = [] := rfl

@[simp] theorem installed_append (ms ns : List (PluginNote C)) :
    installed (ms ++ ns) = installed ms ++ installed ns := List.filterMap_append

@[simp] theorem installed_began (name : String) (ns : List (PluginNote C)) :
    installed (.began name :: ns) = installed ns := rfl

@[simp] theorem installed_ended (name : String) (r : Outcome) (ns : List (PluginNote C)) :
    installed (.ended name r :: ns) = installed ns := rfl

@[simp] theorem installed_registered (o : Operation) (position : Position) (name : String)
    (hook : Hook C) (r : Outcome) (ns : List (PluginNote C)) :
    installed (.registered o position name hook r :: ns) = installed ns := rfl

@[simp] theorem installed_ok (name : String) (ns : List (PluginNote C)) :
    installed (.answered name (.ok ()) :: ns) = name :: installed ns := rfl

@[simp] theorem installed_error (name : String) (e : DatabaseError) (ns : List (PluginNote C)) :
    installed (.answered name (.error e) :: ns) = installed ns := rfl

end PluginNote

/-- The same setup, of the plugin of that name, with every moment noted. -/
def Setup.noting (owner : String) : Setup C σ → Setup C (σ × List (PluginNote C))
  | .done r => .note (PluginNote.ended owner r).toUser (.done r)
  | .register o position name hook next =>
    .register o position name hook fun r =>
      .note (PluginNote.registered o position name hook r).toUser ((next r).noting owner)
  | .install name setup next =>
    .install name (.note (PluginNote.began name).toUser (setup.noting name)) fun r =>
      .note (PluginNote.answered name r).toUser ((next r).noting owner)
  | .consult next => .consult fun db => (next db).noting owner
  | .log e next => .log e (next.noting owner)
  | .note f next => .note (Prod.map f id) (next.noting owner)

def Plugin.noting (p : Plugin C σ) : Plugin C (σ × List (PluginNote C)) :=
  ⟨p.name, .note (PluginNote.began p.name).toUser (p.setup.noting p.name)⟩

namespace Host

/-- The host with a journal beside its users' state. -/
def annotated (h : Host C σ) (notes : List (PluginNote C)) : Host C (σ × List (PluginNote C)) :=
  h.mapUser fun x => (x, notes)

/-- What is noted while a plugin is installed. -/
def journal (h : Host C σ) (p : Plugin C σ) : List (PluginNote C) :=
  ((h.annotated []).install p.noting).2.user.2

theorem install_eq_of_hasPlugin {h : Host C σ} {p : Plugin C σ}
    (hp : h.database.hasPlugin p.name = true) :
    h.install p = (.error (.pluginRegistered p.name), h) := by
  rw [install, setUp, if_pos hp, setUp]

theorem install_eq_of_not_hasPlugin {h : Host C σ} {p : Plugin C σ}
    (hp : h.database.hasPlugin p.name ≠ true) :
    h.install p = (h.setUp p.setup).2.enter p.name (h.setUp p.setup).1 := by
  rw [install, setUp, if_neg hp]
  rfl

/-- A setup installs a plugin as anyone else does. -/
theorem setUp_install (h : Host C σ) (name : String) (setup : Setup C σ)
    (next : Outcome → Setup C σ) : h.setUp (.install name setup next) =
      (h.install ⟨name, setup⟩).2.setUp (next (h.install ⟨name, setup⟩).1) := by
  by_cases hp : h.database.hasPlugin name = true
  · rw [install_eq_of_hasPlugin hp, setUp, if_pos hp]
  · rw [install_eq_of_not_hasPlugin hp, setUp, if_neg hp]

theorem enter_ok_of_hasPlugin {h : Host C σ} {name : String}
    (hp : h.database.hasPlugin name = true) :
    h.enter name (.ok ()) = (.error (.pluginRegistered name), h) := if_pos hp

theorem enter_ok_of_not_hasPlugin {h : Host C σ} {name : String}
    (hp : h.database.hasPlugin name ≠ true) : h.enter name (.ok ()) =
      (.ok (), { h with
        database := { h.database with plugins := h.database.plugins ++ [name] } }) := if_neg hp

theorem enter_annotated (name : String) (r : Outcome) (h : Host C σ)
    (notes : List (PluginNote C)) : (h.annotated notes).enter name r =
      ((h.enter name r).1, (h.enter name r).2.annotated notes) := by
  cases r with
  | error e => rfl
  | ok _ =>
    by_cases hp : h.database.hasPlugin name = true
    · have hp' : (h.annotated notes).database.hasPlugin name = true := hp
      rw [enter_ok_of_hasPlugin hp, enter_ok_of_hasPlugin hp']
    · have hp' : (h.annotated notes).database.hasPlugin name ≠ true := hp
      rw [enter_ok_of_not_hasPlugin hp, enter_ok_of_not_hasPlugin hp']
      rfl

/-- What the notes tell of the handle: its plugins have grown by those noted as installed, each
once, and its hooks by those noted as registered. -/
structure Grown (h : Host C σ) (notes : List (PluginNote C)) (k : Host C σ) : Prop where
  plugins : k.database.plugins = h.database.plugins ++ PluginNote.installed notes
  new : ∀ name ∈ PluginNote.installed notes, name ∉ h.database.plugins
  once : (PluginNote.installed notes).Nodup
  hooks : ∀ o, (h.database.pipelines o).Sublist (k.database.pipelines o)
  registered : ∀ o position name hook,
    .registered o position name hook (.ok ()) ∈ notes →
      Pipeline.newStep position name hook ∈ k.database.pipelines o

namespace Grown
variable {h k l : Host C σ} {ms ns : List (PluginNote C)}

theorem of_eq (hd : k.database = h.database) (hs : PluginNote.installed ns = [])
    (hr : ∀ o position name hook, .registered o position name hook (.ok ()) ∉ ns) :
    h.Grown ns k where
  plugins := by rw [hd, hs, List.append_nil]
  new := by simp [hs]
  once := hs ▸ List.nodup_nil
  hooks o := hd ▸ List.Sublist.refl _
  registered o position name hook hn := absurd hn (hr o position name hook)

theorem trans (hk : h.Grown ms k) (kl : k.Grown ns l) : h.Grown (ms ++ ns) l where
  plugins := by rw [kl.plugins, hk.plugins, PluginNote.installed_append, List.append_assoc]
  new name hn := by
    rw [PluginNote.installed_append, List.mem_append] at hn
    rcases hn with hn | hn
    · exact hk.new name hn
    · exact fun hm => kl.new name hn (hk.plugins ▸ List.mem_append_left _ hm)
  once := by
    rw [PluginNote.installed_append]
    refine hk.once.append kl.once fun name hm hn => ?_
    exact kl.new name hn (hk.plugins ▸ List.mem_append_right _ hm)
  hooks o := (hk.hooks o).trans (kl.hooks o)
  registered o position name hook hn := by
    rcases List.mem_append.mp hn with hn | hn
    · exact (kl.hooks o).subset (hk.registered o position name hook hn)
    · exact kl.registered o position name hook hn

/-- A moment at which nothing is installed or registered leaves the handle as it is. -/
theorem began (h : Host C σ) (name : String) : h.Grown [.began name] h :=
  of_eq rfl rfl (by simp)

theorem ended (h : Host C σ) (name : String) (r : Outcome) : h.Grown [.ended name r] h :=
  of_eq rfl rfl (by simp)

theorem refused (h : Host C σ) (name : String) (e : DatabaseError) :
    h.Grown [.answered name (.error e)] h :=
  of_eq rfl rfl (by simp)

theorem register (h : Host C σ) (o : Operation) (position : Position) (name : String)
    (hook : Hook C) :
    h.Grown [.registered o position name hook (h.database.register o position name hook).1]
      { h with database := (h.database.register o position name hook).2 } where
  plugins := (List.append_nil _).symm
  new := by simp
  once := by simp
  hooks := Pipelines.sublist_call_register h.database.pipelines o position name hook
  registered o' position' name' hook' hn := by
    obtain ⟨rfl, rfl, rfl, rfl, hr⟩ : o' = o ∧ position' = position ∧ name' = name ∧ hook' = hook ∧
        Except.ok () = (h.database.register o position name hook).1 := by simpa using hn
    obtain ⟨hname, p', hp⟩ := Pipelines.register_eq_ok hr.symm
    have hcall : (h.database.register o' position' name' hook').2.pipelines o' = p' :=
      Pipelines.call_register_of_insert hname hp
    rw [hcall]
    exact Pipeline.newStep_mem_insert hp

theorem enter (h : Host C σ) (name : String) (r : Outcome) :
    h.Grown [.answered name (h.enter name r).1] (h.enter name r).2 := by
  cases r with
  | error e => exact refused h name e
  | ok _ =>
    by_cases hp : h.database.hasPlugin name = true
    · rw [enter_ok_of_hasPlugin hp]
      exact refused h name _
    · rw [enter_ok_of_not_hasPlugin hp]
      have hnew : name ∉ h.database.plugins := by simpa [Database.hasPlugin] using hp
      exact ⟨rfl, by simpa using hnew, by simp, fun o => List.Sublist.refl _, by simp⟩

end Grown

/-- The course of installing a plugin, by what is noted on the way. -/
inductive Course (h : Host C σ) (p : Plugin C σ) : List (PluginNote C) → Prop
  /-- A name that is installed is refused, and nothing is set up. -/
  | refused (known : p.name ∈ h.database.plugins)
      (answer : h.install p = (.error (.pluginRegistered p.name), h)) : Course h p []
  /-- Otherwise the setup is run to its result. The plugin is installed if the setup succeeds and
  has not had the name installed; the answer takes its place behind what was noted inside. -/
  | tried {inside : List (PluginNote C)} (new : p.name ∉ h.database.plugins)
      (setup : h.Grown inside (h.setUp p.setup).2)
      (answer : (h.install p).1 = .ok () ↔
        (h.setUp p.setup).1 = .ok () ∧ p.name ∉ (h.setUp p.setup).2.database.plugins)
      (grown : h.Grown (inside ++ [.answered p.name (h.install p).1]) (h.install p).2) :
      Course h p (.began p.name :: inside ++ [.ended p.name (h.setUp p.setup).1])

theorem Course.grown {h : Host C σ} {p : Plugin C σ} {notes : List (PluginNote C)}
    (hc : h.Course p notes) :
    h.Grown (notes ++ [.answered p.name (h.install p).1]) (h.install p).2 := by
  cases hc with
  | refused known answer =>
    rw [answer]
    exact .refused h p.name _
  | @tried inside new setup answer grown =>
    have hp : h.database.hasPlugin p.name ≠ true := by simpa [Database.hasPlugin] using new
    have hended := setup.trans (.ended _ p.name (h.setUp p.setup).1)
    rw [install_eq_of_not_hasPlugin hp]
    exact ((Grown.began h p.name).trans hended).trans (.enter _ p.name _)

theorem enter_eq_ok_iff {h : Host C σ} {name : String} {r : Outcome} :
    (h.enter name r).1 = .ok () ↔ r = .ok () ∧ name ∉ h.database.plugins := by
  cases r with
  | error e => simp [enter]
  | ok _ =>
    by_cases hp : h.database.hasPlugin name = true
    · have hmem : name ∈ h.database.plugins := by simpa [Database.hasPlugin] using hp
      simp [enter_ok_of_hasPlugin hp, hmem]
    · have hnew : name ∉ h.database.plugins := by simpa [Database.hasPlugin] using hp
      simp [enter_ok_of_not_hasPlugin hp, hnew]

/-- With its moments noted, a setup comes to the same result and leaves the same handle. -/
def Noted (setup : Setup C σ) : Prop :=
  ∀ (owner : String) (h : Host C σ) (notes : List (PluginNote C)), ∃ inside,
    (h.annotated notes).setUp (setup.noting owner) = ((h.setUp setup).1,
      (h.setUp setup).2.annotated (notes ++ inside ++ [.ended owner (h.setUp setup).1])) ∧
    h.Grown inside (h.setUp setup).2

theorem Noted.install {p : Plugin C σ} (hp : Noted p.setup) (h : Host C σ)
    (notes : List (PluginNote C)) : ∃ inside,
      (h.annotated notes).install p.noting =
        ((h.install p).1, (h.install p).2.annotated (notes ++ inside)) ∧ h.Course p inside := by
  by_cases hknown : h.database.hasPlugin p.name = true
  · have hknown' : (h.annotated notes).database.hasPlugin p.noting.name = true := hknown
    rw [install_eq_of_hasPlugin hknown, install_eq_of_hasPlugin hknown']
    refine ⟨[], by rw [List.append_nil]; rfl, .refused ?_ (install_eq_of_hasPlugin hknown)⟩
    simpa [Database.hasPlugin] using hknown
  · have hnew : (h.annotated notes).database.hasPlugin p.noting.name ≠ true := hknown
    obtain ⟨inside, hrun, hgrown⟩ := hp p.name h (notes ++ [.began p.name])
    have hsetup : (h.annotated notes).setUp p.noting.setup =
        (h.annotated (notes ++ [.began p.name])).setUp (p.setup.noting p.name) := rfl
    have hcourse : h.Course p (.began p.name :: inside ++ [.ended p.name (h.setUp p.setup).1]) := by
      refine .tried ?_ hgrown ?_ ?_
      · simpa [Database.hasPlugin] using hknown
      · rw [install_eq_of_not_hasPlugin hknown, enter_eq_ok_iff]
      · rw [install_eq_of_not_hasPlugin hknown]
        exact hgrown.trans (.enter _ p.name _)
    refine ⟨_, ?_, hcourse⟩
    rw [install_eq_of_not_hasPlugin hknown, install_eq_of_not_hasPlugin hnew, hsetup, hrun,
      Plugin.noting, enter_annotated]
    simp only [List.append_assoc, List.cons_append, List.nil_append]

theorem noted_setup (setup : Setup C σ) : Noted setup := by
  induction setup with
  | done r => exact fun owner h notes => ⟨[], by rw [List.append_nil]; rfl, .of_eq rfl rfl (by simp)⟩
  | register o position name hook next ih =>
    intro owner h notes
    obtain ⟨inside, hrun, hgrown⟩ := ih (h.database.register o position name hook).1 owner
      { h with database := (h.database.register o position name hook).2 }
      (notes ++ [.registered o position name hook (h.database.register o position name hook).1])
    refine ⟨_ :: inside, ?_, (Grown.register h o position name hook).trans hgrown⟩
    rw [List.append_assoc notes] at hrun
    exact hrun
  | install name setup next ihSetup ihNext =>
    intro owner h notes
    obtain ⟨inside, hinstall, hcourse⟩ := Noted.install (p := ⟨name, setup⟩) ihSetup h notes
    obtain ⟨later, hrun, hgrown⟩ := ihNext (h.install ⟨name, setup⟩).1 owner
      (h.install ⟨name, setup⟩).2
      (notes ++ inside ++ [.answered name (h.install ⟨name, setup⟩).1])
    refine ⟨inside ++ [.answered name (h.install ⟨name, setup⟩).1] ++ later, ?_, ?_⟩
    · have hstep : (h.annotated notes).setUp ((Setup.install name setup next).noting owner) =
          ((h.annotated notes).install (Plugin.noting ⟨name, setup⟩)).2.setUp (.note
            (PluginNote.answered name
              ((h.annotated notes).install (Plugin.noting ⟨name, setup⟩)).1).toUser
            ((next ((h.annotated notes).install (Plugin.noting ⟨name, setup⟩)).1).noting owner)) :=
        setUp_install ..
      rw [hstep, hinstall, setUp_install h, ← List.append_assoc, ← List.append_assoc]
      exact hrun
    · rw [setUp_install]
      exact hcourse.grown.trans hgrown
  | consult next ih => exact fun owner h notes => ih h.database owner h notes
  | log e next ih =>
    intro owner h notes
    obtain ⟨inside, hrun, hgrown⟩ := ih owner (h.logged e) notes
    have hlogged : h.Grown [] (h.logged e) := .of_eq rfl rfl (by simp)
    exact ⟨inside, hrun, hlogged.trans hgrown⟩
  | note f next ih =>
    intro owner h notes
    obtain ⟨inside, hrun, hgrown⟩ := ih owner { h with user := f h.user } notes
    have hnoted : h.Grown [] { h with user := f h.user } := .of_eq rfl rfl (by simp)
    exact ⟨inside, hrun, hnoted.trans hgrown⟩

/-- The journal is that of the installation itself, and tells its course. -/
theorem install_course (h : Host C σ) (p : Plugin C σ) :
    (h.annotated []).install p.noting = ((h.install p).1, (h.install p).2.annotated (h.journal p)) ∧
      h.Course p (h.journal p) := by
  obtain ⟨notes, hrun, hcourse⟩ := (noted_setup p.setup).install h []
  have hjournal : h.journal p = notes := by
    rw [journal, hrun]
    rfl
  rw [hjournal]
  exact ⟨hrun, hcourse⟩

/-- A plugin that installs another one of its own name finds the name taken. -/
example : (Host.install (C := Nat) ⟨.create "db" .mysql, .initial, [], ()⟩
    ⟨"p", .install "p" (.done (.ok ())) .done⟩).1 = .error (.pluginRegistered "p") := rfl

end Host
end DatabaseTracing
