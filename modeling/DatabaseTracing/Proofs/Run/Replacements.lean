import DatabaseTracing.Proofs.Run.Ledgers

/-! # Replacements of the global provider

The same is done to statements on two handles, while the global providers of the handles
are replaced at different times. The spans that their own sources have started under
contexts that derive from no span of the global source are exported by both handles as
twins, in the same order.
-/
namespace DatabaseTracing
open Telemetry
variable {ι C σ : Type} {pairs : List (Context × Context)}

/-- A ledger for many statements. -/
structure Books (ι : Type) where
  own : List Context
  marks : ι → Marks

namespace Books

def blank : Books ι := ⟨[], fun _ => ⟨false, false⟩⟩

def ledger (b : Books ι) (i : ι) : Ledger := ⟨b.own, b.marks i⟩

/-- Whether a context derives from a span of the global source. -/
def derives (b : Books ι) : Lineage ι → Bool
  | .statement i => (b.marks i).span
  | _ => false

variable [DecidableEq ι]

def put (b : Books ι) (i : ι) (l : Ledger) : Books ι := ⟨l.own, Function.update b.marks i l.marks⟩

def afterDeed (plan : C → Host C σ → Statement → List Handling) (u : UserCode C σ)
    (x : Crowd ι C σ) (b : Books ι) : Deed ι C → Books ι
  | .setGlobal _ => b
  | .make i lineage _ _ => b.put i ⟨b.own, b.derives lineage, false⟩
  | .step i _ s => b.put i ((b.ledger i).afterStep plan (x.state i) s)
  | .run i o => b.put i
    (.afterSteps plan u o (x.host.database.pipelines o) (x.state i) (b.ledger i))

def afterDeeds (plan : C → Host C σ → Statement → List Handling) (u : UserCode C σ) :
    List (Deed ι C) → Crowd ι C σ → Books ι → Books ι
  | [], _, b => b
  | d :: ds, x, b => afterDeeds plan u ds (x.perform u d) (b.afterDeed plan u x d)

end Books

/-- What a new statement gets if there is no span to make it under. -/
theorem Telemetry.Tie.getD {t t' : Telemetry} {derived : Bool} {c c' : Option Context}
    (h : Tie pairs t t' derived c c') :
    Tie pairs t t' derived (some (c.getD .empty)) (some (c'.getD .empty)) := by
  have hforeign {own : List Context} {t : Telemetry} {c : Option Context}
      (hc : ∀ d ∈ c, Foreign own t d) : ∀ d ∈ some (c.getD .empty), Foreign own t d := by
    intro d hd
    obtain rfl := Option.some.inj hd
    cases c with
    | none => exact fun p hp => by cases hp
    | some d => exact hc d rfl
  refine ⟨fun hd => ?_, fun hd => (h.foreign hd).imp hforeign hforeign⟩
  rcases h.linked hd with hlink | _
  · exact .some hlink
  · exact .some (linked_empty pairs)

namespace Crowd
variable {u : UserCode C σ} {plan : C → Host C σ → Statement → List Handling} {R : σ → σ → Prop}
  {b b' : Books ι} {x x' : Crowd ι C σ} {d : Deed ι C} {ds ds' : List (Deed ι C)}

/-- The crowds differ in other spans than those of the pairs only, which are the spans in the
books. -/
structure Tied (R : σ → σ → Prop) (pairs : List (Context × Context)) (b b' : Books ι)
    (x x' : Crowd ι C σ) : Prop where
  left : pairs.map Prod.fst = b.own
  right : pairs.map Prod.snd = b'.own
  marks : b.marks = b'.marks
  hushed : x.Hushed R x'
  database : x.host.database = x'.host.database
  kin : Kin pairs x.host.telemetry x'.host.telemetry
  holdings : ∀ i, Holdings.Tied pairs (b.marks i) (x.host.holdings (x.statement i))
    (x'.host.holdings (x'.statement i))

theorem Tied.state (h : Tied R pairs b b' x x') (i : ι) :
    UserCode.Tied R pairs (b.ledger i) (b'.ledger i) (x.state i) (x'.state i) :=
  ⟨h.left, h.right, congrFun h.marks i, h.hushed.state i, h.database, h.holdings i⟩

theorem Tied.contextOf (h : Tied R pairs b b' x x') (lineage : Lineage ι) :
    Tie pairs x.host.telemetry x'.host.telemetry (b.derives lineage) (x.contextOf lineage)
      (x'.contextOf lineage) := by
  cases lineage with
  | nothing => exact tie_none ..
  | root => exact (linked_empty pairs).tie ..
  | remote trace span sampled => exact (linked_remote pairs trace span sampled).tie ..
  | statement i => exact (h.holdings i).span.getD

theorem tied_fresh (database : Database C) {a a' : σ} (ha : R a a') (p p' : Provider) :
    Tied R [] (Books.blank : Books ι) .blank (fresh database a p) (fresh database a' p') := by
  have hkin : Kin [] (Telemetry.initial.setGlobal p) (Telemetry.initial.setGlobal p') :=
    kin_nil nofun nofun
  exact ⟨rfl, rfl, rfl, ⟨⟨rfl, rfl, ha⟩, fun _ => .refl _⟩, rfl, hkin,
    fun _ => ⟨hkin, tie_none .., tie_none ..⟩⟩

/-- The spans in the books have been exported by both handles in the same order. Each of them is the
same on either handle but for the identifiers, which go by pairs. -/
def SameExports (b b' : Books ι) (x x' : Crowd ι C σ) : Prop :=
  ∃ pairs, pairs.map Prod.fst = b.own ∧ pairs.map Prod.snd = b'.own ∧
    List.Forall₂ (fun p q => Paired pairs p q ∧
        TwinsAt (SameIdent pairs) x.host.telemetry x'.host.telemetry p q)
      (x.host.telemetry.exportedOf b.own) (x'.host.telemetry.exportedOf b'.own)

theorem Tied.sameExports (h : Tied R pairs b b' x x') : SameExports b b' x x' :=
  ⟨pairs, h.left, h.right, by
    rw [← h.left, ← h.right]
    exact h.kin.exports.imp fun p q hpq => ⟨hpq, h.kin.twins p q hpq⟩⟩

variable [DecidableEq ι]

/-- Replacements of the global providers do not matter. -/
theorem Tied.setGlobal_left (h : Tied R pairs b b' x x') (p : Provider) :
    Tied R pairs b b' (x.perform u (.setGlobal p)) x' := by
  have hkin := h.kin.beside (setGlobal_beside _ _ p) (.refl _ _)
  exact { h with
    hushed := h.hushed.setGlobal_left p
    kin := hkin
    holdings := fun i =>
      (h.holdings i).elsewhere hkin (.same (Nat.le_refl _) (Nat.le_refl _)) }

theorem Tied.setGlobal_right (h : Tied R pairs b b' x x') (p : Provider) :
    Tied R pairs b b' x (x'.perform u (.setGlobal p)) := by
  have hkin := h.kin.beside (.refl _ _) (setGlobal_beside _ _ p)
  exact { h with
    hushed := h.hushed.setGlobal_right p
    kin := hkin
    holdings := fun i =>
      (h.holdings i).elsewhere hkin (.same (Nat.le_refl _) (Nat.le_refl _)) }

/-- One of the statements is worked on. -/
theorem Tied.put (h : Tied R pairs b b' x x') (i : ι) {l l' : Ledger}
    {y y' : Host C σ × Statement} (hy : UserCode.Leads R pairs (x.state i) (x'.state i) l l' y y') :
    ∃ pairs', Tied R pairs' (b.put i l) (b'.put i l') (x.put i y) (x'.put i y') := by
  obtain ⟨pairs', hy, hgrown⟩ := hy
  have hmarks : (b.put i l).marks = (b'.put i l').marks := by
    simp only [Books.put, h.marks, hy.marks]
  refine ⟨pairs', hy.left, hy.right, hmarks, h.hushed.put i hy.hushed, hy.database,
    hy.holdings.kin, fun j => ?_⟩
  by_cases hj : j = i
  · subst hj
    simp only [Books.put, Crowd.put, Function.update_self]
    exact hy.holdings
  · simp only [Books.put, Crowd.put, Function.update_of_ne hj]
    exact (h.holdings j).elsewhere hy.holdings.kin hgrown

/-- A new statement holds on to its context before the old one lets go of what it held. -/
theorem Tied.make (h : Tied R pairs b b' x x') (i : ι) (lineage : Lineage ι) (sql : String)
    (vars : List Json) :
    ∃ pairs', Tied R pairs' (b.put i ⟨b.own, b.derives lineage, false⟩)
      (b'.put i ⟨b'.own, b'.derives lineage, false⟩) (x.make i lineage sql vars)
      (x'.make i lineage sql vars) := by
  have hcontext := h.contextOf lineage
  have hmarks : b.derives lineage = b'.derives lineage := by
    cases lineage <;> simp only [Books.derives, h.marks]
  obtain ⟨hkin, hretain⟩ := h.kin.both retain_evenhanded hcontext
  obtain ⟨hdetached, hgrown⟩ := ((h.holdings i).elsewhere hkin hretain).apply .detach
  obtain ⟨hdropped, hlast⟩ := hdetached.apply .drop
  have hheld (t : Telemetry) (s : Statement) : t.releaseAll s.held =
      (t.releaseAll s.context.toList).releaseAll s.callState.span.toList :=
    List.foldl_append
  simp only [Crowd.make, hheld]
  have hgrown := (hretain.trans hgrown).trans hlast
  refine h.put i (.of_holdings ?_ h.database h.left h.right (congrArg (Marks.mk · false) hmarks)
    rfl rfl ⟨⟨hdropped.kin, hcontext.grown hgrown, tie_none ..⟩, hgrown⟩)
  exact ⟨⟨h.hushed.host.database, h.hushed.host.log, h.hushed.host.user⟩,
    ⟨isSome_contextOf x x' lineage, rfl, rfl, rfl, rfl, rfl, rfl⟩⟩

theorem Tied.perform (hu : u.Handles plan R) (h : Tied R pairs b b' x x') (d : Deed ι C) :
    ∃ pairs', Tied R pairs' (b.afterDeed plan u x d) (b'.afterDeed plan u x' d) (x.perform u d)
      (x'.perform u d) := by
  cases d with
  | setGlobal p => exact ⟨pairs, (h.setGlobal_left p).setGlobal_right p⟩
  | make i lineage sql vars => exact h.make i lineage sql vars
  | step i o s => exact h.put i ((h.state i).runStep hu o s)
  | run i o =>
    have hrun : (u.run o x'.host (x'.statement i)).2 =
        (x.host.database.pipelines o).foldl (u.runStep o) (x'.state i) := by
      rw [h.database]
      rfl
    rw [Books.afterDeed, Books.afterDeed, Crowd.perform, Crowd.perform, hrun, ← h.database]
    exact h.put i ((h.state i).runSteps hu o (x.host.database.pipelines o))

theorem Tied.performAll (hu : u.Handles plan R) (h : Tied R pairs b b' x x')
    (hds : Deed.Matched Eq ds ds') :
    ∃ pairs', Tied R pairs' (b.afterDeeds plan u ds x) (b'.afterDeeds plan u ds' x')
      (x.performAll u ds) (x'.performAll u ds') := by
  induction hds generalizing pairs b b' x x' with
  | nil => exact ⟨pairs, h⟩
  | left p _ ih => exact ih (h.setGlobal_left p)
  | right p _ ih => exact ih (h.setGlobal_right p)
  | @both d d' _ _ hd _ ih =>
    subst hd
    obtain ⟨pairs', hnext⟩ := h.perform hu d
    exact ih hnext

end Crowd
end DatabaseTracing
