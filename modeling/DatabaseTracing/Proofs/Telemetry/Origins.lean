import DatabaseTracing.Proofs.Telemetry.Births

/-! # Where spans come from

A span has its context and its parent from its start on. No later call changes them,
and only a start makes identifiers. A span that is started under a context has the
active span of it as parent and belongs to the parent's trace; without a parent, it
begins a trace.
-/
namespace DatabaseTracing

/-- The identifier of the active span; none if there is no such span. -/
def Context.spanIdent (c : Context) : Ident := (c.active.map (·.context.span)).getD .zero

/-- What a span has from its start on: its context and its parent. -/
def SpanRecord.origin (r : SpanRecord) : SpanContext × Ident := (r.context, r.parent)

namespace Telemetry
variable {t t' : Telemetry}

/-- The origins of all spans, in the order in which they were started. -/
def origins (t : Telemetry) : List (SpanContext × Ident) := t.records.map SpanRecord.origin

/-- From one store to the other, no span is started and no identifier is made. -/
structure StartsNone (t t' : Telemetry) : Prop where
  origins : t'.origins = t.origins
  nextIdent : t'.nextIdent = t.nextIdent

theorem StartsNone.refl (t : Telemetry) : StartsNone t t := ⟨rfl, rfl⟩

theorem SameBirths.startsNone (h : SameBirths t t') : StartsNone t t' :=
  ⟨h.map_records fun b => (b.context, b.parent), h.nextIdent⟩

/-- A start under the context makes the active span `a` and records `new`. The identifiers that it
makes are from `lo` on and below `hi`. -/
structure Start (parent : Context) (lo : Nat) (a : ActiveSpan) (new : List (SpanContext × Ident))
    (hi : Nat) : Prop where
  le : lo ≤ hi
  recorded : new = [] ∨ new = [(a.context, parent.spanIdent)] ∧ a.context.sampled = true ∧
    ∃ n, a.context.span = .fresh n ∧ lo ≤ n ∧ n < hi
  child : ∀ b ∈ parent.active,
    a.context.trace = b.context.trace ∧ a.context.sampled = b.context.sampled
  /-- Without a parent, the span is recorded, unless the provider is the silent one. -/
  root : parent.active = none → (a.context, parent.spanIdent) ∈ new ∨ a.context = .zero

theorem start_spec (t : Telemetry) (p : Provider) (parent : Context) (name : String)
    (attributes : List Attribute) :
    ∃ a new, (t.start p parent name attributes).1 = ⟨some a⟩ ∧
      (t.start p parent name attributes).2.origins = t.origins ++ new ∧
        Start parent t.nextIdent a new (t.start p parent name attributes).2.nextIdent := by
  have hle : t.nextIdent ≤ t.nextIdent + 2 := Nat.le_add_right _ _
  have hfresh (i : Ident) (hi : i = .fresh (t.nextIdent + 1)) :
      ∃ n, i = .fresh n ∧ t.nextIdent ≤ n ∧ n < t.nextIdent + 2 :=
    ⟨_, hi, Nat.le_succ _, Nat.lt_succ_self _⟩
  rcases parent with ⟨_ | b⟩
  · cases p with
    | noop =>
      exact ⟨_, [], rfl, (List.append_nil _).symm, Nat.le_refl _, .inl rfl, nofun,
        fun _ => .inr rfl⟩
    | recording label =>
      exact ⟨_, _, rfl, List.map_append, hle, .inr ⟨rfl, rfl, hfresh _ rfl⟩, nofun,
        fun _ => .inl (List.mem_singleton_self _)⟩
  · have hchild {a : ActiveSpan} (ha : a.context.trace = b.context.trace ∧
        a.context.sampled = b.context.sampled) : ∀ c ∈ some b,
        a.context.trace = c.context.trace ∧ a.context.sampled = c.context.sampled := by
      rintro c ⟨⟩
      exact ha
    cases p with
    | noop =>
      exact ⟨_, [], rfl, (List.append_nil _).symm, Nat.le_refl _, .inl rfl, hchild ⟨rfl, rfl⟩, nofun⟩
    | recording label =>
      cases hs : b.context.sampled with
      | true =>
        simp only [start, Option.map_some, hs, if_true]
        exact ⟨_, _, rfl, List.map_append, hle, .inr ⟨rfl, rfl, hfresh _ rfl⟩, hchild ⟨rfl, hs.symm⟩,
          nofun⟩
      | false =>
        simp only [start, Option.map_some, hs, Bool.false_eq_true, if_false]
        exact ⟨_, [], rfl, (List.append_nil _).symm, hle, .inl rfl, hchild ⟨rfl, hs.symm⟩, nofun⟩

end Telemetry
end DatabaseTracing
