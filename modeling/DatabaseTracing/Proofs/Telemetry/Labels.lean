import DatabaseTracing.Proofs.Telemetry.Accounts
import DatabaseTracing.Proofs.Telemetry.Births

/-! # Spans stay with their providers

A recorded span has the label of its provider, and its name, from its start on. Nothing
that a holder may do to a span changes them.
-/
namespace DatabaseTracing

/-- The provider of a span and its name. -/
def SpanRecord.label (r : SpanRecord) : String × String := (r.provider, r.name)

namespace Telemetry

/-- The labels of all spans, in the order in which they were started. -/
def labels (t : Telemetry) : List (String × String) := t.records.map SpanRecord.label

theorem SameBirths.labels {t u : Telemetry} (h : SameBirths t u) : u.labels = t.labels :=
  h.map_records fun b => (b.provider, b.name)

theorem labels_start (t : Telemetry) (p : Provider) (parent : Context) (name : String)
    (attributes : List Attribute) :
    t.labels <+: (t.start p parent name attributes).2.labels := by
  obtain ⟨n, ⟨-, ht⟩ | ⟨r, -, -, -, ht⟩⟩ := t.start_cases p parent name attributes
  · rw [ht]
    exact List.prefix_refl _
  · rw [ht, labels, labels, List.map_append]
    exact List.prefix_append _ _

end Telemetry

namespace Account

theorem labels_apply (x : Account) (c : SpanCall) :
    x.telemetry.labels <+: (c.apply x).telemetry.labels := by
  cases c with
  | start p parent name attributes => exact x.telemetry.labels_start p parent name attributes
  | edit cx e => exact (x.telemetry.edit_sameBirths cx e).labels ▸ List.prefix_refl _
  | retain cx => exact (x.telemetry.retain_sameBirths cx).labels ▸ List.prefix_refl _
  | release cx => exact (x.telemetry.release_sameBirths cx).labels ▸ List.prefix_refl _
  | setGlobal p => exact List.prefix_refl _

theorem labels_calls (x : Account) (cs : List SpanCall) :
    x.telemetry.labels <+: (x.calls cs).telemetry.labels := by
  induction cs generalizing x with
  | nil => exact List.prefix_refl _
  | cons c cs ih => exact (labels_apply x c).trans (ih (c.apply x))

theorem Reaches.labels {x y : Account} (h : Reaches x y) :
    x.telemetry.labels <+: y.telemetry.labels := by
  obtain ⟨cs, -, rfl⟩ := h
  exact labels_calls x cs

end Account
end DatabaseTracing
