import DatabaseTracing.Options
import Mathlib.Data.List.Nodup

/-! # The fields that changes write

A change writes one field of the options. Changes that write different fields can change
places.
-/
namespace DatabaseTracing

/-- Entries for different operations can be set in any order. -/
theorem OperationNames.insert_comm {op op' : Operation} (h : op ≠ op') (names : OperationNames)
    (name name' : String) :
    (names.insert op name).insert op' name' = (names.insert op' name').insert op name := by
  funext op''
  simp only [insert]
  by_cases hc : op'' = op
  · subst hc
    simp [h]
  · simp [hc]

namespace Options

inductive Field where
  | logResult
  | tracer
  | logSqlParameters
  | spanName (o : Operation)
  | errorTag
  deriving DecidableEq

def Change.field : Change → Field
  | .logResult _ => .logResult
  | .tracer _ => .tracer
  | .logSqlParameters _ => .logSqlParameters
  | .spanName o _ => .spanName o
  | .errorTag _ => .errorTag

variable {c d : Change} {cs ds : List Change}

theorem apply_comm (h : c.field ≠ d.field) (o : Options) :
    (o.apply c).apply d = (o.apply d).apply c := by
  rcases c with _ | ⟨_ | _⟩ | _ | ⟨op, name⟩ | _ <;>
  rcases d with _ | ⟨_ | _⟩ | _ | ⟨op', name'⟩ | _ <;> try rfl
  all_goals try exact absurd rfl h
  have hop : op ≠ op' := fun he => h (congrArg Field.spanName he)
  simp only [apply, OperationNames.insert_comm hop]

theorem ofChanges_perm (h : cs.Perm ds) (hcs : (cs.map Change.field).Nodup) :
    ofChanges cs = ofChanges ds := by
  refine h.foldl_eq' (fun c hc d hd o => ?_) default
  by_cases he : c.field = d.field
  · rw [List.inj_on_of_nodup_map hcs hc hd he]
  · exact apply_comm he o

end Options
end DatabaseTracing
