import DatabaseTracing.Json.Printer
import DatabaseTracing.Options

/-! # Settings documents

Settings are the part of the options that a document can carry. Span names are
keyed by text; keys that name no operation are refused only when the settings are
turned into options.
-/
namespace DatabaseTracing

structure NameTable where
  entries : List (String × String)
  ordered : entries.Pairwise fun a b => a.1 < b.1
  deriving DecidableEq

namespace NameTable

def empty : NameTable := ⟨[], .nil⟩

/-- Puts an entry in its place; a key that is there already gets the new name. -/
def put (key name : String) : List (String × String) → List (String × String)
  | [] => [(key, name)]
  | e :: rest =>
    if key < e.1 then (key, name) :: e :: rest
    else if key = e.1 then (key, name) :: rest
    else e :: put key name rest

theorem mem_put {key name : String} {es : List (String × String)} {x : String × String}
    (h : x ∈ put key name es) : x = (key, name) ∨ x ∈ es := by
  induction es with
  | nil => simpa [put] using h
  | cons e rest ih =>
    simp only [put] at h
    split at h
    · simpa using h
    · split at h
      · rcases List.mem_cons.1 h with h | h
        · exact .inl h
        · exact .inr (List.mem_cons_of_mem _ h)
      · rcases List.mem_cons.1 h with h | h
        · exact .inr (h ▸ List.mem_cons_self)
        · exact (ih h).imp_right (List.mem_cons_of_mem _)

theorem put_ordered {key name : String} {es : List (String × String)}
    (h : es.Pairwise fun a b => a.1 < b.1) : (put key name es).Pairwise fun a b => a.1 < b.1 := by
  induction es with
  | nil => simp [put]
  | cons e rest ih =>
    have ⟨he, hr⟩ := List.pairwise_cons.1 h
    simp only [put]
    split
    · next hlt =>
      refine List.pairwise_cons.2 ⟨fun x hx => ?_, h⟩
      rcases List.mem_cons.1 hx with rfl | hx
      · exact hlt
      · exact String.lt_trans hlt (he x hx)
    · next hlt =>
      split
      · next heq => exact List.pairwise_cons.2 ⟨fun x hx => heq ▸ he x hx, hr⟩
      · next hne =>
        refine List.pairwise_cons.2 ⟨fun x hx => ?_, ih hr⟩
        rcases mem_put hx with rfl | hx
        · exact String.not_le.1 fun hle => hne (String.le_antisymm hle (String.not_lt.1 hlt))
        · exact he x hx

def insert (t : NameTable) (key name : String) : NameTable :=
  ⟨put key name t.entries, put_ordered t.ordered⟩

end NameTable

structure Settings where
  logResult : Bool
  logSqlParameters : Bool
  operationNames : NameTable
  deriving DecidableEq

namespace Settings

def default : Settings := ⟨false, true, .empty⟩

def toJson (s : Settings) : Json :=
  .object [
    ("log_result", .bool s.logResult),
    ("log_sql_parameters", .bool s.logSqlParameters),
    ("operation_names", .object (s.operationNames.entries.map fun e => (e.1, .string e.2)))]

def nameSpans (o : Options) (entry : String × String) : Except DatabaseError Options :=
  match Operation.ofName? entry.1 with
  | some op => .ok { o with operationNames := o.operationNames.insert op entry.2 }
  | none => .error (.config ("Unknown operation: " ++ entry.1))

/-- The options that the settings stand for. Of several keys that name no operation the least is
reported. -/
def toOptions (s : Settings) : Except DatabaseError Options :=
  s.operationNames.entries.foldlM nameSpans
    { Options.default with logResult := s.logResult, logSqlParameters := s.logSqlParameters }

end Settings

def Options.ofSettings (s : Settings) : Except DatabaseError Options := s.toOptions

end DatabaseTracing
