/-! # Errors of database access

One error value serves opening a handle, installing plugins and running
statements. Every case owns its text, so an outcome can be handed to any number
of waiting callers.
-/
namespace DatabaseTracing

inductive DatabaseError where
  /-- One or more hook registrations failed; the entries are joined by `;`. -/
  | registration (details : String)
  | pluginRegistered (name : String)
  | initialization (reason : String)
  /-- The operation succeeded but matched no record. -/
  | recordNotFound
  | query (reason : String)
  | config (reason : String)
  deriving DecidableEq, Repr, Inhabited

namespace DatabaseError

def label : DatabaseError → String
  | registration _ => "Registration"
  | pluginRegistered _ => "PluginRegistered"
  | initialization _ => "Initialization"
  | recordNotFound => "RecordNotFound"
  | query _ => "Query"
  | config _ => "Config"

def message : DatabaseError → String
  | registration details => details
  | pluginRegistered name => "Plugin already registered: " ++ name
  | initialization reason => "Initialization failed: " ++ reason
  | recordNotFound => "record not found"
  | query reason => "Query execution failed: " ++ reason
  | config reason => "Configuration error: " ++ reason

/-- An empty result is told apart from a failure by this case alone. -/
def isNotFound : DatabaseError → Bool
  | recordNotFound => true
  | _ => false

theorem isNotFound_iff {e : DatabaseError} : e.isNotFound = true ↔ e = recordNotFound := by
  cases e <;> simp [isNotFound]

end DatabaseError

abbrev Outcome := Except DatabaseError Unit

end DatabaseTracing
