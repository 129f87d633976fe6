/-! # JSON values

Integers and floats are different values even when they are equal as numbers.
Object members keep the order they are given in.
-/
namespace DatabaseTracing

inductive Json where
  | null
  | bool (b : Bool)
  | integer (n : Int)
  | float (x : Float)
  | string (s : String)
  | array (items : List Json)
  | object (members : List (String × Json))
  deriving Inhabited, Repr

namespace Json

def get? (j : Json) (key : String) : Option Json :=
  match j with
  | object members => members.lookup key
  | _ => none

end Json
end DatabaseTracing
