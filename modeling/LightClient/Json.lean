import LightClient.Binary64

/-!
# JSON values

A `Json` is what a JSON text says: members of an object keep their order and their repetitions. A
number without fraction and exponent that lies in the range of the 64-bit integers is an integer;
any other is a binary floating-point number.
-/
namespace LightClient

/-- A JSON value as written. -/
inductive Json where
  | null
  | bool (value : Bool)
  | integer (value : Int)
  | decimal (value : Binary64)
  | string (text : String)
  | array (items : List Json)
  | object (members : List (String × Json))
  /-- A literal of correct form that denotes nothing: a number beyond all floating-point numbers, a
  text with half of a surrogate pair, or an object with such a text as a name. -/
  | unreadable
  deriving Repr

namespace Json

/-- The member of an object with the given name; of several the last one. -/
def get? (name : String) : Json → Option Json
  | .object members => members.reverse.lookup name
  | _ => none

end Json

end LightClient
