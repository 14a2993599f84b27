import LightClient.Json

/-!
# Records in JSON

A record is stored as an object of its fields and may also be given as the array of their values in
the order of declaration. As an object it may leave out optional fields and carry others besides,
but none of its own twice. As an array it has every field; only a field with a default may be cut
off.
-/
namespace LightClient.Json

/-- A type with a stored form. -/
class Codec (α : Type) where
  encode : α → Json
  decode? : Json → Option α

export Codec (encode decode?)

/-- The fields of a record that are present. -/
structure Record where
  fields : List (String × Json)
  /-- Whether they were given as an array. -/
  positional : Bool

namespace Record

/-- Reads the fields with the given names; members with other names do not count. -/
def read? (names : List String) : Json → Option Record
  | .object members =>
    let fields := members.filter fun m => names.contains m.1
    if (fields.map (·.1)).Nodup then some ⟨fields, false⟩ else none
  | .array items => if items.length ≤ names.length then some ⟨names.zip items, true⟩ else none
  | _ => none

/-- Reads the fields with the given names and refuses members with other names. -/
def readClosed? (names : List String) : Json → Option Record
  | .object members =>
    if members.all fun m => names.contains m.1 then read? names (.object members) else none
  | value => read? names value

/-- A field that has to be present. -/
def required? {α : Type} [Codec α] (r : Record) (name : String) : Option α :=
  (r.fields.lookup name).bind decode?

/-- A field that may be null, and missing from an object. -/
def optional? {α : Type} [Codec α] (r : Record) (name : String) : Option (Option α) :=
  match r.fields.lookup name with
  | none => if r.positional then none else some none
  | some .null => some none
  | some value => (decode? value).map some

/-- A field that may be missing and then has a default. -/
def orDefault? {α : Type} [Codec α] (r : Record) (name : String) (default : α) : Option α :=
  match r.fields.lookup name with
  | none => some default
  | some value => decode? value

end Record

/-- The case of an enumeration that a value names: its name, or an object that binds it to null. -/
def caseName? : Json → Option String
  | .string name => some name
  | .object [(name, .null)] => some name
  | _ => none

/-- The stored form of a value that may be missing. -/
def encodeOption {α : Type} [Codec α] : Option α → Json
  | some a => encode a
  | none => .null

section Basic

instance : Codec Bool where
  encode := .bool
  decode?
    | .bool b => some b
    | _ => none

instance : Codec String where
  encode := .string
  decode?
    | .string text => some text
    | _ => none

/-- The integer that a value is, if it lies between two bounds. -/
def integerIn? (low high : Int) : Json → Option Int
  | .integer n => if low ≤ n ∧ n ≤ high then some n else none
  | _ => none

instance : Codec UInt64 where
  encode n := .integer n.toNat
  decode? value := (integerIn? 0 (UInt64.size - 1) value).map fun n => UInt64.ofNat n.toNat

instance : Codec UInt32 where
  encode n := .integer n.toNat
  decode? value := (integerIn? 0 (UInt32.size - 1) value).map fun n => UInt32.ofNat n.toNat

instance : Codec Int64 where
  encode n := .integer n.toInt
  decode? value := (integerIn? Int64.minValue.toInt Int64.maxValue.toInt value).map Int64.ofInt

instance : Codec Int32 where
  encode n := .integer n.toInt
  decode? value := (integerIn? Int32.minValue.toInt Int32.maxValue.toInt value).map Int32.ofInt

instance {α : Type} [Codec α] : Codec (List α) where
  encode items := .array (items.map encode)
  decode?
    | .array items => items.mapM decode?
    | _ => none

end Basic

end LightClient.Json
