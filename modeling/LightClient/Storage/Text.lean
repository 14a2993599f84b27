import LightClient.Json.Record
import LightClient.Json.Text

/-!
# Stored texts

A record is stored as the JSON text of its stored form.
-/
namespace LightClient.Storage

/-- The record that a JSON text holds. -/
def read? {α : Type} [Json.Codec α] (text : String) : Option α :=
  (Json.parse? text).bind Json.decode?

/-- The JSON text of a record. -/
def write {α : Type} [Json.Codec α] (a : α) : String := (Json.encode a).render

end LightClient.Storage
