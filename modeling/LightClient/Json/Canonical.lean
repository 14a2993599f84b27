import LightClient.Json
import LightClient.Keyed

/-!
# Canonical JSON values

A value that is kept or handed on as it is has a canonical form: the members of every object are in
ascending order of their names and of a repeated name the last one is left. A value that holds
something unreadable or too many arrays and objects within each other has none.
-/
namespace LightClient.Json

/-- How many arrays and objects may stand within each other in a text that is read as a whole. -/
def maxDepth : Nat := 127

mutual

/-- The canonical form of a value with at most `depth` arrays and objects within each other. -/
def canonical? (depth : Nat) : Json → Option Json
  | .unreadable => none
  | .array items =>
    match depth with
    | 0 => none
    | depth + 1 => (canonicalItems? depth items).map .array
  | .object members =>
    match depth with
    | 0 => none
    | depth + 1 => (canonicalMembers? depth members).map fun m => .object (Keyed.ofList m).toList
  | value => some value

/-- The canonical forms of all items. -/
def canonicalItems? (depth : Nat) : List Json → Option (List Json)
  | [] => some []
  | item :: rest => do
    let item ← canonical? depth item
    let rest ← canonicalItems? depth rest
    return item :: rest

/-- The canonical forms of all members, still in the order given. -/
def canonicalMembers? (depth : Nat) : List (String × Json) → Option (List (String × Json))
  | [] => some []
  | (name, value) :: rest => do
    let value ← canonical? depth value
    let rest ← canonicalMembers? depth rest
    return (name, value) :: rest

end

end LightClient.Json
