import LightClient.Json.Token

/-!
# Reading and writing JSON texts

The tokens of a text are read one by one with a stack of the arrays and objects that are still open.
`Json.parse?` refuses everything that is not one value with blanks around it. Nothing is said here
about repeated names or about depth; those are the reader's concern.
-/
namespace LightClient.Json

/-- An array or object that is still open; what it holds so far is kept in reverse. -/
inductive Frame where
  | array (items : List Json)
  /-- An object and the name whose value comes next. Without members it has an unreadable name. -/
  | object (members : Option (List (String × Json))) (name : Option String)

/-- What may come next; the open arrays and objects are listed from the innermost out. -/
inductive Reader where
  /-- A value, or the end of the array if nothing has been read of it. -/
  | awaitValue (outer : List Frame) (first : Bool)
  /-- A name, or the end of the object if nothing has been read of it. -/
  | awaitName (members : Option (List (String × Json))) (outer : List Frame) (first : Bool)
  /-- The colon after a name. -/
  | awaitColon (members : Option (List (String × Json))) (name : Option String) (outer : List Frame)
  /-- A comma or the end of the innermost array. -/
  | afterItem (items : List Json) (outer : List Frame)
  /-- A comma or the end of the innermost object. -/
  | afterMember (members : Option (List (String × Json))) (outer : List Frame)
  /-- Nothing: the whole value has been read. -/
  | done (value : Json)

namespace Reader

/-- The members with one more, unless a name among them is unreadable. -/
def addMember (members : Option (List (String × Json))) (name : Option String) (value : Json) :
    Option (List (String × Json)) :=
  members.bind fun members => name.map fun name => (name, value) :: members

/-- Gives a value to the innermost open frame. -/
def deliver (value : Json) : List Frame → Reader
  | [] => .done value
  | .array items :: outer => .afterItem (value :: items) outer
  | .object members name :: outer => .afterMember (addMember members name value) outer

/-- The array whose items are given in reverse. -/
def closeArray (items : List Json) : Json := .array items.reverse

/-- The object whose members are given in reverse. -/
def closeObject : Option (List (String × Json)) → Json
  | some members => .object members.reverse
  | none => .unreadable

/-- One token further. -/
def step? : Reader → Token → Option Reader
  | .awaitValue outer _, .literal value => some (deliver value outer)
  | .awaitValue outer _, .text (some text) => some (deliver (.string text) outer)
  | .awaitValue outer _, .text none => some (deliver .unreadable outer)
  | .awaitValue outer _, .openArray => some (.awaitValue (.array [] :: outer) true)
  | .awaitValue outer _, .openObject => some (.awaitName (some []) outer true)
  | .awaitValue (.array [] :: outer) true, .closeArray => some (deliver (closeArray []) outer)
  | .awaitName members outer _, .text name => some (.awaitColon members name outer)
  | .awaitName members outer true, .closeObject => some (deliver (closeObject members) outer)
  | .awaitColon members name outer, .colon =>
    some (.awaitValue (.object members name :: outer) false)
  | .afterItem items outer, .comma => some (.awaitValue (.array items :: outer) false)
  | .afterItem items outer, .closeArray => some (deliver (closeArray items) outer)
  | .afterMember members outer, .comma => some (.awaitName members outer false)
  | .afterMember members outer, .closeObject => some (deliver (closeObject members) outer)
  | _, _ => none

/-- Reads all tokens. -/
def run? : Reader → List Token → Option Reader
  | reader, [] => some reader
  | reader, token :: rest =>
    match reader.step? token with
    | some reader => run? reader rest
    | none => none

end Reader

/-- The value that the tokens spell, if they spell exactly one. -/
def ofTokens? (tokens : List Token) : Option Json :=
  match (Reader.awaitValue [] false).run? tokens with
  | some (.done value) => some value
  | _ => none

/-- Reads a JSON text. -/
def parse? (text : String) : Option Json := (Token.scan text.toList).bind ofTokens?

mutual

/-- The tokens of a value. -/
def tokens : Json → List Token
  | .string text => [.text (some text)]
  | .array items => .openArray :: itemTokens true items
  | .object members => .openObject :: memberTokens true members
  | value => [.literal value]

/-- The tokens of the remaining items of an array up to its end. -/
def itemTokens (first : Bool) : List Json → List Token
  | [] => [.closeArray]
  | item :: rest =>
    (if first then [] else [.comma]) ++ tokens item ++ itemTokens false rest

/-- The tokens of the remaining members of an object up to its end. -/
def memberTokens (first : Bool) : List (String × Json) → List Token
  | [] => [.closeObject]
  | (name, value) :: rest =>
    (if first then [] else [.comma]) ++ .text (some name) :: .colon :: tokens value
      ++ memberTokens false rest

end

/-- The JSON text of a value, without blanks. -/
def render (value : Json) : String := String.ofList (value.tokens.flatMap Token.render)

end LightClient.Json
