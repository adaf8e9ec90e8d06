import Concolic.Json.Token

/-!
# Parsing JSON

The parser reads tokens from left to right and keeps the arrays and objects that are still open on
a stack of frames. It is a pair of functions, both recursive on the remaining tokens: one expects a
value, the other holds a value and looks for what comes after it.

The stack's height is the nesting depth. A value nested deeper than `depthLimit` is checked for its
form like any other but becomes unreadable, and so does an object with an unreadable name.
-/

namespace Concolic.Json

/-- The greatest number of arrays and objects inside one another that can be read. -/
def depthLimit : Nat := 127

/-- An array or object that is still open. -/
inductive Frame where
  /-- An array with its items so far, latest first. -/
  | array (items : List Json)
  /-- An object with its members so far, latest first, and the name of the next one. -/
  | object (members : List (Option String × Json)) (name : Option String)

/-- An array or object at its place in the stack. -/
def settle (frames : List Frame) (value : Json) : Json :=
  if frames.length < depthLimit then value else .unreadable

/-- An object that closes. -/
def closeObject (members : List (Option String × Json)) : Json :=
  match members.reverse.mapM fun (name, value) => name.map fun name => (name, value) with
  | some members => .object members
  | none => .unreadable

mutual

/-- Reads a value and all that follows it. -/
def parseValue : List Token → List Frame → Option Json
  | .openArray :: .closeArray :: rest, frames => afterValue (settle frames (.array [])) rest frames
  | .openArray :: rest, frames => parseValue rest (.array [] :: frames)
  | .openObject :: .closeObject :: rest, frames =>
      afterValue (settle frames (.object [])) rest frames
  | .openObject :: .string name :: .colon :: rest, frames =>
      parseValue rest (.object [] name :: frames)
  | .null :: rest, frames => afterValue .null rest frames
  | .bool value :: rest, frames => afterValue (.bool value) rest frames
  | .number value :: rest, frames =>
      afterValue ((value.map .number).getD .unreadable) rest frames
  | .string text :: rest, frames => afterValue ((text.map .string).getD .unreadable) rest frames
  | _, _ => none

/-- Reads what follows a value. -/
def afterValue (value : Json) : List Token → List Frame → Option Json
  | [], [] => some value
  | .comma :: rest, .array items :: frames => parseValue rest (.array (value :: items) :: frames)
  | .closeArray :: rest, .array items :: frames =>
      afterValue (settle frames (.array (value :: items).reverse)) rest frames
  | .comma :: .string next :: .colon :: rest, .object members name :: frames =>
      parseValue rest (.object ((name, value) :: members) next :: frames)
  | .closeObject :: rest, .object members name :: frames =>
      afterValue (settle frames (closeObject ((name, value) :: members))) rest frames
  | _, _ => none

end

/-- Parses a text that holds one value. -/
def parse? (text : String) : Option Json :=
  (tokens? text.toList).bind fun tokens => parseValue tokens []

end Concolic.Json
