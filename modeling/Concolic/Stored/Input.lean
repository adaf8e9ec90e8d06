import Concolic.Input
import Concolic.Json.Decode

/-!
# Stored form of inputs
-/

namespace Concolic

open Json (Reading)

namespace InputValue

/-- The stored form of an input value, with a float in the form given by the first argument. -/
def toJson (ofFloat : Float → Json) : InputValue → Json
  | .int value => .object [("int", .int value.toInt)]
  | .long value => .object [("long", .int value.toInt)]
  | .float value => .object [("float", ofFloat value)]
  | .text value length =>
      .object [("str", .object [("text", .string value), ("length", .nat length.toNat)])]

def ofJson? (reading : Reading) (value : Json) : Option InputValue := do
  match ← Json.variant? value with
  | ("int", some content) => return .int (← Json.int32? content)
  | ("long", some content) => return .long (← Json.int64? content)
  | ("float", some content) => return .float (← Json.double? content)
  | ("str", some content) =>
      match ← Json.contentFields? reading ["text", "length"] content with
      | [value, length] =>
          return .text (← Json.required? Json.string? value) (← Json.required? Json.uint32? length)
      | _ => none
  | _ => none

end InputValue

namespace InputRecord

def toJson (ofFloat : Float → Json) : InputRecord → Json
  | .scopeBegin => .string "scope_begin"
  | .scopeEnd => .string "scope_end"
  | .value symbol given =>
      .object [("value",
        .object [("symbol", .nat symbol.toNat), ("value", given.toJson ofFloat)])]

def ofJson? (reading : Reading) (value : Json) : Option InputRecord := do
  let (name, content) ← Json.variant? value
  match name with
  | "scope_begin" => if Json.isBare reading content then some .scopeBegin else none
  | "scope_end" => if Json.isBare reading content then some .scopeEnd else none
  | "value" =>
      match ← Json.contentFields? reading ["symbol", "value"] (← content) with
      | [symbol, given] =>
          return .value (← Json.required? Json.uint32? symbol)
            (← Json.required? (InputValue.ofJson? reading) given)
      | _ => none
  | _ => none

end InputRecord

namespace InputFormat

/-- The fields of an input format. -/
def fieldNames : List String :=
  ["scope_begin_marker", "scope_end_marker", "default_char"]

def fieldsToJson (format : InputFormat) : List (String × Json) :=
  [("scope_begin_marker", .string format.beginMarker),
    ("scope_end_marker", .string format.endMarker),
    ("default_char", .string (String.singleton format.filler))]

def toJson (format : InputFormat) : Json :=
  .object format.fieldsToJson

/-- A format from its fields; those left out have their defaults. -/
def ofFields? : List (Option Json) → Option InputFormat
  | [beginMarker, endMarker, filler] => do
      let default : InputFormat := {}
      return { beginMarker := ← Json.default? default.beginMarker Json.string? beginMarker
               endMarker := ← Json.default? default.endMarker Json.string? endMarker
               filler := ← Json.default? default.filler Json.char? filler }
  | _ => none

def ofJson? (value : Json) : Option InputFormat :=
  (Json.fields? fieldNames value).bind ofFields?

end InputFormat

end Concolic
