import Concolic.Json.Value

/-!
# Reading values of other types

Structures are objects with named fields or arrays of their fields in order, where fields at the end
may be left out. Fields that are not asked for are passed over, whatever they hold, but a field that
is asked for must not be given twice. A choice between variants is the name of the variant, or an
object whose only member has that name and holds the variant's content.

How freely a variant may be written depends on where the value comes from. `Reading` records the two
points on which the sources differ.
-/

namespace Concolic.Json

/-- How freely variants may be written. -/
structure Reading where
  /-- The fields of a variant may be given as an array. -/
  fieldArrays : Bool
  /-- A variant without content may hold an empty object. -/
  emptyContent : Bool
  deriving DecidableEq, Repr

namespace Reading

/-- A value read directly from text. -/
def text : Reading where
  fieldArrays := true
  emptyContent := false

/-- A value taken from a tree that was built before. -/
def tree : Reading where
  fieldArrays := false
  emptyContent := false

/-- A value inside an element that was collected before its tag was known. -/
def collected : Reading where
  fieldArrays := true
  emptyContent := true

end Reading

def membersNamed (name : String) (members : List (String × Json)) : List Json :=
  members.filterMap fun (other, value) => if other = name then some value else none

/-- The value of a field, if there is one; a field given twice is no field at all. -/
def field? (members : List (String × Json)) (name : String) : Option (Option Json) :=
  match membersNamed name members with
  | [] => some none
  | [value] => some (some value)
  | _ => none

/-- The fields of a structure, each with its value if it is given. -/
def fields? (names : List String) : Json → Option (List (Option Json))
  | .object members => names.mapM (field? members)
  | .array items =>
      if items.length ≤ names.length then
        some (items.map some ++ List.replicate (names.length - items.length) none)
      else
        none
  | _ => none

/-- The name of a variant and its content, if it is written with one. -/
def variant? : Json → Option (String × Option Json)
  | .string name => some (name, none)
  | .object [(name, content)] => some (name, some content)
  | _ => none

/-- Whether a variant without content is written as such. -/
def isBare (reading : Reading) : Option Json → Bool
  | none | some .null => true
  | some (.object []) => reading.emptyContent
  | _ => false

/-- The fields of a variant. -/
def contentFields? (reading : Reading) (names : List String) : Json → Option (List (Option Json))
  | .object members => fields? names (.object members)
  | .array items => if reading.fieldArrays then fields? names (.array items) else none
  | _ => none

/-- An element whose variant is named by one of its own fields, or by its first item: the name and
the remaining fields. All of the element must be readable, since it is collected before the name is
looked at. -/
def tagged? (tag : String) : Json → Option (String × Json)
  | .object members =>
      match haveReadable members, membersNamed tag members with
      | true, [.string name] => some (name, .object (members.filter fun (other, _) => other ≠ tag))
      | _, _ => none
  | .array (.string name :: rest) => if areReadable rest then some (name, .array rest) else none
  | _ => none

def bool? : Json → Option Bool
  | .bool value => some value
  | _ => none

def string? : Json → Option String
  | .string text => some text
  | _ => none

def char? : Json → Option Char
  | .string text =>
      match text.toList with
      | [character] => some character
      | _ => none
  | _ => none

def integer? (low high : Int) : Json → Option Int
  | .number (.integer value) => if low ≤ value ∧ value ≤ high then some value else none
  | _ => none

def uint32? (value : Json) : Option UInt32 :=
  (integer? 0 4294967295 value).map fun value => .ofNat value.toNat

def uint64? (value : Json) : Option UInt64 :=
  (integer? 0 18446744073709551615 value).map fun value => .ofNat value.toNat

/-- A natural number below `2 ^ 64`. -/
def nat? (value : Json) : Option Nat :=
  (integer? 0 18446744073709551615 value).map Int.toNat

def int32? (value : Json) : Option Int32 :=
  (integer? (-2147483648) 2147483647 value).map .ofInt

def int64? (value : Json) : Option Int64 :=
  (integer? (-9223372036854775808) 9223372036854775807 value).map .ofInt

/-- A double; an integer stands for the nearest one. -/
def double? : Json → Option Float
  | .number (.real value) => some value
  | .number (.integer value) =>
      some (if value < 0 then -(UInt64.ofNat value.natAbs).toFloat
        else (UInt64.ofNat value.toNat).toFloat)
  | _ => none

def list? {α : Type} (item? : Json → Option α) : Json → Option (List α)
  | .array items => items.mapM item?
  | _ => none

/-- A value that may be null. -/
def nullable? {α : Type} (value? : Json → Option α) : Json → Option (Option α)
  | .null => some none
  | value => (value? value).map some

def required? {α : Type} (value? : Json → Option α) (field : Option Json) : Option α :=
  field.bind value?

def default? {α : Type} (fallback : α) (value? : Json → Option α) : Option Json → Option α
  | none => some fallback
  | some value => value? value

end Concolic.Json
