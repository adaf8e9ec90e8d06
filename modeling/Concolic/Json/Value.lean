/-!
# JSON values

Traces, saved paths, settings and reports are exchanged as JSON. Members of an object are kept in
the order of the text, repeats included, because the readers of structures have to notice a field
that is given twice.

Some text is well formed and yet stands for no value: a string with half of a surrogate pair, a
number beyond the greatest double, anything nested too deeply. Such text may be skipped but not
read, and is kept as `unreadable`.
-/

namespace Concolic

/-- A number as JSON text gives it. -/
inductive Json.Number where
  /-- A number written as an integer that fits into 64 bits, with or without sign. -/
  | integer (value : Int)
  /-- Any other number. -/
  | real (value : Float)

inductive Json where
  | null
  | bool (value : Bool)
  | number (value : Json.Number)
  | string (text : String)
  | array (items : List Json)
  | object (members : List (String × Json))
  /-- Well-formed text that stands for no value. -/
  | unreadable

namespace Json

instance : Inhabited Json where
  default := .null

def int (value : Int) : Json :=
  .number (.integer value)

def nat (value : Nat) : Json :=
  .int value

def strings (texts : List String) : Json :=
  .array (texts.map .string)

/-- A value that may be absent. -/
def optional {α : Type} (encode : α → Json) : Option α → Json
  | some value => encode value
  | none => .null

mutual

/-- Whether every part of a value can be read. -/
def isReadable : Json → Bool
  | .array items => areReadable items
  | .object members => haveReadable members
  | .unreadable => false
  | _ => true

def areReadable : List Json → Bool
  | [] => true
  | item :: rest => item.isReadable && areReadable rest

def haveReadable : List (String × Json) → Bool
  | [] => true
  | (_, value) :: rest => value.isReadable && haveReadable rest

end

end Json

end Concolic
