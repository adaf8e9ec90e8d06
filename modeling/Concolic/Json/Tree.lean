import Concolic.Json.Parser

/-!
# Trees

A tree is a value whose objects are maps: of the members with one name only the last one counts, and
members are met in the order of their names. Values that are read more than once, or by more than
one reader, are turned into trees first.
-/

namespace Concolic.Json

/-- Puts a member before the later members that are kept, unless the next one has its name. -/
def keepLast (member : String × Json) : List (String × Json) → List (String × Json)
  | [] => [member]
  | next :: kept => if member.1 = next.1 then next :: kept else member :: next :: kept

/-- Members as a map: the last member of each name, in the order of names. -/
def lastMembers (members : List (String × Json)) : List (String × Json) :=
  (members.mergeSort fun first second => decide (first.1 ≤ second.1)).foldr keepLast []

mutual

def toTree : Json → Json
  | .array items => .array (toTrees items)
  | .object members => .object (lastMembers (toTreeMembers members))
  | value => value

def toTrees : List Json → List Json
  | [] => []
  | item :: rest => item.toTree :: toTrees rest

def toTreeMembers : List (String × Json) → List (String × Json)
  | [] => []
  | (name, value) :: rest => (name, value.toTree) :: toTreeMembers rest

end

/-- Parses a text to a tree. There is none if any part of the text stands for no value. -/
def parseTree? (text : String) : Option Json :=
  match parse? text with
  | some value => if value.isReadable then some value.toTree else none
  | none => none

def member? (name : String) : Json → Option Json
  | .object members => members.lookup name
  | _ => none

end Concolic.Json
