import Concolic.Formula
import Concolic.Json.Decode

/-!
# Stored form of conditions

Variables are stored under their names, maps as objects from names to numbers, and the variants of
terms, segments, tests and conditions under the names given here. Reading a map lets a later entry
of the same variable replace an earlier one, so `x1` and `x01` are one key.
-/

namespace Concolic

open Json (Reading)

namespace Variable

def toJson (var : Variable) : Json :=
  .string var.name

def ofJson? : Json → Option Variable
  | .string name => ofName? name
  | _ => none

end Variable

namespace VarMap

/-- A map to numbers as an object. -/
def toJson (map : VarMap Int64) : Json :=
  .object (map.entries.map fun entry => (entry.1.name, .int entry.2.toInt))

def entryOfJson? (member : String × Json) : Option (Variable × Int64) := do
  return (← Variable.ofName? member.1, ← Json.int64? member.2)

def ofJson? : Json → Option (VarMap Int64)
  | .object members => (members.mapM entryOfJson?).map VarMap.ofList
  | _ => none

end VarMap

namespace Relation

/-- The stored name of a relation. -/
def label : Relation → String
  | .eq => "eq"
  | .ne => "ne"
  | .le => "le"
  | .lt => "lt"
  | .ge => "ge"
  | .gt => "gt"

def ofLabel? : String → Option Relation
  | "eq" => some .eq
  | "ne" => some .ne
  | "le" => some .le
  | "lt" => some .lt
  | "ge" => some .ge
  | "gt" => some .gt
  | _ => none

def toJson (relation : Relation) : Json :=
  .string relation.label

def ofJson? (reading : Reading) (value : Json) : Option Relation := do
  let (label, content) ← Json.variant? value
  guard (Json.isBare reading content)
  ofLabel? label

end Relation

namespace Linear

def toJson (sum : Linear) : Json :=
  .object [("coefficients", sum.coefficients.toJson), ("constant", .int sum.constant.toInt)]

def ofJson? (value : Json) : Option Linear := do
  match ← Json.fields? ["coefficients", "constant"] value with
  | [coefficients, constant] =>
      return { coefficients := ← Json.required? VarMap.ofJson? coefficients
               constant := ← Json.required? Json.int64? constant }
  | _ => none

end Linear

namespace Arith

def toJson : Arith → Json
  | .const value => .object [("const", .int value.toInt)]
  | .var key => .object [("var", key.toJson)]
  | .add left right => .object [("add", .array [left.toJson, right.toJson])]
  | .sub left right => .object [("sub", .array [left.toJson, right.toJson])]
  | .mul left right => .object [("mul", .array [left.toJson, right.toJson])]

def ofJson? : Json → Option Arith
  | .object [("const", value)] => (Json.int64? value).map .const
  | .object [("var", value)] => (Variable.ofJson? value).map .var
  | .object [("add", .array [left, right])] => do return .add (← ofJson? left) (← ofJson? right)
  | .object [("sub", .array [left, right])] => do return .sub (← ofJson? left) (← ofJson? right)
  | .object [("mul", .array [left, right])] => do return .mul (← ofJson? left) (← ofJson? right)
  | _ => none

end Arith

namespace LiteralId

def toJson (id : LiteralId) : Json :=
  .nat id.val.toNat

def ofJson? (value : Json) : Option LiteralId :=
  (Json.uint32? value).map .mk

end LiteralId

namespace Segment

def toJson : Segment → Json
  | .input symbol length =>
      .object [("symbolic",
        .object [("symbol", .nat symbol.toNat), ("length", .nat length.toNat)])]
  | .literal id => .object [("literal", .object [("id", id.toJson)])]

def ofJson? (reading : Reading) (value : Json) : Option Segment := do
  match ← Json.variant? value with
  | ("symbolic", some content) =>
      match ← Json.contentFields? reading ["symbol", "length"] content with
      | [symbol, length] =>
          return .input (← Json.required? Json.uint32? symbol) (← Json.required? Json.uint32? length)
      | _ => none
  | ("literal", some content) =>
      match ← Json.contentFields? reading ["id"] content with
      | [id] => return .literal (← Json.required? LiteralId.ofJson? id)
      | _ => none
  | _ => none

end Segment

namespace SymText

def toJson (text : SymText) : Json :=
  .object [("parts", .array (text.segments.map Segment.toJson))]

def ofJson? (reading : Reading) (value : Json) : Option SymText := do
  match ← Json.fields? ["parts"] value with
  | [parts] => return ⟨← Json.required? (Json.list? (Segment.ofJson? reading)) parts⟩
  | _ => none

end SymText

namespace Pattern

def toJson : Pattern → Json
  | .literal id => .object [("literal", id.toJson)]
  | .symbolic text => .object [("symbolic", text.toJson)]

def ofJson? (reading : Reading) (value : Json) : Option Pattern := do
  match ← Json.variant? value with
  | ("literal", some content) => return .literal (← LiteralId.ofJson? content)
  | ("symbolic", some content) => return .symbolic (← SymText.ofJson? reading content)
  | _ => none

end Pattern

namespace TestKind

def toJson : TestKind → Json
  | .equals => .string "equals"
  | .startsWith offset => .object [("starts_with", .object [("offset", .int offset.toInt)])]
  | .endsWith => .string "ends_with"
  | .contains => .string "contains"
  | .regex => .string "matches"

def ofJson? (reading : Reading) (value : Json) : Option TestKind := do
  let (name, content) ← Json.variant? value
  match name with
  | "starts_with" =>
      match ← Json.contentFields? reading ["offset"] (← content) with
      | [offset] => return .startsWith (← Json.required? Json.int64? offset)
      | _ => none
  | "equals" => if Json.isBare reading content then some .equals else none
  | "ends_with" => if Json.isBare reading content then some .endsWith else none
  | "contains" => if Json.isBare reading content then some .contains else none
  | "matches" => if Json.isBare reading content then some .regex else none
  | _ => none

end TestKind

namespace TextTest

def toJson (test : TextTest) : Json :=
  .object [("op", test.kind.toJson), ("subject", test.subject.toJson),
    ("pattern", test.pattern.toJson)]

def ofJson? (reading : Reading) (value : Json) : Option TextTest := do
  match ← Json.fields? ["op", "subject", "pattern"] value with
  | [kind, subject, pattern] =>
      return { kind := ← Json.required? (TestKind.ofJson? reading) kind
               subject := ← Json.required? (SymText.ofJson? reading) subject
               pattern := ← Json.required? (Pattern.ofJson? reading) pattern }
  | _ => none

end TextTest

namespace Condition

variable {Test : Type}

mutual

/-- The stored form of a condition, given that of its tests. -/
def toJsonWith (ofTest : Test → Json) : Condition Test → Json
  | .linear sum relation =>
      .object [("linear", .object [("expr", sum.toJson), ("op", relation.toJson)])]
  | .compare left right relation =>
      .object [("compare", .object [("left", left.toJson), ("right", right.toJson),
        ("op", relation.toJson)])]
  | .anyOf members => .object [("or", .array (toJsonEach ofTest members))]
  | .allOf members => .object [("and", .array (toJsonEach ofTest members))]
  | .test true question => .object [("string", ofTest question)]
  | .test false question => .object [("not", ofTest question)]
  | .truth => .string "true"
  | .falsity => .string "false"

def toJsonEach (ofTest : Test → Json) : List (Condition Test) → List Json
  | [] => []
  | member :: rest => member.toJsonWith ofTest :: toJsonEach ofTest rest

end

end Condition

namespace Formula

def toJson (formula : Formula) : Json :=
  formula.toJsonWith Empty.elim

end Formula

namespace PathCondition

def toJson (condition : PathCondition) : Json :=
  condition.toJsonWith TextTest.toJson

def linearOfJson? (reading : Reading) (content : Json) : Option PathCondition := do
  match ← Json.fields? ["expr", "op"] content with
  | [sum, relation] =>
      return .linear (← Json.required? Linear.ofJson? sum)
        (← Json.required? (Relation.ofJson? reading) relation)
  | _ => none

def compareOfJson? (reading : Reading) (content : Json) : Option PathCondition := do
  match ← Json.fields? ["left", "right", "op"] content with
  | [left, right, relation] =>
      return .compare (← Json.required? Arith.ofJson? left) (← Json.required? Arith.ofJson? right)
        (← Json.required? (Relation.ofJson? reading) relation)
  | _ => none

def constantOfJson? (reading : Reading) (value : Json) : Option PathCondition := do
  let (name, content) ← Json.variant? value
  guard (Json.isBare reading content)
  match name with
  | "true" => some .truth
  | "false" => some .falsity
  | _ => none

mutual

def ofJson? (reading : Reading) : Json → Option PathCondition
  | .object [("linear", content)] => linearOfJson? reading content
  | .object [("compare", content)] => compareOfJson? reading content
  | .object [("or", .array members)] => (eachOfJson? reading members).map .anyOf
  | .object [("and", .array members)] => (eachOfJson? reading members).map .allOf
  | .object [("string", content)] => (TextTest.ofJson? reading content).map (.test true)
  | .object [("not", content)] => (TextTest.ofJson? reading content).map (.test false)
  | value => constantOfJson? reading value

def eachOfJson? (reading : Reading) : List Json → Option (List PathCondition)
  | [] => some []
  | member :: rest => do return (← ofJson? reading member) :: (← eachOfJson? reading rest)

end

end PathCondition

end Concolic
