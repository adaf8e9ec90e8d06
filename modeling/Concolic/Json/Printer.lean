import Concolic.Decimal.Layout
import Concolic.Json.Value
import Concolic.Text.Numeral

/-!
# Printing JSON

Values are printed on one line or spread over lines with an indentation of two blanks, where an
empty array or object stays on one line. Strings escape quotes, backslashes and control characters
below `U+0020`, and nothing else.
-/

namespace Concolic.Json

/-- Doubles are written without an exponent from `1e-5` to below `1e16`, always with a point then,
and a value halfway between two shortest candidates takes the even digit. -/
def doubleLayout : Decimal.Layout where
  tie := .toEven
  plainExponents := some (-5, 15)
  keepsPoint := true
  nan := "null"
  infinite := "null"

def hexChar (value : Nat) : Char :=
  Nat.digitChar value

/-- A character inside a string. -/
def escapeChar (character : Char) : List Char :=
  match character with
  | '"' => ['\\', '"']
  | '\\' => ['\\', '\\']
  | '\x08' => ['\\', 'b']
  | '\x0c' => ['\\', 'f']
  | '\n' => ['\\', 'n']
  | '\r' => ['\\', 'r']
  | '\t' => ['\\', 't']
  | other =>
      if other.toNat < 32 then
        ['\\', 'u', '0', '0', hexChar (other.toNat / 16), hexChar (other.toNat % 16)]
      else
        [other]

/-- A string with its quotes. -/
def quote (text : String) : String :=
  String.ofList ('"' :: (text.toList.flatMap escapeChar ++ ['"']))

/-- A number; what is no number has no form of its own. -/
def Number.text : Number → String
  | .integer value => Concolic.Numeral.text value
  | .real value =>
      match Decimal.Parts.ofFloat value with
      | .finite .. => doubleLayout.text value
      | _ => "null"

mutual

/-- A value on one line. -/
def compact : Json → String
  | .null | .unreadable => "null"
  | .bool value => if value then "true" else "false"
  | .number value => value.text
  | .string text => quote text
  | .array items => "[" ++ String.intercalate "," (compactItems items) ++ "]"
  | .object members => "\x7b" ++ String.intercalate "," (compactMembers members) ++ "\x7d"

def compactItems : List Json → List String
  | [] => []
  | item :: rest => item.compact :: compactItems rest

def compactMembers : List (String × Json) → List String
  | [] => []
  | (name, value) :: rest => (quote name ++ ":" ++ value.compact) :: compactMembers rest

end

/-- The start of a line at the given depth. -/
def newline (depth : Nat) : String :=
  "\n" ++ String.ofList (List.replicate (2 * depth) ' ')

/-- Parts of a value at the given depth, one below the other between brackets. -/
def block (depth : Nat) (opening closing : String) (parts : List String) : String :=
  opening ++ newline (depth + 1) ++ String.intercalate ("," ++ newline (depth + 1)) parts
    ++ newline depth ++ closing

mutual

/-- A value spread over lines, at the given depth. -/
def indented (depth : Nat) : Json → String
  | .null | .unreadable => "null"
  | .bool value => if value then "true" else "false"
  | .number value => value.text
  | .string text => quote text
  | .array [] => "[]"
  | .array (item :: rest) => block depth "[" "]" (indentedItems (depth + 1) (item :: rest))
  | .object [] => "\x7b\x7d"
  | .object (member :: rest) =>
      block depth "\x7b" "\x7d" (indentedMembers (depth + 1) (member :: rest))

def indentedItems (depth : Nat) : List Json → List String
  | [] => []
  | item :: rest => item.indented depth :: indentedItems depth rest

def indentedMembers (depth : Nat) : List (String × Json) → List String
  | [] => []
  | (name, value) :: rest =>
      (quote name ++ ": " ++ value.indented depth) :: indentedMembers depth rest

end

/-- A value spread over lines. -/
def pretty (value : Json) : String :=
  value.indented 0

end Concolic.Json
