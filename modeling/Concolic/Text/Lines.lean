import Concolic.Text.Blank

/-!
# Lines of a text

A line ends at a newline, and one carriage return directly before that newline belongs to the
ending. Text after the last newline is a line of its own unless it is empty, and a carriage return
that ends such a line stays in it.
-/

namespace Concolic.Text

/-- A terminated line without the carriage return of its ending. -/
def dropReturn (line : List Char) : List Char :=
  if line.getLast? = some '\r' then line.dropLast else line

/-- Turns the pieces between newlines into lines: all but the last piece were terminated. -/
def closeLines : List (List Char) → List (List Char)
  | [] => []
  | [unterminated] => if unterminated.isEmpty then [] else [unterminated]
  | terminated :: rest => dropReturn terminated :: closeLines rest

/-- The lines of a text. -/
def lines (text : String) : List String :=
  (closeLines (splitWhere (· == '\n') text.toList)).map String.ofList

/-- The text that holds the given lines: a newline between any two and one at the end. -/
def unlines (lines : List String) : String :=
  String.intercalate "\n" lines ++ "\n"

end Concolic.Text
