import Concolic.Decimal.Layout
import Concolic.SymText

/-!
# Inputs

The program under test asks for its inputs one by one, and an input file answers with one line for
each. A run records what it asked for and what it got. From these records and a solution the lines
of the next run are written: solved values where the solution has them, and the previous ones
elsewhere.
-/

namespace Concolic

/-- The value that an input had. -/
inductive InputValue where
  | int (value : Int32)
  | long (value : Int64)
  | float (value : Float)
  /-- A string, with the variable that holds its length. -/
  | text (text : String) (length : UInt32)

/-- One thing that a run asked of its input file. -/
inductive InputRecord where
  | scopeBegin
  | scopeEnd
  /-- An input and the variable that it was given. -/
  | value (symbol : UInt32) (value : InputValue)

/-- How scopes and unknown characters are written. -/
structure InputFormat where
  beginMarker : String := "["
  endMarker : String := "]"
  /-- The character at a position that has neither a solved nor a previous one. -/
  filler : Char := 'a'
  deriving DecidableEq, Repr

/-- Float inputs are written without an exponent, in the fewest digits that read back, and a value
halfway between two candidates takes the greater one. -/
def floatLayout : Decimal.Layout where
  tie := .up
  plainExponents := none
  keepsPoint := false
  nan := "NaN"
  infinite := "inf"

namespace InputValue

/-- The character at one position of a string: the solved one, else the previous one, else the
filler. -/
def solvedChar (assignment : Assignment) (format : InputFormat) (symbol : UInt32)
    (previous : List Char) (index : Nat) : Char :=
  let solved := (assignment.char? symbol (.ofNat index)).bind scalar?
  (solved.orElse fun _ => previous[index]?).getD format.filler

/-- The length of a string: the solved one, where a negative length counts as zero, else the
previous one. -/
def solvedLength (assignment : Assignment) (length : UInt32) (previous : List Char) : Nat :=
  match assignment.int? length with
  | some solved => solved.toInt.toNat
  | none => previous.length

def solvedText (assignment : Assignment) (format : InputFormat) (symbol length : UInt32)
    (previous : List Char) : List Char :=
  (List.range (solvedLength assignment length previous)).map
    (solvedChar assignment format symbol previous)

/-- The line of an input whose own variable is not solved. -/
def line (value : InputValue) (assignment : Assignment) (format : InputFormat) (symbol : UInt32) :
    String :=
  match value with
  | .int value => Numeral.text value.toInt
  | .long value => Numeral.text value.toInt
  | .float value => floatLayout.text value
  | .text previous length =>
      String.ofList (solvedText assignment format symbol length previous.toList)

end InputValue

namespace InputRecord

def line (record : InputRecord) (assignment : Assignment) (format : InputFormat) : String :=
  match record with
  | .scopeBegin => format.beginMarker
  | .scopeEnd => format.endMarker
  | .value symbol given =>
      match assignment.int? symbol with
      | some solved => Numeral.text solved.toInt
      | none => given.line assignment format symbol

def lines (records : List InputRecord) (assignment : Assignment) (format : InputFormat) :
    List String :=
  records.map fun record => record.line assignment format

/-- The variable of an `int` input. -/
def narrow? : InputRecord → Option UInt32
  | .value symbol (.int _) => some symbol
  | _ => none

end InputRecord

end Concolic
