import Concolic.Lexicon
import Concolic.Linear

/-!
# Symbolic texts

A symbolic text is a concatenation of string inputs and literal texts. A string input is known by
two variables, one that names its characters and one that holds its length. Once an assignment
fixes the lengths, the text is a sequence of cells, each a known character code or a variable.
-/

namespace Concolic

/-- One part of a symbolic text. -/
inductive Segment where
  | input (symbol length : UInt32)
  | literal (id : LiteralId)
  deriving DecidableEq, Repr

/-- A concatenation of string inputs and literal texts. -/
structure SymText where
  segments : List Segment
  deriving DecidableEq, Repr

/-- One character position of a text under an assignment. -/
inductive Cell where
  | known (code : Int64)
  | unknown (key : Variable)
  deriving DecidableEq, Repr

namespace Cell

def toLinear : Cell → Linear
  | .known code => .ofConstant code
  | .unknown key => .ofVar key

/-- The cell of a variable under an assignment. -/
def ofVar (assignment : Assignment) (key : Variable) : Cell :=
  match assignment.get? key with
  | some code => .known code
  | none => .unknown key

end Cell

/-- The character with the given code, if the code is a Unicode scalar value. -/
def scalar? (code : Int64) : Option Char :=
  if 0 ≤ code.toInt ∧ code.toInt.toNat.isValidChar then some (Char.ofNat code.toInt.toNat)
  else none

/-- The code of a character. -/
def codeOf (character : Char) : Int64 :=
  Int64.ofNat character.toNat

/-- The number of cells of a string input whose length has the given value: a negative length
counts as zero, and only the low 32 bits of a length count. -/
def cellCount (length : Int64) : Nat :=
  length.toInt.toNat % 4294967296

namespace Segment

/-- The part's share of the length of a text. -/
def addLength (lexicon : Lexicon) (sum : Linear) : Segment → Linear
  | .input _ length => sum.plus (.ofVar (.int length))
  | .literal id => sum.plusConstant (Int64.ofNat (lexicon.text id).length)

def lengthVar? : Segment → Option Variable
  | .input _ length => some (.int length)
  | .literal _ => none

def isInput : Segment → Bool
  | .input _ _ => true
  | .literal _ => false

/-- The cells of the part, once its length is bound. -/
def cells? (assignment : Assignment) (lexicon : Lexicon) : Segment → Option (List Cell)
  | .input symbol length =>
      (assignment.int? length).map fun value =>
        (List.range (cellCount value)).map fun index =>
          Cell.ofVar assignment (.char symbol (.ofNat index))
  | .literal id => some ((lexicon.text id).toList.map fun character => .known (codeOf character))

def literals : Segment → List LiteralId
  | .input _ _ => []
  | .literal id => [id]

def renumber {m : Type → Type} [Monad m] (change : LiteralId → m LiteralId) : Segment → m Segment
  | .input symbol length => return .input symbol length
  | .literal id => return .literal (← change id)

end Segment

namespace SymText

def input (symbol length : UInt32) : SymText where
  segments := [.input symbol length]

def literal (id : LiteralId) : SymText where
  segments := [.literal id]

def append (first second : SymText) : SymText where
  segments := first.segments ++ second.segments

/-- The length of the text as a linear sum over the length variables. -/
def length (text : SymText) (lexicon : Lexicon) : Linear :=
  text.segments.foldl (Segment.addLength lexicon) (.ofConstant 0)

/-- The length variables, in the order of the parts, repeats kept. -/
def lengthVars (text : SymText) : List Variable :=
  text.segments.filterMap Segment.lengthVar?

def hasInput (text : SymText) : Bool :=
  text.segments.any Segment.isInput

/-- The cells of the text, once every length is bound. -/
def cells? (text : SymText) (assignment : Assignment) (lexicon : Lexicon) : Option (List Cell) :=
  (text.segments.mapM (Segment.cells? assignment lexicon)).map List.flatten

/-- The character at a cell, if it is known and its code is a Unicode scalar value. -/
def cellChar? : Cell → Option Char
  | .known code => scalar? code
  | .unknown _ => none

/-- The characters of the text, once every length and every character is bound. -/
def concrete? (text : SymText) (assignment : Assignment) (lexicon : Lexicon) :
    Option (List Char) :=
  (text.cells? assignment lexicon).bind fun cells => cells.mapM cellChar?

def literals (text : SymText) : List LiteralId :=
  text.segments.flatMap Segment.literals

/-- Changes the numbers of the literal texts, one after another. -/
def renumber {m : Type → Type} [Monad m] (change : LiteralId → m LiteralId) (text : SymText) :
    m SymText :=
  return { segments := ← text.segments.mapM (Segment.renumber change) }

end SymText

end Concolic
