import Concolic.Decimal.Reading
import Concolic.Input
import Concolic.Path
import Concolic.Text.Blank

/-!
# Recording a run

While the program under test runs, it asks for inputs and reports its branches. A recording hands
out the values of the input lines, gives each input a variable, and builds the trail.

Variables are numbered from 1. A string takes two of them, one for its characters and the next one
for its length, and is followed by two branches that guard its length from below and from above. A
guard that holds is never turned aside, but every later query asserts it.
-/

namespace Concolic

/-- A run that is being recorded. -/
structure Recording where
  trail : Trail
  records : List InputRecord := []
  /-- The input lines that are left. -/
  source : List String
  format : InputFormat
  nextVar : UInt32 := 1
  /-- The greatest length that a string may be given. -/
  maxLength : Int64
  /-- The literal texts, which grow with every string input. -/
  lexicon : Lexicon

/-- A string input as the program sees it. -/
structure TextInput where
  symbol : UInt32
  length : UInt32
  value : String
  /-- The number of the value among the literal texts. -/
  interned : LiteralId

namespace TextInput

def toText (input : TextInput) : SymText :=
  .input input.symbol input.length

end TextInput

namespace Recording

/-- A recording that reads the given lines and is expected to take the given steps. -/
def start (lines : List String) (expected : List PathStep) (format : InputFormat)
    (maxLength : Int64) (lexicon : Lexicon) : Recording where
  trail := .expecting expected
  source := lines
  format := format
  maxLength := maxLength
  lexicon := lexicon

def conditions (recording : Recording) : List PathCondition :=
  recording.trail.conditions

/-- Reads the next line as a value; a missing or garbled line gives the default. -/
def nextValue {α : Type} (recording : Recording) (read? : List Char → Option α) (fallback : α) : α :=
  (recording.source.head?.bind fun line => read? (Text.trim line.toList)).getD fallback

/-- Takes one line and one variable for an input. -/
def takeInput (recording : Recording) (value : InputValue) : Recording :=
  { recording with
    source := recording.source.tail
    nextVar := recording.nextVar + 1
    records := recording.records ++ [.value recording.nextVar value] }

/-- An input of 32 bits: its variable, its value and the recording after it. -/
def int (recording : Recording) : UInt32 × Int32 × Recording :=
  let value := recording.nextValue Numeral.int32? 0
  (recording.nextVar, value, recording.takeInput (.int value))

/-- An input of 64 bits. -/
def long (recording : Recording) : UInt32 × Int64 × Recording :=
  let value := recording.nextValue Numeral.int64? 0
  (recording.nextVar, value, recording.takeInput (.long value))

/-- A float input, which no condition ever constrains. -/
def float (recording : Recording) : Float × Recording :=
  let value := recording.nextValue Decimal.read? 0
  (value, recording.takeInput (.float value))

/-- Records the outcome of a branch. The condition is that of the branch; it is kept negated if the
branch was not taken. -/
def branch (recording : Recording) (outcome : Bool) (condition : Option PathCondition)
    (site : UInt32) : Recording :=
  let held := condition.map fun condition => if outcome then condition else condition.negate
  { recording with trail := recording.trail.recordBranch outcome held site }

def markDone (recording : Recording) : Recording :=
  { recording with trail := recording.trail.markDone }

def markForced (recording : Recording) : Recording :=
  { recording with trail := recording.trail.markForced }

/-- Records a guard of a string's length. -/
def guard (recording : Recording) (holds : Bool) (condition : PathCondition) : Recording :=
  let recorded := recording.branch holds (some condition) 0
  if holds then recorded.markDone else recorded

/-- The guard that a length is not negative. -/
def lowerGuard (length : UInt32) : PathCondition :=
  .linear (.ofVar (.int length)) .ge

/-- The guard that a length is at most the greatest one. -/
def upperGuard (length : UInt32) (maxLength : Int64) : PathCondition :=
  .linear ((Linear.ofVar (.int length)).plusConstant (-maxLength)) .le

/-- A string input: the next line as it stands, with the two guards of its length. -/
def text (recording : Recording) : TextInput × Recording :=
  let value := recording.source.head?.getD ""
  let symbol := recording.nextVar
  let length := recording.nextVar + 1
  let taken := recording.takeInput (.text value length)
  let size := Int64.ofNat value.length
  -- The guards are recorded before the value becomes a literal text, and neither mentions it.
  let guarded := ({ taken with nextVar := length + 1 }.guard (0 ≤ size) (lowerGuard length)).guard
    (size ≤ recording.maxLength) (upperGuard length recording.maxLength)
  let (interned, lexicon) := guarded.lexicon.intern value
  ({ symbol, length, value, interned }, { guarded with lexicon })

/-- Passes over the next line if it is the given marker. -/
def skipMarker (marker : String) (source : List String) : List String :=
  if source.head? = some marker then source.tail else source

def beginScope (recording : Recording) : Recording :=
  { recording with
    source := skipMarker recording.format.beginMarker recording.source
    records := recording.records ++ [.scopeBegin]
    trail := recording.trail.recordScope .opening }

def endScope (recording : Recording) : Recording :=
  { recording with
    source := skipMarker recording.format.endMarker recording.source
    records := recording.records ++ [.scopeEnd]
    trail := recording.trail.recordScope .closing }

end Recording

end Concolic
