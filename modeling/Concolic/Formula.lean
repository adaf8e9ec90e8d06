import Concolic.Condition
import Concolic.TextTest

/-!
# Formulas

A solver knows integers only, so tests on texts are lowered to formulas in one of two layers. The
integer layer keeps what a test says about lengths. The character layer, used once the lengths are
fixed, says it about the codes of the single characters. Lowering happens when a query is built and
never before, so a recorded path keeps its tests as the program made them.

Main definitions: `PathCondition.lower` replaces the tests, `Formula.text` prints the result.
-/

namespace Concolic

/-- A condition that a run of the program recorded. -/
abbrev PathCondition := Condition TextTest

/-- A condition that a solver can read. -/
abbrev Formula := Condition Empty

/-- The two ways of lowering a test. -/
inductive Layer where
  /-- Relations between lengths. -/
  | integers
  /-- Relations between characters, for given lengths. -/
  | characters
  deriving DecidableEq, Repr

namespace Formula

def substitute (formula : Formula) (assignment : Assignment) : Formula :=
  formula.resolve assignment Empty.elim

def freeVars (formula : Formula) : VarSet :=
  .ofList (formula.vars Empty.elim)

def cellsEqual : Cell → Cell → Formula
  | .known first, .known second => .ofBool (first = second)
  | first, second => .linear (first.toLinear.minus second.toLinear) .eq

/-- The cells of the pattern equal those at the start of the subject, one by one. -/
def aligned (subject pattern : List Cell) : Formula :=
  .conjunction (List.zipWith cellsEqual subject pattern)

mutual

/-- The formula in the solver's presentation language. -/
def text : Formula → String
  | .linear sum relation => sum.text ++ " " ++ relation.sign ++ " 0"
  | .compare left right relation =>
      "(" ++ left.text ++ ")-(" ++ right.text ++ ") " ++ relation.sign ++ " 0"
  | .anyOf [] => " TRUE "
  | .allOf [] => " FALSE "
  | .anyOf (member :: rest) => String.intercalate " OR " (textEach (member :: rest))
  | .allOf (member :: rest) => String.intercalate " AND " (textEach (member :: rest))
  | .test _ impossible => impossible.elim
  | .truth => " TRUE "
  | .falsity => " FALSE "

/-- The members, each in parentheses. -/
def textEach : List Formula → List String
  | [] => []
  | member :: rest => ("(" ++ text member ++ ")") :: textEach rest

end

end Formula

namespace TextTest

/-- What the test says about the lengths of its two sides. A test that must fail says nothing. -/
def lengthFormula (test : TextTest) (expected : Bool) (lexicon : Lexicon) : Formula :=
  if expected then
    let slack := (test.subject.length lexicon).minus (test.pattern.toText.length lexicon)
    match test.kind with
    | .equals => .linear slack .eq
    | .startsWith offset =>
        if offset < 0 then .falsity else .linear (slack.plusConstant (-offset)) .ge
    | .endsWith | .contains => .linear slack .ge
    | .regex => .truth
  else
    .truth

/-- What a test says about the characters of two texts whose lengths are known. -/
def cellFormula (subject pattern : List Cell) : TestKind → Formula
  | .equals => if subject.length = pattern.length then Formula.aligned subject pattern else .falsity
  | .startsWith offset =>
      if 0 ≤ offset.toInt ∧ offset.toInt.toNat + pattern.length ≤ subject.length then
        Formula.aligned (subject.drop offset.toInt.toNat) pattern
      else
        .falsity
  | .endsWith =>
      if pattern.length ≤ subject.length then
        Formula.aligned (subject.drop (subject.length - pattern.length)) pattern
      else
        .falsity
  | .contains =>
      if pattern.length ≤ subject.length then
        .disjunction ((List.range (subject.length - pattern.length + 1)).map fun start =>
          Formula.aligned (subject.drop start) pattern)
      else
        .falsity
  | .regex => .truth

/-- What the test says about single characters once the lengths are bound. As long as a length is
open, and for a regular expression, it says nothing. -/
def characterFormula (test : TextTest) (expected : Bool) (assignment : Assignment)
    (lexicon : Lexicon) : Formula :=
  if test.kind = .regex then .truth
  else
    match test.subject.cells? assignment lexicon, test.pattern.toText.cells? assignment lexicon with
    | some subject, some pattern =>
        let formula := cellFormula subject pattern test.kind
        if expected then formula else formula.negate
    | _, _ => .truth

def lower (test : TextTest) (expected : Bool) (layer : Layer) (assignment : Assignment)
    (lexicon : Lexicon) : Formula :=
  match layer with
  | .integers => test.lengthFormula expected lexicon
  | .characters => test.characterFormula expected assignment lexicon

end TextTest

namespace PathCondition

/-- Replaces bound variables and folds what becomes determined. -/
def substitute (condition : PathCondition) (assignment : Assignment) (lexicon : Lexicon) :
    PathCondition :=
  condition.resolve assignment fun test => test.outcome? assignment lexicon

/-- The integer variables that occur; a test counts with its length variables. -/
def freeVars (condition : PathCondition) : VarSet :=
  .ofList (condition.vars TextTest.lengthVars)

def literals (condition : PathCondition) : List LiteralId :=
  condition.tests.flatMap TextTest.literals

/-- Changes the numbers of the literal texts in the order in which they are read. -/
def renumber {m : Type → Type} [Monad m] (change : LiteralId → m LiteralId)
    (condition : PathCondition) : m PathCondition :=
  condition.traverseTests (TextTest.renumber change)

def mapLiterals (change : LiteralId → LiteralId) (condition : PathCondition) : PathCondition :=
  Id.run (condition.renumber fun id => pure (change id))

/-- The formula of the condition in the given layer. -/
def lower (condition : PathCondition) (layer : Layer) (assignment : Assignment)
    (lexicon : Lexicon) : Formula :=
  condition.bindTests fun expected test => test.lower expected layer assignment lexicon

end PathCondition

/-- Declarations of the given variables, one on a line. -/
def declarations (vars : VarSet) : String :=
  String.join (vars.keys.map fun key => key.name ++ " : INT;\n")

end Concolic
