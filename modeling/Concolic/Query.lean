import Concolic.Formula

/-!
# Queries

To turn a recorded path aside at one of its conditions, the solver is asked for values that keep all
earlier conditions true and make that one false. A query collects these formulas, with what is
already known substituted, and adds the bounds that let a solved value be read back: `int` inputs
stay within 32 bits, and characters are printable, since an input line cannot hold a newline.
-/

namespace Concolic

/-- A question to the solver. -/
structure Query where
  layer : Layer
  /-- The inputs that are bounded to 32 bits where they occur. -/
  narrow : List UInt32
  /-- What holds before the turn. -/
  assertions : List Formula
  /-- A further assertion, given as text. -/
  extra : Option String
  /-- The condition that turns the path aside. -/
  goal : Formula
  /-- Every formula was true after substitution, so that there is nothing to ask. -/
  isTrivial : Bool

namespace Query

/-- The least and the greatest code of a solved character. -/
def characterRange : Int × Int := (32, 126)

/-- The query that turns a path aside at one of its conditions; none if it has no such condition. -/
def build? (path : List PathCondition) (target : Nat) (lexicon : Lexicon) (narrow : List UInt32)
    (layer : Layer) (assignment : Assignment) (extra : Option String) : Option Query :=
  path[target]?.map fun last =>
    let before := (path.take target).map fun condition => condition.substitute assignment lexicon
    let turned := PathCondition.substitute last.negate assignment lexicon
    { layer, narrow, extra
      assertions := before.map fun (condition : PathCondition) =>
        condition.lower layer assignment lexicon
      goal := turned.lower layer assignment lexicon
      isTrivial := before.all Condition.isTruth && turned.isTruth }

/-- The variables that the query declares: those of its formulas. -/
def declared (query : Query) : VarSet :=
  .ofList (query.assertions.flatMap (Condition.vars Empty.elim)
    ++ query.goal.vars Empty.elim)

/-- The declared inputs that are bounded to 32 bits. -/
def boundedInts (query : Query) : List Variable :=
  query.declared.keys.filter fun
    | .int id => query.narrow.contains id
    | .char _ _ => false

/-- The declared characters, which the character layer bounds to the printable ones. -/
def boundedChars (query : Query) : List Variable :=
  match query.layer with
  | .integers => []
  | .characters => query.declared.keys.filter Variable.isChar

def intBound (key : Variable) : String :=
  "ASSERT (" ++ key.name ++ " >= (" ++ Numeral.text Numeral.int32Range.1 ++ ")) AND (" ++ key.name
    ++ " <= " ++ Numeral.text Numeral.int32Range.2 ++ ");\n"

def charBound (key : Variable) : String :=
  "ASSERT (" ++ key.name ++ " >= " ++ Numeral.text characterRange.1 ++ ") AND (" ++ key.name
    ++ " <= " ++ Numeral.text characterRange.2 ++ ");\n"

def assertion (statement : String) : String :=
  "ASSERT " ++ statement ++ ";\n"

/-- The query in the solver's presentation language. -/
def text (query : Query) : String :=
  declarations query.declared
    ++ String.join (query.boundedInts.map intBound)
    ++ String.join (query.boundedChars.map charBound)
    ++ String.join (query.assertions.map fun formula => assertion formula.text)
    ++ (query.extra.map assertion).getD ""
    ++ "CHECKSAT " ++ query.goal.text ++ ";\n"
    ++ "COUNTERMODEL;\n"

/-- Whether a path ends, at the target, in a test that it already holds with the same outcome. Then
no solver has to be asked: the turn would contradict the earlier occurrence. -/
def repeatsTest (path : List PathCondition) (target : Nat) : Bool :=
  match path[target]? with
  | some last => last.isTest && (path.take target).any fun earlier => earlier = last
  | none => false

end Query

end Concolic
