import Concolic.Arith
import Concolic.Relation

/-!
# Conditions

A condition is what a branch of the program under test decided. Its leaves are comparisons with
zero and tests of some further kind; the type of those tests is a parameter. Path conditions have
tests on texts (`PathCondition`), while the formulas that a solver reads have none (`Formula`), so
the printer of formulas has no test to print.

A conjunction or disjunction without members is not the unit of its operator. It is a fixed mark of
its own: substitution leaves it alone, and a formula prints it as the *opposite* of that unit.
-/

namespace Concolic

/-- A Boolean combination of comparisons and tests. -/
inductive Condition (Test : Type) where
  /-- A linear sum compared with zero. -/
  | linear (sum : Linear) (relation : Relation)
  /-- The difference of two terms compared with zero. -/
  | compare (left right : Arith) (relation : Relation)
  /-- Some member holds. -/
  | anyOf (members : List (Condition Test))
  /-- Every member holds. -/
  | allOf (members : List (Condition Test))
  /-- A test comes out as given. -/
  | test (expected : Bool) (question : Test)
  | truth
  | falsity

namespace Condition

variable {Test Other : Type}

instance : Inhabited (Condition Test) where
  default := .truth

def ofBool : Bool → Condition Test
  | true => .truth
  | false => .falsity

def isTruth : Condition Test → Bool
  | .truth => true
  | _ => false

def isFalsity : Condition Test → Bool
  | .falsity => true
  | _ => false

def isTest : Condition Test → Bool
  | .test _ _ => true
  | _ => false

/-- The members that decide a conjunction, or `none` if one of them is `falsity`. -/
def keptAll : List (Condition Test) → Option (List (Condition Test))
  | [] => some []
  | .falsity :: _ => none
  | .truth :: rest => keptAll rest
  | member :: rest => (keptAll rest).map (member :: ·)

/-- The members that decide a disjunction, or `none` if one of them is `truth`. -/
def keptAny : List (Condition Test) → Option (List (Condition Test))
  | [] => some []
  | .truth :: _ => none
  | .falsity :: rest => keptAny rest
  | member :: rest => (keptAny rest).map (member :: ·)

/-- The conjunction of the members with constants folded away; without members it is `truth`. -/
def conjunction (members : List (Condition Test)) : Condition Test :=
  match keptAll members with
  | none => .falsity
  | some [] => .truth
  | some [member] => member
  | some kept => .allOf kept

/-- The disjunction of the members with constants folded away; without members it is `falsity`. -/
def disjunction (members : List (Condition Test)) : Condition Test :=
  match keptAny members with
  | none => .truth
  | some [] => .falsity
  | some [member] => member
  | some kept => .anyOf kept

mutual

/-- The condition that holds exactly when the given one does not. -/
def negate : Condition Test → Condition Test
  | .linear sum relation => .linear sum relation.negate
  | .compare left right relation => .compare left right relation.negate
  | .anyOf members => .allOf (negateEach members)
  | .allOf members => .anyOf (negateEach members)
  | .test expected question => .test (!expected) question
  | .truth => .falsity
  | .falsity => .truth

def negateEach : List (Condition Test) → List (Condition Test)
  | [] => []
  | member :: rest => member.negate :: negateEach rest

end

/-- A comparison of a linear sum after substitution, decided if no variable is left. -/
def decideLinear (sum : Linear) (relation : Relation) : Condition Test :=
  if sum.isConstant then ofBool (relation.holds sum.constant.toInt) else .linear sum relation

/-- A comparison of two terms after substitution, decided if both are constants. -/
def decideCompare (left right : Arith) (relation : Relation) : Condition Test :=
  match left, right with
  | .const first, .const second => ofBool (relation.holds (first - second).toInt)
  | left, right => .compare left right relation

/-- A test after substitution, decided if its outcome is known. -/
def decideTest (outcome : Test → Option Bool) (expected : Bool) (question : Test) :
    Condition Test :=
  match outcome question with
  | some actual => ofBool (actual == expected)
  | none => .test expected question

mutual

/-- Replaces bound variables by their values, decides the tests whose outcome is known, and folds
whatever that determines. -/
def resolve (assignment : Assignment) (outcome : Test → Option Bool) :
    Condition Test → Condition Test
  | .linear sum relation => decideLinear (sum.substitute assignment) relation
  | .compare left right relation =>
      decideCompare (left.substitute assignment) (right.substitute assignment) relation
  -- Without members, folding would turn the mark into the unit of its operator.
  | .anyOf [] => .anyOf []
  | .allOf [] => .allOf []
  | .anyOf (member :: rest) =>
      disjunction (member.resolve assignment outcome :: resolveEach assignment outcome rest)
  | .allOf (member :: rest) =>
      conjunction (member.resolve assignment outcome :: resolveEach assignment outcome rest)
  | .test expected question => decideTest outcome expected question
  | .truth => .truth
  | .falsity => .falsity

def resolveEach (assignment : Assignment) (outcome : Test → Option Bool) :
    List (Condition Test) → List (Condition Test)
  | [] => []
  | member :: rest => member.resolve assignment outcome :: resolveEach assignment outcome rest

end

mutual

/-- The variables of the condition in reading order, given those of a test. -/
def vars (ofTest : Test → List Variable) : Condition Test → List Variable
  | .linear sum _ => sum.vars
  | .compare left right _ => left.vars ++ right.vars
  | .anyOf members | .allOf members => varsEach ofTest members
  | .test _ question => ofTest question
  | .truth | .falsity => []

def varsEach (ofTest : Test → List Variable) : List (Condition Test) → List Variable
  | [] => []
  | member :: rest => member.vars ofTest ++ varsEach ofTest rest

end

mutual

/-- Replaces every test by a condition over other tests. -/
def bindTests (replace : Bool → Test → Condition Other) : Condition Test → Condition Other
  | .linear sum relation => .linear sum relation
  | .compare left right relation => .compare left right relation
  | .anyOf members => .anyOf (bindTestsEach replace members)
  | .allOf members => .allOf (bindTestsEach replace members)
  | .test expected question => replace expected question
  | .truth => .truth
  | .falsity => .falsity

def bindTestsEach (replace : Bool → Test → Condition Other) :
    List (Condition Test) → List (Condition Other)
  | [] => []
  | member :: rest => member.bindTests replace :: bindTestsEach replace rest

end

mutual

/-- The tests of the condition from left to right. -/
def tests : Condition Test → List Test
  | .anyOf members | .allOf members => testsEach members
  | .test _ question => [question]
  | _ => []

def testsEach : List (Condition Test) → List Test
  | [] => []
  | member :: rest => member.tests ++ testsEach rest

end

def mapTests (change : Test → Other) (condition : Condition Test) : Condition Other :=
  condition.bindTests fun expected question => .test expected (change question)

mutual

/-- Changes the tests one after another, from left to right. -/
def traverseTests {m : Type → Type} [Monad m] (change : Test → m Other) :
    Condition Test → m (Condition Other)
  | .linear sum relation => return .linear sum relation
  | .compare left right relation => return .compare left right relation
  | .anyOf members => return .anyOf (← traverseTestsEach change members)
  | .allOf members => return .allOf (← traverseTestsEach change members)
  | .test expected question => return .test expected (← change question)
  | .truth => return .truth
  | .falsity => return .falsity

def traverseTestsEach {m : Type → Type} [Monad m] (change : Test → m Other) :
    List (Condition Test) → m (List (Condition Other))
  | [] => return []
  | member :: rest => return (← member.traverseTests change) :: (← traverseTestsEach change rest)

end

mutual

def decideEq [DecidableEq Test] : (first second : Condition Test) → Decidable (first = second)
  | .linear sum relation, .linear sum' relation' =>
      decidable_of_iff (sum = sum' ∧ relation = relation') (by simp)
  | .compare left right relation, .compare left' right' relation' =>
      decidable_of_iff (left = left' ∧ right = right' ∧ relation = relation') (by simp)
  | .anyOf members, .anyOf members' =>
      have := decideEqEach members members'
      decidable_of_iff (members = members') (by simp)
  | .allOf members, .allOf members' =>
      have := decideEqEach members members'
      decidable_of_iff (members = members') (by simp)
  | .test expected question, .test expected' question' =>
      decidable_of_iff (expected = expected' ∧ question = question') (by simp)
  | .truth, .truth => isTrue rfl
  | .falsity, .falsity => isTrue rfl
  | .linear .., .compare .. | .linear .., .anyOf .. | .linear .., .allOf .. | .linear .., .test ..
  | .linear .., .truth | .linear .., .falsity
  | .compare .., .linear .. | .compare .., .anyOf .. | .compare .., .allOf ..
  | .compare .., .test .. | .compare .., .truth | .compare .., .falsity
  | .anyOf .., .linear .. | .anyOf .., .compare .. | .anyOf .., .allOf .. | .anyOf .., .test ..
  | .anyOf .., .truth | .anyOf .., .falsity
  | .allOf .., .linear .. | .allOf .., .compare .. | .allOf .., .anyOf .. | .allOf .., .test ..
  | .allOf .., .truth | .allOf .., .falsity
  | .test .., .linear .. | .test .., .compare .. | .test .., .anyOf .. | .test .., .allOf ..
  | .test .., .truth | .test .., .falsity
  | .truth, .linear .. | .truth, .compare .. | .truth, .anyOf .. | .truth, .allOf ..
  | .truth, .test .. | .truth, .falsity
  | .falsity, .linear .. | .falsity, .compare .. | .falsity, .anyOf .. | .falsity, .allOf ..
  | .falsity, .test .. | .falsity, .truth => isFalse (by simp)

def decideEqEach [DecidableEq Test] :
    (first second : List (Condition Test)) → Decidable (first = second)
  | [], [] => isTrue rfl
  | [], _ :: _ => isFalse (by simp)
  | _ :: _, [] => isFalse (by simp)
  | member :: rest, member' :: rest' =>
      have := decideEq member member'
      have := decideEqEach rest rest'
      decidable_of_iff (member = member' ∧ rest = rest') (by simp)

end

instance [DecidableEq Test] : DecidableEq (Condition Test) := decideEq

end Condition

end Concolic
