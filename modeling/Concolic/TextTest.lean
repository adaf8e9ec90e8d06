import Concolic.SymText
import Concolic.Text.Occurrence

/-!
# Tests on texts

A branch may test a symbolic text against a pattern. A test is decided once both sides are
concrete; the match against a regular expression is opaque and never decided.
-/

namespace Concolic

/-- What a test asks of its subject. -/
inductive TestKind where
  | equals
  /-- The pattern stands at the given position of the subject. -/
  | startsWith (offset : Int64)
  | endsWith
  /-- The pattern stands somewhere in the subject. -/
  | contains
  /-- The subject matches the pattern as a regular expression. -/
  | regex
  deriving DecidableEq, Repr

/-- The text that a test looks for. -/
inductive Pattern where
  | literal (id : LiteralId)
  | symbolic (text : SymText)
  deriving DecidableEq, Repr

namespace Pattern

def toText : Pattern → SymText
  | .literal id => .literal id
  | .symbolic text => text

def literals (pattern : Pattern) : List LiteralId :=
  pattern.toText.literals

def renumber {m : Type → Type} [Monad m] (change : LiteralId → m LiteralId) : Pattern → m Pattern
  | .literal id => return .literal (← change id)
  | .symbolic text => return .symbolic (← text.renumber change)

end Pattern

structure TextTest where
  kind : TestKind
  subject : SymText
  pattern : Pattern
  deriving DecidableEq, Repr

namespace TestKind

/-- The outcome of a test on two concrete texts; a regular expression gives none. -/
def outcome? (subject pattern : List Char) : TestKind → Option Bool
  | .equals => some (subject == pattern)
  | .startsWith offset =>
      some (0 ≤ offset.toInt && offset.toInt.toNat ≤ subject.length &&
        pattern.isPrefixOf (subject.drop offset.toInt.toNat))
  | .endsWith => some (pattern.isSuffixOf subject)
  | .contains => some (Text.occursIn pattern subject)
  | .regex => none

end TestKind

namespace TextTest

/-- The length variables of the subject and then of the pattern. -/
def lengthVars (test : TextTest) : List Variable :=
  test.subject.lengthVars ++ test.pattern.toText.lengthVars

/-- The outcome of the test, once subject and pattern are concrete. -/
def outcome? (test : TextTest) (assignment : Assignment) (lexicon : Lexicon) : Option Bool := do
  let subject ← test.subject.concrete? assignment lexicon
  let pattern ← test.pattern.toText.concrete? assignment lexicon
  test.kind.outcome? subject pattern

def literals (test : TextTest) : List LiteralId :=
  test.subject.literals ++ test.pattern.literals

/-- Changes the numbers of the literal texts, in the subject first. -/
def renumber {m : Type → Type} [Monad m] (change : LiteralId → m LiteralId) (test : TextTest) :
    m TextTest := do
  let subject ← test.subject.renumber change
  let pattern ← test.pattern.renumber change
  return { test with subject, pattern }

end TextTest

end Concolic
