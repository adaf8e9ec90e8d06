import Mathlib
import Concolic.Proofs.Lengths
import Concolic.Recording

/-!
# Conditions over recorded inputs

A condition is admissible for a list of input records if its comparisons mention `int` and `long`
inputs and lengths only, its texts are made of recorded strings, each with its own length variable,
and it holds no match against a regular expression and no combination without members.

For such a condition, what an integer model has to bind is what the integer layer mentions, together
with the lengths of the strings. Under a model that does, no comparison is left, and all texts have
known lengths (`PathCondition.measured_of_covers`). This is what the character layer starts from.
-/

namespace Concolic

namespace InputRecord

/-- An `int` or `long` input has the given variable. -/
def HasNumber (records : List InputRecord) (symbol : UInt32) : Prop :=
  (∃ value, .value symbol (.int value) ∈ records) ∨ ∃ value, .value symbol (.long value) ∈ records

/-- A string input has the given variables for its characters and for its length. -/
def HasText (records : List InputRecord) (symbol length : UInt32) : Prop :=
  ∃ text, .value symbol (.text text length) ∈ records

/-- The variables that comparisons may mention: numbers and lengths, and no single characters. -/
def Visible (records : List InputRecord) : Variable → Prop
  | .int id => HasNumber records id ∨ ∃ symbol, HasText records symbol id
  | .char _ _ => False

variable {records larger : List InputRecord}

theorem HasNumber.mono (subset : records ⊆ larger) {symbol : UInt32}
    (hasNumber : HasNumber records symbol) : HasNumber larger symbol :=
  hasNumber.imp (fun ⟨given, member⟩ => ⟨given, subset member⟩)
    fun ⟨given, member⟩ => ⟨given, subset member⟩

theorem HasText.mono (subset : records ⊆ larger) {symbol length : UInt32}
    (hasText : HasText records symbol length) : HasText larger symbol length :=
  let ⟨text, member⟩ := hasText
  ⟨text, subset member⟩

theorem Visible.mono (subset : records ⊆ larger) {var : Variable} (visible : Visible records var) :
    Visible larger var := by
  cases var with
  | int id =>
      exact visible.imp (HasNumber.mono subset) fun ⟨symbol, hasText⟩ =>
        ⟨symbol, hasText.mono subset⟩
  | char symbol index => exact visible

end InputRecord

open InputRecord

/-- Every string in a text is a recorded one, with its own length variable. -/
def SymText.Admissible (records : List InputRecord) (text : SymText) : Prop :=
  ∀ symbol length, .input symbol length ∈ text.segments → HasText records symbol length

/-- A test is no match against a regular expression, and both of its texts are admissible. -/
def TextTest.Admissible (records : List InputRecord) (test : TextTest) : Prop :=
  test.kind ≠ .regex ∧ test.subject.Admissible records ∧ test.pattern.toText.Admissible records

/-- A condition over the given inputs. -/
def PathCondition.Admissible (records : List InputRecord) (condition : PathCondition) : Prop :=
  condition.Every (.scoped (Visible records) (TextTest.Admissible records))

variable {records : List InputRecord} {lexicon : Lexicon}

theorem TextTest.Admissible.mono {larger : List InputRecord} (subset : records ⊆ larger)
    {test : TextTest} (admissible : test.Admissible records) : test.Admissible larger :=
  ⟨admissible.1, fun symbol length member => (admissible.2.1 symbol length member).mono subset,
    fun symbol length member => (admissible.2.2 symbol length member).mono subset⟩

theorem SymText.Admissible.hasText_of_mem_lengthVars {text : SymText}
    (admissible : text.Admissible records) {var : Variable} (member : var ∈ text.lengthVars) :
    ∃ symbol length, var = .int length ∧ HasText records symbol length := by
  obtain ⟨segment, isSegment, isLength⟩ := List.mem_filterMap.mp member
  cases segment with
  | input symbol length =>
      cases isLength
      exact ⟨symbol, length, rfl, admissible symbol length isSegment⟩
  | literal id => simp [Segment.lengthVar?] at isLength

namespace PathCondition

theorem Admissible.mono {larger : List InputRecord} (subset : records ⊆ larger)
    {condition : PathCondition} (admissible : condition.Admissible records) :
    condition.Admissible larger :=
  Condition.Every.mono admissible
    (fun _ inScope var occurs => (inScope var occurs).mono subset)
    (fun _ _ inScope => ⟨fun var occurs => (inScope.1 var occurs).mono subset,
      fun var occurs => (inScope.2 var occurs).mono subset⟩)
    fun _ ofTest => ofTest.mono subset

theorem Admissible.negate {condition : PathCondition} (admissible : condition.Admissible records) :
    PathCondition.Admissible records condition.negate :=
  Condition.every_negate.mpr admissible

/-- Folding a condition keeps its variables and tests within bounds. -/
theorem Admissible.substitute {condition : PathCondition}
    (admissible : condition.Admissible records) (assignment : Assignment) :
    (condition.substitute assignment lexicon).Admissible records := by
  apply Condition.Every.resolve admissible
  · intro sum relation inScope
    simp only [Condition.decideLinear]
    split
    · exact Condition.every_ofBool _
    · intro var occurs
      rw [Linear.mem_vars_substitute] at occurs
      exact inScope var (Linear.mem_vars_of_coefficient_ne_zero occurs.2)
  · intro left right relation inScope
    simp only [Condition.decideCompare]
    split
    · exact Condition.every_ofBool _
    · exact ⟨fun var occurs => inScope.1 var (Arith.mem_vars_substitute.mp occurs).1,
        fun var occurs => inScope.2 var (Arith.mem_vars_substitute.mp occurs).1⟩
  · exact fun test ofTest _ => ofTest

/-- The integer layer mentions visible variables only. -/
theorem Admissible.visible_of_mem_integers {condition : PathCondition}
    (admissible : condition.Admissible records) {assignment : Assignment} {var : Variable}
    (occurs : var ∈ (condition.lower .integers assignment lexicon).vars Empty.elim) :
    Visible records var := by
  have every : (condition.lower .integers assignment lexicon).Every
      (.scoped (Visible records) fun _ => True) := by
    apply Condition.Every.bindTests admissible
    · exact fun _ inScope => inScope
    · exact fun _ _ inScope => inScope
    · intro test ofTest expected
      apply TextTest.every_lengthFormula
      intro length member
      rcases List.mem_append.mp member with inSubject | inPattern
      · obtain ⟨symbol, id, rfl, hasText⟩ := ofTest.2.1.hasText_of_mem_lengthVars inSubject
        exact .inr ⟨symbol, hasText⟩
      · obtain ⟨symbol, id, rfl, hasText⟩ := ofTest.2.2.hasText_of_mem_lengthVars inPattern
        exact .inr ⟨symbol, hasText⟩
  exact every.scope_of_mem_vars (fun impossible => impossible.elim) occurs

/-- Once the variables of the integer layer and the lengths of the strings are bound, nothing is left
of a condition but tests on texts of known lengths. -/
theorem measured_of_covers {condition : PathCondition} (admissible : condition.Admissible records)
    {assignment : Assignment}
    (covers : ∀ var ∈ (lower (condition.substitute ∅ lexicon) .integers ∅ lexicon).vars Empty.elim,
      ∃ value, assignment.get? var = some value)
    (lengths : ∀ symbol length, HasText records symbol length →
      ∃ value, assignment.int? length = some value) :
    (condition.substitute assignment lexicon).Every (.testsOnly fun test =>
      test.Admissible records ∧ test.Measured assignment lexicon) := by
  have folded : (condition.substitute ∅ lexicon).Every
      (.scoped (fun var => ∃ value, assignment.get? var = some value)
        (TextTest.Admissible records)) :=
    Condition.Every.scoped_of_bindTests (admissible.substitute ∅) covers
  rw [← substitute_substitute condition (Assignment.extends_empty assignment) lexicon]
  apply Condition.Every.resolve folded
  · intro sum relation bound
    rw [Condition.decideLinear_of_binds bound]
    exact Condition.every_ofBool _
  · intro left right relation bound
    rw [Arith.substitute_eq_const bound.1, Arith.substitute_eq_const bound.2]
    exact Condition.every_ofBool _
  · intro test ofTest _
    exact ⟨ofTest,
      SymText.exists_cells? fun symbol length member =>
        lengths symbol length (ofTest.2.1 symbol length member),
      SymText.exists_cells? fun symbol length member =>
        lengths symbol length (ofTest.2.2 symbol length member)⟩

/-- The variables that the character layer mentions are open characters of recorded strings. -/
theorem open_of_mem_characters {condition : PathCondition} {assignment : Assignment}
    (testsOnly : condition.Every (.testsOnly (TextTest.Admissible records))) {var : Variable}
    (occurs : var ∈ (condition.lower .characters assignment lexicon).vars Empty.elim) :
    ∃ symbol length value index, HasText records symbol length ∧
      assignment.int? length = some value ∧ index < cellCount value ∧
      var = .char symbol (.ofNat index) ∧ assignment.get? var = none := by
  let isOpen (var : Variable) : Prop :=
    ∃ symbol length value index, HasText records symbol length ∧
      assignment.int? length = some value ∧ index < cellCount value ∧
      var = .char symbol (.ofNat index) ∧ assignment.get? var = none
  have ofText {text : SymText} (admissible : text.Admissible records) (cells : List Cell)
      (known : text.cells? assignment lexicon = some cells) (key : Variable)
      (member : .unknown key ∈ cells) : isOpen key := by
    rcases SymText.unknown_mem_cells? known member with
      ⟨symbol, length, value, index, isInput, isOpen⟩
    exact ⟨symbol, length, value, index, admissible symbol length isInput, isOpen⟩
  have every : (condition.lower .characters assignment lexicon).Every
      (.scoped isOpen fun _ => True) := by
    apply Condition.Every.bindTests testsOnly
    · exact fun _ impossible => impossible.elim
    · exact fun _ _ impossible => impossible.elim
    · intro test ofTest expected
      exact TextTest.every_characterFormula (ofText ofTest.2.1) (ofText ofTest.2.2) expected
  exact every.scope_of_mem_vars (fun impossible => impossible.elim) occurs

end PathCondition

end Concolic
