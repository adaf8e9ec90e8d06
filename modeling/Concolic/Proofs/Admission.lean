import Mathlib
import Concolic.Proofs.Lengths

/-!
# Lengths that admit a match

Both layers ask whether two texts have the lengths that a test needs. The integer layer compares a
linear sum of lengths with zero, in 64-bit words; the character layer compares numbers of cells and
gives up before it looks at characters. For texts below 2^32 characters the two conditions are the
same, with one exception. The offset of a test may be so large that the room it lacks is more than
2^63 characters. The sum that stands for the room then wraps around and comes out positive, and the
integer layer lets lengths through that the character layer can only refuse.
-/

namespace Concolic

namespace TestKind

/-- Texts of the given lengths can pass the test. -/
def admits (subject pattern : Nat) : TestKind → Bool
  | .equals => subject = pattern
  | .startsWith offset => 0 ≤ offset.toInt && offset.toInt + pattern ≤ subject
  | .endsWith | .contains => pattern ≤ subject
  | .regex => true

/-- The room that a pattern at the given position lacks is more than a 64-bit word can say. -/
def overshoots (subject pattern : Nat) : TestKind → Bool
  | .startsWith offset => 2 ^ 63 < offset.toInt + pattern - subject
  | _ => false

theorem admits_of_overshoots {subject pattern : Nat} {kind : TestKind}
    (isOver : kind.overshoots subject pattern = true) : kind.admits subject pattern = false := by
  cases kind with
  | startsWith offset =>
      simp only [overshoots, decide_eq_true_eq] at isOver
      simp only [admits, Bool.and_eq_false_iff, decide_eq_false_iff_not]
      omega
  | equals | endsWith | contains | regex => simp [overshoots] at isOver

end TestKind

/-! ### The character layer -/

namespace TextTest

variable {subject pattern : List Cell} {kind : TestKind}

/-- Lengths that admit no match are refused, whatever the characters are. -/
theorem cellFormula_of_not_admits (refused : kind.admits subject.length pattern.length = false) :
    cellFormula subject pattern kind = .falsity := by
  cases kind with
  | equals =>
      apply if_neg
      simpa [TestKind.admits] using refused
  | startsWith offset =>
      apply if_neg
      simp only [TestKind.admits, Bool.and_eq_false_iff, decide_eq_false_iff_not] at refused
      omega
  | endsWith | contains =>
      apply if_neg
      simpa [TestKind.admits] using refused
  | regex => simp [TestKind.admits] at refused

/-- Cells that all hold the same code are aligned. -/
theorem aligned_replicate (code : Int64) (count size : Nat) :
    Formula.aligned (List.replicate count (.known code)) (List.replicate size (.known code)) =
      .truth := by
  apply Condition.conjunction_eq_truth_iff.mpr
  intro member isMember
  rw [List.zipWith_replicate] at isMember
  rw [List.eq_of_mem_replicate isMember]
  simp [Formula.cellsEqual, Condition.ofBool]

/-- Lengths that admit a match are those at which some characters match. -/
theorem admits_iff_exists_match {count size : Nat} :
    kind.admits count size = true ↔
      ∃ subject pattern, subject.length = count ∧ pattern.length = size ∧
        cellFormula subject pattern kind = .truth := by
  constructor
  · intro admitted
    refine ⟨.replicate count (.known 0), .replicate size (.known 0), List.length_replicate,
      List.length_replicate, ?_⟩
    cases kind with
    | equals =>
        simp only [TestKind.admits, decide_eq_true_eq] at admitted
        simp only [cellFormula, List.length_replicate, if_pos admitted, aligned_replicate]
    | startsWith offset =>
        simp only [TestKind.admits, Bool.and_eq_true, decide_eq_true_eq] at admitted
        have inside : 0 ≤ offset.toInt ∧ offset.toInt.toNat + size ≤ count := by omega
        simp only [cellFormula, List.length_replicate, if_pos inside, List.drop_replicate,
          aligned_replicate]
    | endsWith =>
        simp only [TestKind.admits, decide_eq_true_eq] at admitted
        simp only [cellFormula, List.length_replicate, if_pos admitted, List.drop_replicate,
          aligned_replicate]
    | contains =>
        simp only [TestKind.admits, decide_eq_true_eq] at admitted
        simp only [cellFormula, List.length_replicate, if_pos admitted, List.drop_replicate,
          aligned_replicate]
        apply Condition.disjunction_eq_truth_iff.mpr
        simp
    | regex => rfl
  · rintro ⟨subject, pattern, rfl, rfl, holds⟩
    by_contra refused
    rw [cellFormula_of_not_admits (Bool.eq_false_iff.mpr refused)] at holds
    cases holds

end TextTest

/-! ### The integer layer -/

/-- Below the least word, reduction to 64 bits comes round once. -/
theorem toInt_ofInt_of_lt_least {value : Int} (below : value < -2 ^ 63)
    (once : -2 ^ 63 ≤ value + 2 ^ 64) : (Int64.ofInt value).toInt = value + 2 ^ 64 := by
  rw [Int64.toInt_ofInt, Int.bmod_def]
  simp only [Int64.size]
  split <;> omega

/-- A word is not negative if the number that it stands for is not, or if that number is below the
least word. -/
theorem nonneg_ofInt_iff {value : Int} (above : -2 ^ 64 ≤ value) (below : value < 2 ^ 63) :
    0 ≤ (Int64.ofInt value).toInt ↔ 0 ≤ value ∨ value < -2 ^ 63 := by
  by_cases wraps : value < -2 ^ 63
  · rw [toInt_ofInt_of_lt_least wraps (by omega)]
    omega
  · rw [toInt_ofInt_of_fitsWord ⟨by omega, below⟩]
    omega

namespace SymText

variable {assignment : Assignment} {lexicon : Lexicon} {text : SymText}

/-- The length variables of a short text stand for numbers of characters. -/
theorem sized_of_size
    (lengths : ∀ var ∈ text.lengthVars, ∃ value, assignment.get? var = some value ∧ 0 ≤ value.toInt)
    (short : text.size assignment lexicon < 2 ^ 32) : text.Sized assignment := by
  intro var occurs
  rcases lengths var occurs with ⟨value, isValue, nonneg⟩
  rcases List.mem_filterMap.mp occurs with ⟨segment, isSegment, isVar⟩
  cases segment with
  | literal id => simp [Segment.lengthVar?] at isVar
  | input symbol length =>
      simp only [Segment.lengthVar?, Option.some.injEq] at isVar
      subst isVar
      have share : (assignment.valuation (.int length)).toNat ≤ text.size assignment lexicon :=
        List.le_sum_of_mem (List.mem_map_of_mem isSegment)
      rw [Assignment.valuation_of_get? isValue] at share ⊢
      omega

end SymText

namespace TextTest

variable {assignment : Assignment} {lexicon : Lexicon} {test : TextTest}

/-- By how much the subject is longer than the pattern. -/
def slack (test : TextTest) (lexicon : Lexicon) : Linear :=
  (test.subject.length lexicon).minus (test.pattern.toText.length lexicon)

/-- The lengths of both sides are known and have the given values. -/
structure Gauged (assignment : Assignment) (lexicon : Lexicon) (test : TextTest)
    (subject pattern : Nat) : Prop where
  short : subject < 2 ^ 32 ∧ pattern < 2 ^ 32
  binds : assignment.Binds (test.slack lexicon).vars
  value : (test.slack lexicon).valueAt assignment.valuation = subject - pattern

theorem gauged_of_cells? {subject pattern : List Cell}
    (lengths : ∀ var ∈ test.lengthVars, ∃ value, assignment.get? var = some value ∧ 0 ≤ value.toInt)
    (subjectShort : test.subject.size assignment lexicon < 2 ^ 32)
    (patternShort : test.pattern.toText.size assignment lexicon < 2 ^ 32)
    (subjectKnown : test.subject.cells? assignment lexicon = some subject)
    (patternKnown : test.pattern.toText.cells? assignment lexicon = some pattern) :
    test.Gauged assignment lexicon subject.length pattern.length := by
  have subjectSized : test.subject.Sized assignment :=
    SymText.sized_of_size (fun var occurs => lengths var (List.mem_append_left _ occurs))
      subjectShort
  have patternSized : test.pattern.toText.Sized assignment :=
    SymText.sized_of_size (fun var occurs => lengths var (List.mem_append_right _ occurs))
      patternShort
  rw [← SymText.length_cells? subjectKnown subjectSized] at subjectShort
  rw [← SymText.length_cells? patternKnown patternSized] at patternShort
  refine ⟨⟨subjectShort, patternShort⟩, ?_, ?_⟩
  · intro var occurs
    have isLength : var ∈ test.lengthVars := by
      apply List.mem_append.mpr
      exact (Linear.mem_vars_minus occurs).imp SymText.mem_lengthVars_of_mem_vars
        SymText.mem_lengthVars_of_mem_vars
    rcases lengths var isLength with ⟨value, isValue, _⟩
    exact ⟨value, isValue⟩
  · apply Linear.Counts.valueAt_minus
    · exact SymText.counts_length subjectKnown subjectSized (by omega)
    · omega
    · exact SymText.counts_length patternKnown patternSized (by omega)
    · omega

namespace Gauged

variable {subject pattern : Nat}

/-- A comparison of the lengths is exact. -/
theorem substitute_slack (gauged : test.Gauged assignment lexicon subject pattern)
    (relation : Relation) :
    Formula.substitute (.linear (test.slack lexicon) relation) assignment =
      .ofBool (relation.holds (subject - pattern)) := by
  have short := gauged.short
  rw [Formula.substitute, Condition.resolve, Condition.decideLinear_of_binds gauged.binds,
    gauged.value, toInt_ofInt_of_fitsWord]
  constructor <;> omega

/-- Less the offset, the comparison is exact unless the difference is below the words. -/
theorem substitute_slack_minus (gauged : test.Gauged assignment lexicon subject pattern)
    {offset : Int64} (nonneg : 0 ≤ offset.toInt) :
    Formula.substitute (.linear ((test.slack lexicon).plusConstant (-offset)) .ge) assignment =
      .ofBool (0 ≤ subject - pattern - offset.toInt ∨
        subject - pattern - offset.toInt < -2 ^ 63) := by
  have short := gauged.short
  have high := offset.toInt_lt
  have binds : assignment.Binds ((test.slack lexicon).plusConstant (-offset)).vars := by
    rw [Linear.vars_plusConstant]
    exact gauged.binds
  have reduced : Int64.ofInt
      (((test.slack lexicon).plusConstant (-offset)).valueAt assignment.valuation) =
      Int64.ofInt (subject - pattern - offset.toInt) := by
    rw [Linear.ofInt_valueAt_plusConstant, gauged.value, Int64.ofInt_sub _ offset.toInt,
      Int64.ofInt_toInt, Int64.sub_eq_add_neg]
  rw [Formula.substitute, Condition.resolve, Condition.decideLinear_of_binds binds, reduced]
  apply congrArg
  rw [Relation.holds, decide_eq_decide, ge_iff_le]
  apply nonneg_ofInt_iff
  · omega
  · omega

/-- The integer layer lets lengths through that admit a match, and those at which it loses count. -/
theorem substitute_lengthFormula (gauged : test.Gauged assignment lexicon subject pattern) :
    Formula.substitute (test.lengthFormula true lexicon) assignment =
      .ofBool (test.kind.admits subject pattern || test.kind.overshoots subject pattern) := by
  have short := gauged.short
  simp only [lengthFormula, if_true]
  cases test.kind with
  | equals =>
      refine (gauged.substitute_slack .eq).trans (congrArg Condition.ofBool ?_)
      simp only [Relation.holds, TestKind.admits, TestKind.overshoots, Bool.or_false]
      rw [Bool.eq_iff_iff, beq_iff_eq, decide_eq_true_eq]
      omega
  | startsWith offset =>
      have sign : offset < 0 ↔ offset.toInt < 0 := by
        rw [Int64.lt_iff_toInt_lt, Int64.toInt_zero]
      by_cases negative : offset < 0
      · simp only [if_pos negative, TestKind.admits, TestKind.overshoots]
        have refused : ¬0 ≤ offset.toInt := not_le.mpr (sign.mp negative)
        have near : ¬2 ^ 63 < offset.toInt + pattern - subject := by omega
        rw [decide_eq_false refused, decide_eq_false near]
        rfl
      · simp only [if_neg negative]
        have nonneg : 0 ≤ offset.toInt := not_lt.mp (sign.not.mp negative)
        refine (gauged.substitute_slack_minus nonneg).trans (congrArg Condition.ofBool ?_)
        simp only [TestKind.admits, TestKind.overshoots]
        rw [Bool.eq_iff_iff]
        simp only [Bool.or_eq_true, Bool.and_eq_true, decide_eq_true_eq]
        omega
  | endsWith | contains =>
      refine (gauged.substitute_slack .ge).trans (congrArg Condition.ofBool ?_)
      simp only [Relation.holds, TestKind.admits, TestKind.overshoots, Bool.or_false]
      rw [Bool.eq_iff_iff, decide_eq_true_eq, decide_eq_true_eq]
      omega
  | regex => rfl

end Gauged

theorem characterFormula_of_not_admits {subject pattern : List Cell}
    (subjectKnown : test.subject.cells? assignment lexicon = some subject)
    (patternKnown : test.pattern.toText.cells? assignment lexicon = some pattern)
    (refused : test.kind.admits subject.length pattern.length = false) :
    test.characterFormula true assignment lexicon = .falsity := by
  have notRegex : test.kind ≠ .regex := by
    intro isRegex
    rw [isRegex] at refused
    cases refused
  simp only [characterFormula, if_neg notRegex, subjectKnown, patternKnown, if_true]
  exact cellFormula_of_not_admits refused

/-- The two layers agree on lengths as far as the integer layer can count. Where the lengths of a
test are bound to numbers of characters and both sides are shorter than 2^32, the integer layer is
decided. It is true exactly if the lengths admit a match in the character layer, unless the offset
lacks room by more than 2^63: there it is true although the character layer refuses the lengths. -/
theorem layers_admit_alike_iff
    (lengths : ∀ var ∈ test.lengthVars, ∃ value, assignment.get? var = some value ∧ 0 ≤ value.toInt)
    (subjectShort : test.subject.size assignment lexicon < 2 ^ 32)
    (patternShort : test.pattern.toText.size assignment lexicon < 2 ^ 32) :
    ∃ subject pattern,
      test.subject.cells? assignment lexicon = some subject ∧
      test.pattern.toText.cells? assignment lexicon = some pattern ∧
      (test.kind.admits subject.length pattern.length = true ↔
        ∃ other others, other.length = subject.length ∧ others.length = pattern.length ∧
          cellFormula other others test.kind = .truth) ∧
      (Formula.substitute (test.lengthFormula true lexicon) assignment =
          .ofBool (test.kind.admits subject.length pattern.length) ↔
        test.kind.overshoots subject.length pattern.length = false) ∧
      (test.kind.overshoots subject.length pattern.length = true →
        Formula.substitute (test.lengthFormula true lexicon) assignment = .truth ∧
          test.characterFormula true assignment lexicon = .falsity) := by
  have binds : assignment.Binds test.lengthVars := by
    intro var occurs
    rcases lengths var occurs with ⟨value, isValue, _⟩
    exact ⟨value, isValue⟩
  have subjectCells : ∃ subject, test.subject.cells? assignment lexicon = some subject :=
    SymText.exists_cells?_of_binds fun var occurs => binds var (List.mem_append_left _ occurs)
  have patternCells : ∃ pattern, test.pattern.toText.cells? assignment lexicon = some pattern :=
    SymText.exists_cells?_of_binds fun var occurs => binds var (List.mem_append_right _ occurs)
  rcases subjectCells with ⟨subject, subjectKnown⟩
  rcases patternCells with ⟨pattern, patternKnown⟩
  have decided := (gauged_of_cells? lengths subjectShort patternShort subjectKnown
    patternKnown).substitute_lengthFormula
  refine ⟨subject, pattern, subjectKnown, patternKnown, admits_iff_exists_match, ?_, ?_⟩
  · rw [decided]
    cases isOver : test.kind.overshoots subject.length pattern.length with
    | false => simp
    | true => simp [TestKind.admits_of_overshoots isOver, Condition.ofBool]
  · intro isOver
    constructor
    · rw [decided, isOver, Bool.or_true, Condition.ofBool]
    · exact characterFormula_of_not_admits subjectKnown patternKnown
        (TestKind.admits_of_overshoots isOver)

/-- A text of two characters is looked for at the given position. -/
def soughtAt (offset : Int64) : TextTest where
  kind := .startsWith offset
  subject := .input 1 2
  pattern := .literal ⟨0⟩

/-- The text in question is empty. -/
def emptyValues : Assignment :=
  .ofList [(.int 2, 0)]

/-- At the greatest offset the empty text lacks room for more than 2^63 characters. One position
before, it does not. -/
theorem soughtAt_admits_alike_iff :
    (Formula.substitute ((soughtAt 9223372036854775807).lengthFormula true (.ofTexts ["ab"]))
        emptyValues = .truth ∧
      (soughtAt 9223372036854775807).characterFormula true emptyValues (.ofTexts ["ab"]) =
        .falsity) ∧
    Formula.substitute ((soughtAt 9223372036854775806).lengthFormula true (.ofTexts ["ab"]))
      emptyValues = .falsity := by
  have lengths (offset : Int64) : ∀ var ∈ (soughtAt offset).lengthVars, ∃ value,
      emptyValues.get? var = some value ∧ 0 ≤ value.toInt := by
    intro var occurs
    rw [List.mem_singleton.mp occurs]
    exact ⟨0, by decide +kernel, by decide⟩
  have noSubject : (SymText.input 1 2).cells? emptyValues (.ofTexts ["ab"]) = some [] := by
    decide +kernel
  have twoCells : (SymText.literal ⟨0⟩).cells? emptyValues (.ofTexts ["ab"]) =
      some [.known 97, .known 98] := by
    decide +kernel
  have subjectShort : (SymText.input 1 2).size emptyValues (.ofTexts ["ab"]) < 2 ^ 32 := by
    decide +kernel
  have patternShort : (SymText.literal ⟨0⟩).size emptyValues (.ofTexts ["ab"]) < 2 ^ 32 := by
    decide +kernel
  constructor
  · rcases layers_admit_alike_iff (lengths 9223372036854775807) subjectShort patternShort with
      ⟨subject, pattern, isSubject, isPattern, _, _, whenOver⟩
    obtain rfl := Option.some.inj (noSubject.symm.trans isSubject)
    obtain rfl := Option.some.inj (twoCells.symm.trans isPattern)
    exact whenOver (by decide)
  · rcases layers_admit_alike_iff (lengths 9223372036854775806) subjectShort patternShort with
      ⟨subject, pattern, isSubject, isPattern, _, agree, _⟩
    obtain rfl := Option.some.inj (noSubject.symm.trans isSubject)
    obtain rfl := Option.some.inj (twoCells.symm.trans isPattern)
    exact agree.mpr (by decide)

end TextTest

end Concolic
