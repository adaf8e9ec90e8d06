import Mathlib
import Concolic.Proofs.Texts

/-!
# The character layer is exact

Once the lengths of two texts are known, a test on them is lowered to equations between the codes of
single characters. These equations hold over the integers exactly if the test comes out as expected
on the characters with these codes, whichever of the characters the solver is asked about and
whichever are known already. Once all characters are filled in, substitution folds the equations to
that outcome.
-/

namespace Concolic

namespace Linear

theorem entries_ofVar (var : Variable) : (ofVar var).coefficients.entries = [(var, 1)] :=
  rfl

@[simp]
theorem valueAt_ofVar (valuation : Variable → Int) (var : Variable) :
    (ofVar var).valueAt valuation = valuation var := by
  have constant : (ofVar var).constant.toInt = 0 := rfl
  rw [valueAt, constant, entries_ofVar]
  simp

@[simp]
theorem vars_ofVar (var : Variable) : (ofVar var).vars = [var] :=
  rfl

theorem coefficient_ofVar (var other : Variable) :
    (ofVar var).coefficient other = if var = other then 1 else 0 := by
  rw [ofVar, term, coefficient_addTerm]
  simp

end Linear

namespace Cell

variable {valuation : Variable → Int}

@[simp]
theorem valueAt_toLinear (cell : Cell) : cell.toLinear.valueAt valuation = cell.valueAt valuation := by
  cases cell <;> simp [toLinear, valueAt]

theorem coefficient_toLinear (cell : Cell) (var : Variable) :
    cell.toLinear.coefficient var = 0 ∨ cell.toLinear.coefficient var = 1 := by
  cases cell with
  | known code => exact .inl rfl
  | unknown key =>
      rw [toLinear, Linear.coefficient_ofVar]
      split <;> simp

theorem unknown_of_mem_vars {cell : Cell} {var : Variable} (occurs : var ∈ cell.toLinear.vars) :
    cell = .unknown var := by
  cases cell with
  | known code => simp [toLinear, Linear.vars, Linear.ofConstant, VarMap.keys] at occurs
  | unknown key =>
      rw [toLinear, Linear.vars_ofVar, List.mem_singleton] at occurs
      rw [occurs]

/-- The constant part of a cell's sum is a code or zero. -/
theorem constant_toLinear {cell : Cell} {character : Char}
    (isCode : cell.valueAt valuation = charCode character) :
    0 ≤ cell.toLinear.constant.toInt ∧ cell.toLinear.constant.toInt < 1114112 := by
  cases cell with
  | known code =>
      have bound := charCode_lt character
      have nonneg : 0 ≤ charCode character := by simp [charCode]
      simp only [valueAt] at isCode
      simp only [toLinear, Linear.ofConstant]
      omega
  | unknown key =>
      have constant : (unknown key).toLinear.constant = 0 := rfl
      simp [constant]

end Cell

namespace Formula

variable {valuation : Variable → Int}

/-- The difference of two codes, as an equation between cells takes it. -/
theorem valueAt_difference {first second : Cell} {firstChar secondChar : Char}
    (firstCode : first.valueAt valuation = charCode firstChar)
    (secondCode : second.valueAt valuation = charCode secondChar) :
    (first.toLinear.minus second.toLinear).valueAt valuation =
      charCode firstChar - charCode secondChar := by
  rw [Linear.valueAt_minus, Cell.valueAt_toLinear, Cell.valueAt_toLinear, firstCode, secondCode]
  · intro var _
    rcases first.coefficient_toLinear var with firstIs | firstIs <;>
      rcases second.coefficient_toLinear var with secondIs | secondIs <;>
      simp [firstIs, secondIs, FitsWord]
  · have firstBound := Cell.constant_toLinear firstCode
    have secondBound := Cell.constant_toLinear secondCode
    simp only [FitsWord]
    omega

/-- An equation between cells compares their codes. -/
theorem holdsAt_cellsEqual {first second : Cell} {firstChar secondChar : Char}
    (firstCode : first.valueAt valuation = charCode firstChar)
    (secondCode : second.valueAt valuation = charCode secondChar) :
    (cellsEqual first second).holdsAt valuation Empty.elim = (secondChar == firstChar) := by
  have sameIff : (secondChar == firstChar) = (charCode firstChar - charCode secondChar == 0) := by
    rw [Bool.eq_iff_iff, beq_iff_eq, beq_iff_eq, sub_eq_zero, charCode_injective.eq_iff, eq_comm]
  have difference := valueAt_difference firstCode secondCode
  rw [sameIff]
  cases first with
  | known firstKnown =>
      cases second with
      | known secondKnown =>
          simp only [Cell.valueAt] at firstCode secondCode
          simp only [cellsEqual, Condition.holdsAt_ofBool, ← firstCode, ← secondCode]
          rw [Bool.eq_iff_iff, decide_eq_true_eq, beq_iff_eq, sub_eq_zero, Int64.toInt_inj]
      | unknown secondKey => simp only [cellsEqual, Condition.holdsAt, Relation.holds, difference]
  | unknown firstKey => simp only [cellsEqual, Condition.holdsAt, Relation.holds, difference]

variable {subject pattern : List Cell} {subjectChars patternChars : List Char}

/-- Cells that are aligned one by one hold a pattern that starts the text. -/
theorem holdsAt_aligned
    (subjectCodes : subject.map (Cell.valueAt valuation) = subjectChars.map charCode)
    (patternCodes : pattern.map (Cell.valueAt valuation) = patternChars.map charCode)
    (fits : patternChars.length ≤ subjectChars.length) :
    (aligned subject pattern).holdsAt valuation Empty.elim =
      patternChars.isPrefixOf subjectChars := by
  rw [aligned, Condition.holdsAt_conjunction]
  induction pattern generalizing subject subjectChars patternChars with
  | nil =>
      have noPattern : patternChars = [] := by simpa [eq_comm] using patternCodes
      simp [noPattern]
  | cons cell rest ih =>
      cases patternChars with
      | nil => simp at patternCodes
      | cons patternChar patternRest =>
          cases subjectChars with
          | nil => simp at fits
          | cons subjectChar subjectRest =>
              cases subject with
              | nil => simp at subjectCodes
              | cons other others =>
                  simp only [List.map_cons, List.cons.injEq] at subjectCodes patternCodes
                  simp only [List.length_cons, Nat.add_le_add_iff_right] at fits
                  rw [List.zipWith_cons_cons, List.all_cons,
                    ih subjectCodes.2 patternCodes.2 fits,
                    holdsAt_cellsEqual subjectCodes.1 patternCodes.1, List.isPrefixOf_cons_cons]

end Formula

namespace TextTest

variable {valuation : Variable → Int} {subject pattern : List Cell}
  {subjectChars patternChars : List Char}

/-- A text occurs in another one if it stands at some position of it. -/
theorem occursIn_eq_any {needle text : List Char} (fits : needle.length ≤ text.length) :
    Text.occursIn needle text =
      (List.range (text.length - needle.length + 1)).any fun start =>
        needle.isPrefixOf (text.drop start) := by
  rw [Bool.eq_iff_iff, Text.occursIn_iff, List.any_eq_true]
  constructor
  · rintro ⟨before, after, rfl⟩
    refine ⟨before.length, ?_, ?_⟩
    · simp only [List.mem_range, List.length_append]
      omega
    · simp
  · rintro ⟨start, _, starts⟩
    rw [List.isPrefixOf_iff_prefix] at starts
    exact starts.isInfix.trans (List.drop_suffix start text).isInfix

/-- The equations between cells say what the test says about the characters. -/
theorem holdsAt_cellFormula {kind : TestKind} {actual : Bool}
    (subjectCodes : subject.map (Cell.valueAt valuation) = subjectChars.map charCode)
    (patternCodes : pattern.map (Cell.valueAt valuation) = patternChars.map charCode)
    (outcome : kind.outcome? subjectChars patternChars = some actual) :
    (cellFormula subject pattern kind).holdsAt valuation Empty.elim = actual := by
  have subjectLength : subject.length = subjectChars.length := by
    simpa using congrArg List.length subjectCodes
  have patternLength : pattern.length = patternChars.length := by
    simpa using congrArg List.length patternCodes
  have dropped (start : Nat) : (subject.drop start).map (Cell.valueAt valuation) =
      (subjectChars.drop start).map charCode := by
    rw [List.map_drop, subjectCodes, List.map_drop]
  cases kind with
  | equals =>
      simp only [TestKind.outcome?, Option.some.injEq] at outcome
      simp only [cellFormula, subjectLength, patternLength]
      split
      · rename_i sameLength
        rw [Formula.holdsAt_aligned subjectCodes patternCodes sameLength.ge, ← outcome,
          Bool.eq_iff_iff, List.isPrefixOf_iff_prefix, beq_iff_eq]
        exact ⟨fun isPrefix => (isPrefix.eq_of_length sameLength.symm).symm, fun same => same ▸ by simp⟩
      · rename_i otherLength
        rw [← outcome, Condition.holdsAt, eq_comm, beq_eq_false_iff_ne]
        exact fun same => otherLength (congrArg List.length same)
  | startsWith offset =>
      simp only [TestKind.outcome?, Option.some.injEq] at outcome
      simp only [cellFormula, subjectLength, patternLength]
      split
      · rename_i inside
        rw [Formula.holdsAt_aligned (dropped _) patternCodes (by rw [List.length_drop]; omega),
          ← outcome]
        have before : offset.toInt.toNat ≤ subjectChars.length := by omega
        rw [decide_eq_true inside.1, decide_eq_true before, Bool.true_and, Bool.true_and]
      · rename_i outside
        rw [← outcome, Condition.holdsAt, eq_comm, Bool.eq_false_iff]
        intro holds
        simp only [Bool.and_eq_true, decide_eq_true_eq, List.isPrefixOf_iff_prefix] at holds
        have fits := holds.2.length_le
        rw [List.length_drop] at fits
        omega
  | endsWith =>
      simp only [TestKind.outcome?, Option.some.injEq] at outcome
      simp only [cellFormula, subjectLength, patternLength]
      split
      · rename_i fits
        rw [Formula.holdsAt_aligned (dropped _) patternCodes (by rw [List.length_drop]; omega),
          ← outcome, Bool.eq_iff_iff, List.isPrefixOf_iff_prefix, List.isSuffixOf_iff_suffix,
          List.suffix_iff_eq_drop]
        constructor
        · intro starts
          exact starts.eq_of_length (by rw [List.length_drop]; omega)
        · intro same
          rw [← same]
      · rename_i tooLong
        rw [← outcome, Condition.holdsAt, eq_comm, Bool.eq_false_iff]
        intro ends
        exact tooLong (List.isSuffixOf_iff_suffix.mp ends).length_le
  | contains =>
      simp only [TestKind.outcome?, Option.some.injEq] at outcome
      simp only [cellFormula, subjectLength, patternLength]
      split
      · rename_i fits
        rw [Condition.holdsAt_disjunction, List.any_map, ← outcome, occursIn_eq_any fits]
        apply any_congr_of_mem
        intro start inRange
        rw [List.mem_range] at inRange
        exact Formula.holdsAt_aligned (dropped start) patternCodes
          (by rw [List.length_drop]; omega)
      · rename_i tooLong
        rw [← outcome, Condition.holdsAt, eq_comm, Bool.eq_false_iff]
        intro occurs
        exact tooLong (Text.occursIn_iff.mp occurs).length_le
  | regex => simp [TestKind.outcome?] at outcome

/-- The lowered test holds exactly if the test comes out as expected on the filled texts. -/
theorem holdsAt_characterFormula {test : TextTest} {small large : Assignment} {lexicon : Lexicon}
    {actual : Bool} (extension : large.Extends small)
    (subjectKnown : test.subject.cells? small lexicon = some subject)
    (patternKnown : test.pattern.toText.cells? small lexicon = some pattern)
    (outcome : test.outcome? large lexicon = some actual) (expected : Bool) :
    (test.characterFormula expected small lexicon).holdsAt large.valuation Empty.elim =
      (actual == expected) := by
  simp only [outcome?, Option.bind_eq_bind, Option.bind_eq_some_iff] at outcome
  obtain ⟨subjectChars, subjectFilled, patternChars, patternFilled, outcomeOfChars⟩ := outcome
  have exact : (cellFormula subject pattern test.kind).holdsAt large.valuation Empty.elim =
      actual :=
    holdsAt_cellFormula (SymText.map_valueAt_eq_map_charCode extension subjectKnown subjectFilled)
      (SymText.map_valueAt_eq_map_charCode extension patternKnown patternFilled) outcomeOfChars
  have notRegex : test.kind ≠ .regex := by
    intro isRegex
    rw [isRegex] at outcomeOfChars
    simp [TestKind.outcome?] at outcomeOfChars
  simp only [characterFormula, if_neg notRegex, subjectKnown, patternKnown]
  cases expected with
  | true => simp [exact]
  | false => simp [exact]

/-- What holds of the equations between cells holds of every formula about them. -/
theorem every_of_cellsEqual {rule : LeafRule Empty} (kind : TestKind)
    (equation : ∀ first ∈ subject, ∀ second ∈ pattern,
      (Formula.cellsEqual first second).Every rule) :
    (cellFormula subject pattern kind).Every rule := by
  have alignment (start : Nat) :
      (Formula.aligned (subject.drop start) pattern).Every rule := by
    apply Condition.every_conjunction
    intro member isMember
    rw [← List.map_uncurry_zip_eq_zipWith] at isMember
    rcases List.mem_map.mp isMember with ⟨⟨first, second⟩, inZip, rfl⟩
    rcases List.of_mem_zip inZip with ⟨firstMember, secondMember⟩
    exact equation first (List.mem_of_mem_drop firstMember) second secondMember
  cases kind with
  | equals =>
      simp only [cellFormula]
      split
      · exact alignment 0
      · trivial
  | startsWith offset =>
      simp only [cellFormula]
      split
      · exact alignment _
      · trivial
  | endsWith =>
      simp only [cellFormula]
      split
      · exact alignment _
      · trivial
  | contains =>
      simp only [cellFormula]
      split
      · apply Condition.every_disjunction
        intro member isMember
        rcases List.mem_map.mp isMember with ⟨start, _, rfl⟩
        exact alignment start
      · trivial
  | regex => trivial

/-- A formula about cells mentions open cells only. -/
theorem every_cellFormula {scope : Variable → Prop} {test : Empty → Prop} (kind : TestKind)
    (subjectScope : ∀ key, .unknown key ∈ subject → scope key)
    (patternScope : ∀ key, .unknown key ∈ pattern → scope key) :
    (cellFormula subject pattern kind).Every (.scoped scope test) := by
  apply every_of_cellsEqual
  intro first firstMember second secondMember
  have ofDifference (var : Variable)
      (occurs : var ∈ (first.toLinear.minus second.toLinear).vars) : scope var := by
    rcases Linear.mem_vars_minus occurs with inFirst | inSecond
    · exact subjectScope var (Cell.unknown_of_mem_vars inFirst ▸ firstMember)
    · exact patternScope var (Cell.unknown_of_mem_vars inSecond ▸ secondMember)
  cases first with
  | known firstCode =>
      cases second with
      | known secondCode => exact Condition.every_ofBool _
      | unknown secondKey => exact ofDifference
  | unknown firstKey => exact ofDifference

theorem every_characterFormula {scope : Variable → Prop} {test : Empty → Prop}
    {question : TextTest} {assignment : Assignment} {lexicon : Lexicon}
    (subjectScope : ∀ cells, question.subject.cells? assignment lexicon = some cells →
      ∀ key, .unknown key ∈ cells → scope key)
    (patternScope : ∀ cells, question.pattern.toText.cells? assignment lexicon = some cells →
      ∀ key, .unknown key ∈ cells → scope key) (expected : Bool) :
    (question.characterFormula expected assignment lexicon).Every (.scoped scope test) := by
  simp only [characterFormula]
  split
  · trivial
  · split
    · rename_i subject pattern subjectKnown patternKnown
      have every : (cellFormula subject pattern question.kind).Every (.scoped scope test) :=
        every_cellFormula question.kind (subjectScope subject subjectKnown)
          (patternScope pattern patternKnown)
      cases expected with
      | true => exact every
      | false => exact Condition.every_negate.mpr every
    · trivial

end TextTest

/-! ### Filling characters in -/

namespace SymText

variable {text : SymText} {small large : Assignment}

/-- A text whose lengths are bound has cells, and those that are open are filled in as well. -/
theorem Lettered.exists_cells? (lettered : text.Lettered small large) (lexicon : Lexicon)
    (binds : small.Binds text.lengthVars) :
    ∃ cells, text.cells? small lexicon = some cells ∧
      ∀ key, .unknown key ∈ cells → ∃ value, large.get? key = some value := by
  have hasCells : ∃ cells, text.cells? small lexicon = some cells := exists_cells?_of_binds binds
  rcases hasCells with ⟨cells, known⟩
  refine ⟨cells, known, ?_⟩
  intro key isOpen
  rcases unknown_mem_cells? known isOpen with
    ⟨symbol, length, value, index, isInput, isValue, inRange, rfl, _⟩
  rcases lettered symbol length value isInput isValue _ (toNat_lt_of_lt_cellCount inRange) with
    ⟨character, isBound⟩
  exact ⟨_, isBound⟩

end SymText

namespace TextTest

variable {subject pattern : List Cell} {subjectChars patternChars : List Char}
  {small large : Assignment} {lexicon : Lexicon}

/-- Filling in decides an equation between cells as it reads over the integers. -/
theorem decideLinear_difference {first second : Cell} {firstChar secondChar : Char}
    (firstCode : first.valueAt large.valuation = charCode firstChar)
    (secondCode : second.valueAt large.valuation = charCode secondChar)
    (bound : ∀ key, first = .unknown key ∨ second = .unknown key →
      ∃ value, large.get? key = some value) (relation : Relation) :
    (Condition.decideLinear ((first.toLinear.minus second.toLinear).substitute large) relation :
        Formula) =
      .ofBool (relation.holds
        ((first.toLinear.minus second.toLinear).valueAt large.valuation)) := by
  have binds : large.Binds (first.toLinear.minus second.toLinear).vars := by
    intro var occurs
    rcases Linear.mem_vars_minus occurs with inFirst | inSecond
    · exact bound var (.inl (Cell.unknown_of_mem_vars inFirst))
    · exact bound var (.inr (Cell.unknown_of_mem_vars inSecond))
  have fits : FitsWord ((first.toLinear.minus second.toLinear).valueAt large.valuation) := by
    rw [Formula.valueAt_difference firstCode secondCode]
    have firstBound := charCode_lt firstChar
    have secondBound := charCode_lt secondChar
    simp only [charCode] at firstBound secondBound
    simp only [FitsWord, charCode]
    omega
  rw [Condition.decideLinear_of_binds binds, toInt_ofInt_of_fitsWord fits]

/-- Filling in decides a formula about cells as it reads over the integers. -/
theorem substitute_cellFormula
    (subjectCodes : subject.map (Cell.valueAt large.valuation) = subjectChars.map charCode)
    (patternCodes : pattern.map (Cell.valueAt large.valuation) = patternChars.map charCode)
    (subjectBound : ∀ key, .unknown key ∈ subject → ∃ value, large.get? key = some value)
    (patternBound : ∀ key, .unknown key ∈ pattern → ∃ value, large.get? key = some value)
    (kind : TestKind) :
    Formula.substitute (cellFormula subject pattern kind) large =
      .ofBool ((cellFormula subject pattern kind).holdsAt large.valuation Empty.elim) := by
  have hasCode {cells : List Cell} {characters : List Char}
      (codes : cells.map (Cell.valueAt large.valuation) = characters.map charCode) {cell : Cell}
      (isMember : cell ∈ cells) : ∃ character, cell.valueAt large.valuation = charCode character := by
    have isCode : cell.valueAt large.valuation ∈ characters.map charCode :=
      codes ▸ List.mem_map_of_mem isMember
    rcases List.mem_map.mp isCode with ⟨character, _, same⟩
    exact ⟨character, same.symm⟩
  let decided : LeafRule Empty :=
    { linear := fun sum => ∀ relation,
        (Condition.decideLinear (sum.substitute large) relation : Formula) =
          .ofBool (relation.holds (sum.valueAt large.valuation))
      compare := fun _ _ => False
      test := fun _ => True }
  have every : (cellFormula subject pattern kind).Every decided := by
    apply every_of_cellsEqual
    intro first firstMember second secondMember
    rcases hasCode subjectCodes firstMember with ⟨firstChar, firstCode⟩
    rcases hasCode patternCodes secondMember with ⟨secondChar, secondCode⟩
    have leaf := decideLinear_difference firstCode secondCode (by
      rintro key (rfl | rfl)
      · exact subjectBound key firstMember
      · exact patternBound key secondMember)
    cases first with
    | known firstKnown =>
        cases second with
        | known secondKnown => exact Condition.every_ofBool _
        | unknown secondKey => exact leaf
    | unknown firstKey => exact leaf
  apply Condition.resolve_eq_ofBool_holdsAt every
  · exact fun sum relation isDecided => isDecided relation
  · exact fun left right relation impossible => impossible.elim
  · exact fun question => question.elim

/-- The character layer is exact. Once the lengths are bound, a test is lowered to a formula that
filling in all characters folds to the outcome of the test on the filled texts, and to the opposite
if the test is to fail. -/
theorem substitute_characterFormula {test : TextTest} (notRegex : test.kind ≠ .regex)
    (lexicon : Lexicon)
    (lengths : ∀ var ∈ test.lengthVars, ∃ value, small.get? var = some value)
    (extension : large.Extends small) (subjectLettered : test.subject.Lettered small large)
    (patternLettered : test.pattern.toText.Lettered small large) :
    ∃ actual, test.outcome? large lexicon = some actual ∧
      Formula.substitute (test.characterFormula true small lexicon) large = .ofBool actual ∧
      Formula.substitute (test.characterFormula false small lexicon) large = .ofBool !actual := by
  have subjectBinds : small.Binds test.subject.lengthVars :=
    fun var occurs => lengths var (List.mem_append_left _ occurs)
  have patternBinds : small.Binds test.pattern.toText.lengthVars :=
    fun var occurs => lengths var (List.mem_append_right _ occurs)
  rcases subjectLettered.exists_cells? lexicon subjectBinds with
    ⟨subject, subjectKnown, subjectBound⟩
  rcases patternLettered.exists_cells? lexicon patternBinds with
    ⟨pattern, patternKnown, patternBound⟩
  have subjectWritten : ∃ characters, test.subject.concrete? large lexicon = some characters :=
    subjectLettered.exists_concrete? extension subjectBinds
  have patternWritten : ∃ characters, test.pattern.toText.concrete? large lexicon =
      some characters := patternLettered.exists_concrete? extension patternBinds
  rcases subjectWritten with ⟨subjectChars, subjectConcrete⟩
  rcases patternWritten with ⟨patternChars, patternConcrete⟩
  rcases exists_outcome? notRegex subjectConcrete patternConcrete with ⟨actual, outcome⟩
  have reading : (cellFormula subject pattern test.kind).holdsAt large.valuation Empty.elim =
      actual := by
    have exact := holdsAt_characterFormula extension subjectKnown patternKnown outcome true
    simpa [characterFormula, notRegex, subjectKnown, patternKnown] using exact
  have decided := substitute_cellFormula
    (SymText.map_valueAt_eq_map_charCode extension subjectKnown subjectConcrete)
    (SymText.map_valueAt_eq_map_charCode extension patternKnown patternConcrete)
    subjectBound patternBound test.kind
  rw [reading] at decided
  refine ⟨actual, outcome, ?_, ?_⟩
  · simpa [characterFormula, notRegex, subjectKnown, patternKnown] using decided
  · have negated : Formula.substitute (cellFormula subject pattern test.kind).negate large =
        (Formula.substitute (cellFormula subject pattern test.kind) large).negate :=
      Condition.resolve_negate _
    rw [decided, Condition.negate_ofBool] at negated
    simpa [characterFormula, notRegex, subjectKnown, patternKnown] using negated

/-- A text twice with a letter between, which all but its first letter has to match. -/
def doubled : TextTest where
  kind := .startsWith 1
  subject := ⟨[.input 2 3, .literal ⟨0⟩, .input 2 3]⟩
  pattern := .symbolic ⟨[.literal ⟨0⟩, .literal ⟨0⟩, .input 2 3]⟩

/-- Two letters, of which the first is known. -/
def halfLettered : Assignment :=
  .ofList [(.int 3, 2), (.char 2 0, 107)]

/-- Both letters. -/
def fullyLettered : Assignment :=
  .ofList [(.int 3, 2), (.char 2 0, 107), (.char 2 1, 98)]

theorem doubled_substitute_characterFormula :
    (doubled.characterFormula true halfLettered (.ofTexts ["b"])).vars Empty.elim ≠ [] ∧
      doubled.outcome? fullyLettered (.ofTexts ["b"]) = some true ∧
      Formula.substitute (doubled.characterFormula true halfLettered (.ofTexts ["b"]))
        fullyLettered = .truth ∧
      Formula.substitute (doubled.characterFormula false halfLettered (.ofTexts ["b"]))
        fullyLettered = .falsity := by
  have lengths : ∀ var ∈ doubled.lengthVars, ∃ value, halfLettered.get? var = some value := by
    intro var occurs
    have same : ∀ var ∈ doubled.lengthVars, var = .int 3 := by decide
    exact ⟨2, same var occurs ▸ by decide⟩
  have extension : fullyLettered.Extends halfLettered := by
    intro key value bound
    have listed := VarMap.mem_of_get?_ofList bound
    simp only [List.mem_cons, List.not_mem_nil, or_false, Prod.mk.injEq] at listed
    rcases listed with ⟨rfl, rfl⟩ | ⟨rfl, rfl⟩ <;> decide
  have letters (index : UInt32) (inRange : (index.toNat : Int) < (2 : Int64).toInt) :
      ∃ character, fullyLettered.char? 2 index = some (codeOf character) := by
    have cases : index = 0 ∨ index = 1 := by
      rw [← UInt32.toNat_inj, ← UInt32.toNat_inj]
      change (index.toNat : Int) < 2 at inRange
      change index.toNat = 0 ∨ index.toNat = 1
      omega
    rcases cases with rfl | rfl
    · exact ⟨'k', by decide⟩
    · exact ⟨'b', by decide⟩
  have lettered {text : SymText} (only : ∀ segment ∈ text.segments, segment = .input 2 3 ∨
      segment = .literal ⟨0⟩) : text.Lettered halfLettered fullyLettered := by
    intro symbol length value isInput isValue index inRange
    rcases only _ isInput with same | impossible
    · cases same
      have two : halfLettered.int? 3 = some 2 := by decide
      rw [two, Option.some.injEq] at isValue
      subst isValue
      exact letters index inRange
    · cases impossible
  rcases substitute_characterFormula (by decide) (.ofTexts ["b"]) lengths extension
    (lettered (by decide)) (lettered (by decide)) with ⟨actual, outcome, holds, fails⟩
  have isTrue : doubled.outcome? fullyLettered (.ofTexts ["b"]) = some true := by decide
  rw [isTrue, Option.some.injEq] at outcome
  subst outcome
  exact ⟨by decide, isTrue, holds, fails⟩

end TextTest

/-- The lengths of both sides of a test are bound. -/
def TextTest.Measured (assignment : Assignment) (lexicon : Lexicon) (test : TextTest) : Prop :=
  (∃ cells, test.subject.cells? assignment lexicon = some cells) ∧
    ∃ cells, test.pattern.toText.cells? assignment lexicon = some cells

/-- No comparison is left, and the tests have a property. -/
def LeafRule.testsOnly (test : TextTest → Prop) : LeafRule TextTest where
  linear _ := False
  compare _ _ := False
  test := test

namespace PathCondition

/-- A condition of which only measured tests are left is decided by filling the texts in, and it is
decided as the character layer reads it. -/
theorem substitute_eq_ofBool_lower {condition : PathCondition} {small large : Assignment}
    {lexicon : Lexicon} (extension : large.Extends small)
    (every : condition.Every (.testsOnly fun test =>
      test.Measured small lexicon ∧ ∃ actual, test.outcome? large lexicon = some actual)) :
    condition.substitute large lexicon =
      .ofBool ((condition.lower .characters small lexicon).holdsAt large.valuation Empty.elim) := by
  let answer (test : TextTest) : Bool := (test.outcome? large lexicon).getD false
  have sameReading : (condition.lower .characters small lexicon).holdsAt large.valuation Empty.elim =
      condition.holdsAt large.valuation answer := by
    apply Condition.holdsAt_bindTests every
    rintro test ⟨⟨⟨subject, subjectKnown⟩, pattern, patternKnown⟩, actual, outcome⟩ expected
    have answered : answer test = actual := by simp [answer, outcome]
    rw [answered]
    exact TextTest.holdsAt_characterFormula extension subjectKnown patternKnown outcome expected
  rw [sameReading]
  apply Condition.resolve_eq_ofBool_holdsAt every
  · exact fun sum relation impossible => impossible.elim
  · exact fun left right relation impossible => impossible.elim
  · rintro test ⟨_, actual, outcome⟩
    simp [answer, outcome]

end PathCondition

end Concolic
