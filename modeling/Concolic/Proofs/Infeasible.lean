import Mathlib
import Concolic.Proofs.Feasible

/-!
# A path that cannot be turned aside

If solving at a condition fails although every answer of the solver can be relied on, then no inputs
turn the path aside there, as long as they stay within what can be solved for: strings of printable
characters, and comparisons that leave the 64-bit words nowhere.

Suppose that some inputs did. They meet the integer layer, because that layer says no more than the
conditions. An integer model that they agree with is never refused by the character layer, because
they meet that one as well; so they are never excluded together with a refused model, and they still
meet the integer layer after every retry. Hence no answer can be `unsat`, and the attempts can only
end by using up their budget.
-/

namespace Concolic

open InputRecord

namespace InputRecord

/-- If the input is a string, then its characters are printable and its length has 32 bits. -/
def Printable : InputRecord → Prop
  | .value _ (.text text _) =>
      text.length < 2 ^ 32 ∧ ∀ character ∈ text.toList, 32 ≤ character.toNat ∧ character.toNat ≤ 126
  | _ => True

/-- An assignment gives every recorded input a value that can be solved for. -/
structure Covers (records : List InputRecord) (assignment : Assignment) : Prop where
  visible : ∀ var, Visible records var → ∃ value, assignment.get? var = some value
  narrow : ∀ symbol given, .value symbol (.int given) ∈ records →
    -2 ^ 31 ≤ assignment.valuation (.int symbol) ∧ assignment.valuation (.int symbol) < 2 ^ 31
  lengths : ∀ symbol length, HasText records symbol length →
    0 ≤ assignment.valuation (.int length) ∧ assignment.valuation (.int length) < 2 ^ 32
  characters : ∀ symbol length value, HasText records symbol length →
    assignment.int? length = some value → ∀ index < cellCount value,
      ∃ character, assignment.char? symbol (.ofNat index) = some (codeOf character) ∧
        32 ≤ character.toNat ∧ character.toNat ≤ 126

variable {records inputs : List InputRecord}

/-- Inputs for the same requests, with printable strings, give values that can be solved for. -/
theorem Distinct.covers_values (distinct : Distinct records)
    (sameRequests : inputs.map request = records.map request)
    (printable : ∀ input ∈ inputs, input.Printable) : Covers records (values inputs) := by
  have distinctInputs := distinct.of_requests sameRequests
  have measured {symbol length : UInt32} {text : String}
      (isInput : .value symbol (.text text length) ∈ inputs) :
      (Int64.ofNat text.length).toInt = text.length := by
    have short := (printable _ isInput).1
    exact Int64.toInt_ofNat_of_lt (by omega)
  refine ⟨?_, ?_, ?_, ?_⟩
  · intro var isVisible
    cases var with
    | char symbol index => exact isVisible.elim
    | int id =>
        rcases isVisible with (⟨given, isRecord⟩ | ⟨given, isRecord⟩) | ⟨symbol, hasText⟩
        · obtain ⟨other, isInput⟩ := exists_int_input sameRequests isRecord
          exact ⟨_, distinctInputs.get?_values_int isInput⟩
        · obtain ⟨other, isInput⟩ := exists_long_input sameRequests isRecord
          exact ⟨_, distinctInputs.get?_values_long isInput⟩
        · obtain ⟨text, isInput⟩ := exists_text_input sameRequests hasText
          exact ⟨_, distinctInputs.get?_values_length isInput⟩
  · intro symbol given isRecord
    obtain ⟨other, isInput⟩ := exists_int_input sameRequests isRecord
    rw [Assignment.valuation_of_get? (distinctInputs.get?_values_int isInput), Int32.toInt_toInt64]
    exact ⟨other.le_toInt, other.toInt_lt⟩
  · intro symbol length hasText
    obtain ⟨text, isInput⟩ := exists_text_input sameRequests hasText
    have short := (printable _ isInput).1
    rw [Assignment.valuation_of_get? (distinctInputs.get?_values_length isInput), measured isInput]
    omega
  · intro symbol length value hasText isValue index inRange
    obtain ⟨text, isInput⟩ := exists_text_input sameRequests hasText
    have short := (printable _ isInput).1
    have isLength := distinctInputs.get?_values_length isInput
    have same : value = Int64.ofNat text.length := Option.some.inj (isValue.symm.trans isLength)
    have inText : index < text.toList.length := by
      rw [same, cellCount, measured isInput] at inRange
      rw [String.length_toList]
      omega
    refine ⟨text.toList[index], ?_, (printable _ isInput).2 _ (List.getElem_mem inText)⟩
    exact distinctInputs.get?_values_char isInput short.le (List.getElem?_eq_getElem inText)

end InputRecord

/-- No comparison leaves the 64-bit words, neither as a whole nor in its parts, and the texts of the
tests have lengths that are 64-bit words. -/
def LeafRule.within (assignment : Assignment) (lexicon : Lexicon) : LeafRule TextTest where
  linear sum := FitsWord (sum.valueAt assignment.valuation)
  compare left right := left.Exact assignment.valuation ∧ right.Exact assignment.valuation ∧
    FitsWord (left.valueAt assignment.valuation - right.valueAt assignment.valuation)
  test question := ∀ side ∈ [question.subject, question.pattern.toText], ∀ characters,
    side.concrete? assignment lexicon = some characters → FitsWord characters.length

namespace InputRecord.Covers

variable {records : List InputRecord} {assignment : Assignment} {lexicon : Lexicon}

theorem exists_concrete (covers : Covers records assignment) (lexicon : Lexicon) {text : SymText}
    (admissible : text.Admissible records) :
    ∃ characters, text.concrete? assignment lexicon = some characters := by
  apply SymText.exists_concrete?
  intro symbol length isInput
  have hasText := admissible symbol length isInput
  obtain ⟨value, isValue⟩ := covers.visible (.int length) (.inr ⟨symbol, hasText⟩)
  refine ⟨value, isValue, ?_⟩
  intro index inRange
  obtain ⟨character, isCharacter, _⟩ :=
    covers.characters symbol length value hasText isValue index inRange
  exact ⟨character, isCharacter⟩

theorem sized (covers : Covers records assignment) {text : SymText}
    (admissible : text.Admissible records) : text.Sized assignment := by
  intro var member
  obtain ⟨symbol, length, rfl, hasText⟩ := admissible.hasText_of_mem_lengthVars member
  exact covers.lengths symbol length hasText

/-- Over covered inputs, a condition within the words is exact. -/
theorem exactAt (covers : Covers records assignment) {condition : PathCondition}
    (admissible : condition.Admissible records)
    (within : condition.Every (.within assignment lexicon)) :
    condition.Every (.exactAt assignment lexicon) := by
  refine (Condition.Every.and admissible within).mono ?_ ?_ ?_
  · rintro sum ⟨isVisible, fits⟩
    exact ⟨fun var occurs => covers.visible var (isVisible var occurs), fits⟩
  · rintro left right ⟨isVisible, fits⟩
    refine ⟨fun var occurs => covers.visible var ?_, fits⟩
    rcases List.mem_append.mp occurs with inLeft | inRight
    · exact isVisible.1 var inLeft
    · exact isVisible.2 var inRight
  · rintro test ⟨⟨notRegex, subject, pattern⟩, fits⟩
    obtain ⟨subjectChars, subjectKnown⟩ := covers.exists_concrete lexicon subject
    obtain ⟨patternChars, patternKnown⟩ := covers.exists_concrete lexicon pattern
    have subjectFits := (fits _ (by simp) subjectChars subjectKnown).2
    have patternFits := (fits _ (by simp) patternChars patternKnown).2
    exact ⟨notRegex, covers.sized subject, covers.sized pattern,
      ⟨subjectChars, subjectKnown, by omega⟩, patternChars, patternKnown, by omega⟩

end InputRecord.Covers

/-- Values that can be solved for and turn the path aside. -/
structure Problem.TurnedWithin (problem : Problem) (number : Nat) (assignment : Assignment) :
    Prop where
  covers : Covers problem.records assignment
  exact : ∀ condition ∈ Query.turned problem.conditions number,
    condition.Every (.exactAt assignment problem.lexicon)
  holds : ∀ condition ∈ Query.turned problem.conditions number,
    condition.substitute assignment problem.lexicon = .truth

/-- Adopting a solution succeeds or fails with an error. -/
theorem Problem.adopt_ne_false (problem : Problem) (solution : Assignment) (bench : Bench) :
    (problem.adopt solution bench).1 ≠ .ok false := by
  simp only [adopt]
  split <;> simp

namespace Problem.TurnedWithin

variable {problem : Problem} {number : Nat} {assignment : Assignment} {known : List InputRecord}
  {model : Model} {models : List Model} {integers letters : Query} {extra : Option String}
  {isLength : UInt32 → Prop} {layer : Layer} {base : Assignment} {bench after : Bench}

/-- The bounds of `int` inputs hold in both layers. -/
theorem bounded_ints {query : Query} (within : problem.TurnedWithin number assignment)
    (built : Query.build? problem.conditions number problem.lexicon problem.narrow layer base extra =
      some query) :
    ∀ key ∈ query.boundedInts, Numeral.int32Range.1 ≤ assignment.valuation key ∧
      assignment.valuation key ≤ Numeral.int32Range.2 := by
  intro key isBounded
  obtain ⟨isDeclared, isNarrow⟩ := List.mem_filter.mp isBounded
  cases key with
  | char symbol index => simp at isNarrow
  | int id =>
      rw [(Query.fields_of_build? built).2.1, List.contains_iff_mem] at isNarrow
      obtain ⟨record, isRecord, isId⟩ := List.mem_filterMap.mp isNarrow
      rcases record with _ | _ | ⟨symbol, given | given | given | given⟩ <;>
        simp [narrow?] at isId
      subst isId
      have range := within.covers.narrow symbol given isRecord
      simp only [Numeral.int32Range]
      omega

/-- Such values meet the integer layer. -/
theorem metBy_integers (within : problem.TurnedWithin number assignment)
    (built : Query.build? problem.conditions number problem.lexicon problem.narrow .integers ∅
      extra = some integers) : integers.MetBy assignment.valuation := by
  apply Query.metBy_of_holdsAt built (within.bounded_ints built)
  · intro key isBounded
    rw [Query.boundedChars, (Query.fields_of_build? built).1] at isBounded
    simp at isBounded
  · intro condition isTurned
    exact PathCondition.holdsAt_lower_integers (within.exact condition isTurned)
      (within.holds condition isTurned)

/-- An integer model that such values agree with is a part of them. -/
theorem extends_of_agrees (within : problem.TurnedWithin number assignment)
    (posed : problem.Posed number known)
    (built : Query.build? problem.conditions number problem.lexicon problem.narrow .integers ∅
      extra = some integers)
    (answered : integers.Answered isLength model)
    (agrees : model.agrees assignment.valuation = true) : assignment.Extends (model.onto ∅) := by
  intro var value isBound
  have isVisible := posed.visible_of_bound built (fun var => (answered.bound var).mp) isBound
  obtain ⟨own, isOwn⟩ := within.covers.visible var (isVisible.mono posed.subset)
  have isEntry : (var, value) ∈ model :=
    (Model.mem_of_get?_onto isBound).resolve_right (by simp)
  have sameValue : assignment.valuation var = value.toInt := by
    simpa using List.all_eq_true.mp agrees _ isEntry
  rw [Assignment.valuation_of_get? isOwn, Int64.toInt_inj] at sameValue
  rw [isOwn, sameValue]

/-- Such values meet the character layer of every integer model that is a part of them. -/
theorem metBy_characters (within : problem.TurnedWithin number assignment)
    (posed : problem.Posed number known)
    (integersBuilt : Query.build? problem.conditions number problem.lexicon problem.narrow .integers
      ∅ extra = some integers)
    (integersAnswered : integers.Answered isLength model)
    (extension : assignment.Extends (model.onto ∅))
    (lettersBuilt : Query.build? problem.conditions number problem.lexicon problem.narrow .characters
      (model.onto ∅) (exclusion? []) = some letters) : letters.MetBy assignment.valuation := by
  apply Query.metBy_of_holdsAt lettersBuilt (within.bounded_ints lettersBuilt)
  · intro key isBounded
    rw [Query.boundedChars, (Query.fields_of_build? lettersBuilt).1] at isBounded
    obtain ⟨symbol, length, value, index, hasText, isValue, inRange, rfl, _⟩ :=
      posed.open_of_declared integersBuilt integersAnswered lettersBuilt
        (List.mem_of_mem_filter isBounded)
    obtain ⟨character, isCharacter, range⟩ := within.covers.characters symbol length value
      (hasText.mono posed.subset) (extension _ _ isValue) index inRange
    rw [Assignment.valuation_of_get? isCharacter, toInt_codeOf, charCode]
    simp only [Query.characterRange]
    omega
  · intro condition isTurned
    have measured : (condition.substitute (model.onto ∅) problem.lexicon).Every
        (.testsOnly fun test => test.Measured (model.onto ∅) problem.lexicon ∧
          ∃ actual, test.outcome? assignment problem.lexicon = some actual) := by
      refine (posed.measured integersBuilt integersAnswered isTurned).mono
        (fun _ impossible => impossible) (fun _ _ impossible => impossible) ?_
      rintro test ⟨admissible, isMeasured⟩
      obtain ⟨notRegex, subject, pattern⟩ := admissible.mono posed.subset
      obtain ⟨_, subjectKnown⟩ := within.covers.exists_concrete problem.lexicon subject
      obtain ⟨_, patternKnown⟩ := within.covers.exists_concrete problem.lexicon pattern
      exact ⟨isMeasured, TextTest.exists_outcome? notRegex subjectKnown patternKnown⟩
    have holds := within.holds condition isTurned
    rw [← PathCondition.substitute_substitute condition extension problem.lexicon,
      PathCondition.substitute_eq_ofBool_lower extension measured] at holds
    rw [Query.layerFormula]
    generalize (PathCondition.lower _ _ _ _).holdsAt assignment.valuation Empty.elim = reading
      at holds
    cases reading with
    | true => rfl
    | false => cases holds

/-- A test that the path repeats cannot come out the other way. -/
theorem not_repeatsTest (within : problem.TurnedWithin number assignment) :
    Query.repeatsTest problem.conditions number = false := by
  rw [Bool.eq_false_iff]
  intro repeats
  exact Query.not_turned_of_repeatsTest repeats _ _ within.holds

/-- The integer layer is not refused as long as such values are not excluded. -/
theorem askIntegers_ne_unsat (within : problem.TurnedWithin number assignment)
    (decisive : problem.solver.Decisive)
    (notExcluded : Model.excludes assignment.valuation models = true) :
    problem.askIntegers number (exclusion? models) bench ≠ (.ok .unsat, after) := by
  intro asked
  rw [askIntegers, within.not_repeatsTest, if_neg Bool.false_ne_true] at asked
  obtain ⟨integers, built, refuted⟩ := refuted_of_ask decisive asked
  rw [refuted _ (within.metBy_integers built)] at notExcluded
  cases notExcluded

/-- If the character layer refuses an integer model, then such values do not agree with it. -/
theorem not_agrees_of_unsat (within : problem.TurnedWithin number assignment)
    (posed : problem.Posed number known) (decisive : problem.solver.Decisive) {second : Bench}
    (integersAsked : problem.ask number .integers (exclusion? models) ∅ bench =
      (.ok (.sat model), second))
    (lettersAsked : problem.ask number .characters (exclusion? []) (model.onto ∅) second =
      (.ok .unsat, after)) : model.agrees assignment.valuation = false := by
  have honest : problem.solver.Honest fun _ => False :=
    ⟨decisive.toFaithful, fun _ _ _ _ impossible => impossible.elim⟩
  obtain ⟨integers, integersBuilt, answered⟩ := answered_of_ask honest integersAsked
  obtain ⟨letters, lettersBuilt, refuted⟩ := refuted_of_ask decisive lettersAsked
  by_contra agrees
  have extension := within.extends_of_agrees posed integersBuilt answered (by simpa using agrees)
  have met := within.metBy_characters posed integersBuilt answered extension lettersBuilt
  cases refuted _ met

/-- Attempts that do not turn the path aside, although such values do, use up their budget. -/
theorem budget_le_retries (within : problem.TurnedWithin number assignment)
    (posed : problem.Posed number known) (decisive : problem.solver.Decisive) {budget : Nat}
    {excluded : List Model} (notExcluded : Model.excludes assignment.valuation excluded = true)
    (failed : problem.attempts number budget excluded bench = (.ok false, after)) :
    bench.tally.retries + budget ≤ after.tally.retries := by
  induction budget generalizing excluded bench with
  | zero =>
      cases failed
      exact Nat.le_refl _
  | succ budget ih =>
      simp only [attempts] at failed
      split at failed
      · cases failed
      · rename_i second asked
        exact absurd asked (within.askIntegers_ne_unsat decisive notExcluded)
      · rename_i model second asked
        rw [askIntegers, within.not_repeatsTest, if_neg Bool.false_ne_true] at asked
        split at failed
        · cases failed
        · rename_i characters third lettersAsked
          have adopted := adopt_ne_false problem (characters.onto (model.onto ∅)) third
          exact absurd (congrArg Prod.fst failed) adopted
        · rename_i third lettersAsked
          have disagrees := within.not_agrees_of_unsat posed decisive asked lettersAsked
          have firstRetries := retries_ask problem number .integers (exclusion? excluded) ∅ bench
          have secondRetries := retries_ask problem number .characters none (model.onto ∅) second
          rw [asked] at firstRetries
          rw [lettersAsked] at secondRetries
          split at failed
          · rename_i isEmpty
            rw [List.isEmpty_iff.mp isEmpty] at disagrees
            cases disagrees
          · have stillNotExcluded :
                Model.excludes assignment.valuation (excluded ++ [model]) = true := by
              simp only [Model.excludes, List.all_append, Bool.and_eq_true] at notExcluded ⊢
              exact ⟨notExcluded, by simp [disagrees]⟩
            have bound := ih stillNotExcluded failed
            simp only [Bench.count] at bound firstRetries secondRetries
            omega

end Problem.TurnedWithin

namespace Problem

variable {problem : Problem} {number : Nat} {bench after : Bench} {failure : SolverFailure}

/-- A solver that answers in time fails fatally or not at all. -/
theorem isFatal_of_ask (decisive : problem.solver.Decisive) {layer : Layer} {extra : Option String}
    {assignment : Assignment}
    (asked : problem.ask number layer extra assignment bench = (.error failure, after)) :
    failure.isFatal = true := by
  simp only [ask, send] at asked
  split at asked
  · cases asked
    rfl
  · split at asked
    · cases asked
    · split at asked
      · cases asked
        rfl
      · split at asked
        · rename_i answered
          cases asked
          cases failure with
          | timeout milliseconds => exact absurd answered (decisive.timely _ _ _)
          | io | spawn | protocol text | badAnswer fault | noCondition number => rfl
        · split at asked
          · cases asked
            rfl
          · cases asked

theorem isFatal_of_attempts (decisive : problem.solver.Decisive) {budget : Nat}
    {excluded : List Model}
    (failed : problem.attempts number budget excluded bench = (.error failure, after)) :
    failure.isFatal = true := by
  induction budget generalizing excluded bench with
  | zero => cases failed
  | succ budget ih =>
      simp only [attempts] at failed
      split at failed
      · rename_i asked
        cases failed
        rw [askIntegers] at asked
        split at asked
        · cases asked
        · exact isFatal_of_ask decisive asked
      · cases failed
      · split at failed
        · rename_i asked
          cases failed
          exact isFatal_of_ask decisive asked
        · simp only [adopt] at failed
          split at failed
          · cases failed
            rfl
          · cases failed
        · split at failed
          · cases failed
          · exact ih failed

/-- If no answer is late, then solving fails only if the attempts do. -/
theorem attempts_of_solveAt (decisive : problem.solver.Decisive)
    (infeasible : problem.solveAt number bench = (.ok false, after)) :
    ∃ started failed, problem.attempts number problem.settings.retryBudget [] started =
        (.ok false, failed) ∧
      started.tally.retries = bench.tally.retries ∧
      after.tally.retries = failed.tally.retries := by
  simp only [solveAt] at infeasible
  split at infeasible
  · rename_i found failed attempted
    simp only [Prod.mk.injEq, Except.ok.injEq] at infeasible
    obtain ⟨rfl, rfl⟩ := infeasible
    exact ⟨_, failed, attempted, rfl, rfl⟩
  · rename_i attempted
    rw [isFatal_of_attempts decisive attempted] at infeasible
    simp at infeasible

end Problem

/-- Where solving at an open branch of a recorded run fails before its retries are used up, no inputs
turn the run aside there: whatever is given for the same requests, with printable strings and with
comparisons that stay within the 64-bit words, some earlier condition is not true or that of the
branch is not false. -/
theorem Recording.Recorded.not_turnedBy_of_solveAt {recording : Recording}
    (recorded : recording.Recorded) {branch : Branch}
    (isStep : .branch branch ∈ recording.trail.steps) {number : Nat}
    (isOpen : branch.open? = some number) {solver : Solver} (decisive : solver.Decisive)
    {settings : SolverSettings} {inputsFile : String} {bench after : Bench}
    (infeasible : (Problem.ofRecording solver settings inputsFile recording).solveAt number bench =
      (.ok false, after))
    (retriesLeft : after.tally.retries < bench.tally.retries + settings.retryBudget)
    {inputs : List InputRecord}
    (sameRequests : inputs.map request = recording.records.map request)
    (printable : ∀ input ∈ inputs, input.Printable)
    (within : ∀ condition ∈ recording.conditions.take (number + 1),
      condition.Every (.within (values inputs) recording.lexicon)) :
    ¬Query.TurnedBy recording.conditions number recording.lexicon (values inputs) := by
  intro isTurned
  have invariant := recorded.invariant
  have turnable := invariant.turnable branch isStep number isOpen
  obtain ⟨known, posed⟩ := turnable.posed invariant.distinct solver settings inputsFile
  have covers := invariant.distinct.covers_values sameRequests printable
  have turnedWithin : (Problem.ofRecording solver settings inputsFile recording).TurnedWithin number
      (values inputs) := by
    refine ⟨covers, ?_, (Query.turnedBy_iff posed.inRange).mp isTurned⟩
    intro condition member
    exact covers.exactAt ((posed.admissible condition member).mono posed.subset)
      (Query.every_turned within condition member)
  obtain ⟨started, failed, attempted, sameStart, sameEnd⟩ :=
    Problem.attempts_of_solveAt decisive infeasible
  have budget := turnedWithin.budget_le_retries posed decisive (by rfl) attempted
  simp only [Problem.ofRecording] at budget
  omega

namespace Recording

/-- A run that reads a string of at most one character and finds that it starts with `b` and ends
with `b`. -/
def echo : Recording :=
  ((start ["b"] [] {} 1 (.ofTexts ["b"])).text.2.branch true
    (some (.test true
      { kind := .startsWith 0, subject := .input 1 2, pattern := .literal ⟨0⟩ })) 1).branch true
    (some (.test true { kind := .endsWith, subject := .input 1 2, pattern := .literal ⟨0⟩ })) 2

theorem recorded_echo : echo.Recorded := by
  have admissible (kind : TestKind) (notRegex : kind ≠ .regex) (records : List InputRecord)
      (hasText : HasText records 1 2) :
      ∀ own ∈ some (Condition.test true
          { kind, subject := .input 1 2, pattern := .literal ⟨0⟩ : TextTest }),
        PathCondition.Admissible records own := by
    simp only [Option.mem_some_iff, forall_eq']
    refine ⟨notRegex, ?_, ?_⟩
    · intro symbol length isInput
      cases List.mem_singleton.mp isInput
      exact hasText
    · intro symbol length isInput
      cases List.mem_singleton.mp isInput
  have hasText : HasText (start ["b"] [] {} 1 (.ofTexts ["b"])).text.2.records 1 2 :=
    ⟨"b", by simp [records_text, start]⟩
  refine .branch (.branch (.text (.start _ _ _ _ _) ?_ ?_) _ _ _ ?_) _ _ _ ?_
  · exact (by decide : 1 + 2 < 2 ^ 32)
  · exact (by decide : "b".length < 2 ^ 63)
  · exact admissible _ (by simp) _ hasText
  · exact admissible _ (by simp) _ hasText

/-- What is left to ask of the only character once the length is 1: it would have to be a `b` and not
to be one. -/
def echoLetters : Query where
  layer := .characters
  narrow := []
  assertions := [.truth, .truth, .linear ((Linear.ofVar (.char 1 0)).plusConstant (-98)) .eq]
  extra := none
  goal := .linear ((Linear.ofVar (.char 1 0)).plusConstant (-98)) .ne
  isTrivial := false

/-- What is asked of the length, without the given models: only 1 is possible. -/
def echoLength (models : List Model) : Query where
  layer := .integers
  narrow := []
  assertions := [.linear (.ofVar (.int 2)) .ge,
    .linear ((Linear.ofVar (.int 2)).plusConstant (-1)) .le,
    .linear ((Linear.ofVar (.int 2)).plusConstant (-1)) .ge]
  extra := Problem.exclusion? models
  goal := .truth
  isTrivial := false

/-- The answers of a solver that turns that run aside in vain. -/
def echoAnswers : List (String × List String) :=
  [((echoLength []).text, ["sat", "x2 : INT = 1;"]), (echoLetters.text, ["unsat"]),
    ((echoLength [[(.int 2, 1)]]).text, ["unsat"])]

theorem decisive_echoAnswers : (Solver.ofTable echoAnswers).Decisive := by
  apply Solver.decisive_ofTable (by decide +kernel)
  simp only [echoAnswers, List.mem_cons, List.not_mem_nil, or_false]
  rintro entry (rfl | rfl | rfl) understood valuation satisfied
  · revert understood
    decide +kernel
  · have noExclusion : echoLetters.extra = Problem.exclusion? [] := rfl
    have met := ((Query.satisfies_and_declared noExclusion valuation).1.mp satisfied).1
    have isLetter := met.assertions _ (List.mem_of_getElem? (i := 2) rfl)
    have isNoLetter := met.goal
    simp only [echoLetters, Condition.holdsAt, Relation.holds, bne_iff_ne] at isLetter isNoLetter
    exact isNoLetter (by simpa using isLetter)
  · have exclusion : (echoLength [[(.int 2, 1)]]).extra = Problem.exclusion? [[(.int 2, 1)]] := rfl
    obtain ⟨met, excluded⟩ := (Query.satisfies_and_declared exclusion valuation).1.mp satisfied
    have atMost := met.assertions _ (List.mem_of_getElem? (i := 1) rfl)
    have atLeast := met.assertions _ (List.mem_of_getElem? (i := 2) rfl)
    have isShifted : ((Linear.ofVar (.int 2)).plusConstant (-1)).valueAt valuation =
        valuation (.int 2) - 1 := by
      rw [Linear.valueAt_plusConstant, Linear.valueAt_ofVar]
      rfl
    simp only [Condition.holdsAt, Relation.holds, isShifted, decide_eq_true_eq] at atMost atLeast
    simp [Model.excludes, Model.agrees] at excluded
    omega

/-- A run that reads one `c` is not the other side either, and no other input is. One retry told so. -/
theorem echo_not_turnedBy :
    ∃ after, (Problem.ofRecording (.ofTable echoAnswers) {} "inputs" echo).solveAt 3 {} =
        (.ok false, after) ∧
      after.tally.retries = 1 ∧
      ¬Query.TurnedBy echo.conditions 3 echo.lexicon (values [.value 1 (.text "c" 2)]) := by
  have isStep : .branch { taken := true, condition := some 3, site := 2 } ∈ echo.trail.steps := by
    decide +kernel
  have fails : ((Problem.ofRecording (.ofTable echoAnswers) {} "inputs" echo).solveAt 3
      {}).1 = .ok false := by decide +kernel
  have oneRetry : ((Problem.ofRecording (.ofTable echoAnswers) {} "inputs" echo).solveAt 3
      {}).2.tally.retries = 1 := by decide +kernel
  generalize solved : (Problem.ofRecording (.ofTable echoAnswers) {} "inputs" echo).solveAt 3
    {} = result at fails oneRetry ⊢
  obtain ⟨outcome, after⟩ := result
  cases fails
  refine ⟨after, rfl, oneRetry, ?_⟩
  have sameRequests : [InputRecord.value 1 (.text "c" 2)].map request =
      echo.records.map request := by
    have records : echo.records = (start ["b"] [] {} 1 (.ofTexts ["b"])).text.2.records := rfl
    simp [records, records_text, start, request]
  apply Recorded.not_turnedBy_of_solveAt recorded_echo isStep rfl decisive_echoAnswers solved
    (oneRetry.trans_lt (by decide)) sameRequests
  · intro input isInput
    cases List.mem_singleton.mp isInput
    refine ⟨by decide, ?_⟩
    intro character isCharacter
    obtain rfl : character = 'c' := by simpa using isCharacter
    decide
  · have conditions : echo.conditions.take (3 + 1) =
        [lowerGuard 2, upperGuard 2 1,
          .test true { kind := .startsWith 0, subject := .input 1 2, pattern := .literal ⟨0⟩ },
          .test true { kind := .endsWith, subject := .input 1 2, pattern := .literal ⟨0⟩ }] := by
      decide +kernel
    have short : ∀ side ∈ [SymText.input 1 2, .literal ⟨0⟩], ∀ characters,
        side.concrete? (values [.value 1 (.text "c" 2)]) echo.lexicon = some characters →
          FitsWord characters.length := by
      have subject : (SymText.input 1 2).concrete? (values [.value 1 (.text "c" 2)]) echo.lexicon =
          some ['c'] := by decide +kernel
      have pattern : (SymText.literal ⟨0⟩).concrete? (values [.value 1 (.text "c" 2)])
          echo.lexicon = some ['b'] := by decide +kernel
      simp only [List.forall_mem_cons, subject, pattern, Option.some.injEq, forall_eq']
      exact ⟨by decide, by decide, by simp⟩
    rw [conditions]
    simp only [List.forall_mem_cons]
    refine ⟨?_, ?_, short, short, by simp⟩
    · exact (by decide +kernel : FitsWord ((Linear.ofVar (.int 2)).valueAt
        (values [.value 1 (.text "c" 2)]).valuation))
    · exact (by decide +kernel : FitsWord (((Linear.ofVar (.int 2)).plusConstant (-1)).valueAt
        (values [.value 1 (.text "c" 2)]).valuation))

end Recording

end Concolic
