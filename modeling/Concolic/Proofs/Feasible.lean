import Mathlib
import Concolic.Proofs.Files
import Concolic.Proofs.Recorded
import Concolic.Proofs.Turning

/-!
# A path that is turned aside turns aside

If solving at a condition succeeds, then the lines it wrote make every earlier condition true and
that condition false. The argument follows the two layers. The integer model binds every variable of
the integer layer and, because of the guards, the lengths of all strings; so under it nothing is
left of the conditions but tests on texts of known lengths. For these the character layer is exact.
The written lines denote values that extend the integer model and agree with the character model on
the characters it mentions, and what no model mentions is filled in without effect.
-/

namespace Concolic

open InputRecord

/-- The conditions that a turn makes true are about some of the recorded inputs, and the lengths of
the strings among these are guarded. -/
structure Problem.Posed (problem : Problem) (number : Nat) (known : List InputRecord) : Prop where
  inRange : number < problem.conditions.length
  distinct : Distinct problem.records
  subset : known ⊆ problem.records
  admissible : ∀ condition ∈ Query.turned problem.conditions number, condition.Admissible known
  guarded : ∀ symbol length, HasText known symbol length →
    Recording.lowerGuard length ∈ Query.turned problem.conditions number

/-- The length variables of strings. -/
def InputRecord.IsLength (records : List InputRecord) (length : UInt32) : Prop :=
  ∃ symbol, HasText records symbol length

/-- A condition that may be turned aside in a recording poses a problem. -/
theorem Recording.Turnable.posed {recording : Recording} {number : Nat}
    (turnable : recording.Turnable number) (distinct : Distinct recording.records)
    (solver : Solver) (settings : SolverSettings) (inputsFile : String) :
    ∃ known, (Problem.ofRecording solver settings inputsFile recording).Posed number known := by
  obtain ⟨inRange, known, isKnown, admissible, guarded⟩ := turnable
  refine ⟨known, inRange, distinct, isKnown.subset, Query.every_turned admissible, ?_⟩
  intro symbol length hasText
  exact List.mem_append_left _ (guarded symbol length hasText)

/-- An adopted solution is kept, and its lines are in the input file. -/
theorem Problem.written_of_adopt {problem : Problem} {solution : Assignment} {bench after : Bench}
    (adopted : problem.adopt solution bench = (.ok true, after)) :
    after.solution = some solution ∧ after.directory.read problem.inputsFile =
      .ok (Text.unlines (lines problem.records solution problem.format)) := by
  simp only [adopt] at adopted
  split at adopted
  · simp at adopted
  · rename_i directory isWritten
    simp only [Prod.mk.injEq, true_and] at adopted
    subst adopted
    exact ⟨rfl, read_of_writeInputs isWritten⟩

namespace Problem.Posed

variable {problem : Problem} {number : Nat} {known : List InputRecord} {model : Model}
  {integers : Query} {extra : Option String} {isLength : UInt32 → Prop}

/-- An integer model binds visible variables only. -/
theorem visible_of_bound (posed : problem.Posed number known)
    (built : Query.build? problem.conditions number problem.lexicon problem.narrow .integers ∅
      extra = some integers)
    (bound : ∀ var, (∃ value, (model.onto ∅).get? var = some value) → var ∈ integers.declared.keys)
    {var : Variable} {value : Int64} (isBound : (model.onto ∅).get? var = some value) :
    Visible known var := by
  obtain ⟨condition, isTurned, occurs⟩ :=
    (Query.mem_declared_iff built).mp (bound var ⟨value, isBound⟩)
  exact ((posed.admissible condition isTurned).substitute ∅).visible_of_mem_integers occurs

/-- The integer layer of a lower guard is the guard itself. -/
theorem layerFormula_lowerGuard (lexicon : Lexicon) (length : UInt32) :
    Query.layerFormula lexicon .integers ∅ (Recording.lowerGuard length) =
      .linear (.ofVar (.int length)) .ge :=
  rfl

/-- The guards make an integer model bind the length of every string that matters. -/
theorem exists_length (posed : problem.Posed number known)
    (built : Query.build? problem.conditions number problem.lexicon problem.narrow .integers ∅
      extra = some integers)
    (answered : integers.Answered isLength model) {symbol length : UInt32}
    (hasText : HasText known symbol length) :
    ∃ value, (model.onto ∅).int? length = some value ∧ 0 ≤ value.toInt := by
  have isTurned := posed.guarded symbol length hasText
  have isDeclared : .int length ∈ integers.declared.keys := by
    refine (Query.mem_declared_iff built).mpr ⟨_, isTurned, ?_⟩
    rw [layerFormula_lowerGuard]
    simp [Condition.vars]
  obtain ⟨value, isValue⟩ := (answered.bound (.int length)).mpr isDeclared
  refine ⟨value, isValue, ?_⟩
  have holds := Query.holdsAt_of_metBy built answered.met isTurned
  rw [layerFormula_lowerGuard] at holds
  simpa [Condition.holdsAt, Relation.holds, Assignment.valuation_of_get? isValue] using holds

/-- Under an integer model nothing is left of the conditions but tests on measured texts. -/
theorem measured (posed : problem.Posed number known)
    (built : Query.build? problem.conditions number problem.lexicon problem.narrow .integers ∅
      extra = some integers)
    (answered : integers.Answered isLength model) {condition : PathCondition}
    (isTurned : condition ∈ Query.turned problem.conditions number) :
    (condition.substitute (model.onto ∅) problem.lexicon).Every (.testsOnly fun test =>
      test.Admissible known ∧ test.Measured (model.onto ∅) problem.lexicon) := by
  apply PathCondition.measured_of_covers (posed.admissible condition isTurned)
  · intro var occurs
    rw [answered.bound]
    exact (Query.mem_declared_iff built).mpr ⟨condition, isTurned, occurs⟩
  · intro symbol length hasText
    obtain ⟨value, isValue, _⟩ := posed.exists_length built answered hasText
    exact ⟨value, isValue⟩

/-- The character layer declares open characters only. -/
theorem open_of_declared {letters : Query} (posed : problem.Posed number known)
    (integersBuilt : Query.build? problem.conditions number problem.lexicon problem.narrow .integers
      ∅ extra = some integers)
    (integersAnswered : integers.Answered isLength model)
    (lettersBuilt : Query.build? problem.conditions number problem.lexicon problem.narrow .characters
      (model.onto ∅) (exclusion? []) = some letters)
    {var : Variable} (isDeclared : var ∈ letters.declared.keys) :
    ∃ symbol length value index, HasText known symbol length ∧
      (model.onto ∅).int? length = some value ∧ index < cellCount value ∧
      var = .char symbol (.ofNat index) ∧ (model.onto ∅).get? var = none := by
  obtain ⟨condition, isTurned, occurs⟩ := (Query.mem_declared_iff lettersBuilt).mp isDeclared
  apply PathCondition.open_of_mem_characters _ occurs
  exact (posed.measured integersBuilt integersAnswered isTurned).mono (fun _ impossible => impossible)
    (fun _ _ impossible => impossible) fun _ ofTest => ofTest.1

/-- The symbol of a string is no variable of a comparison. -/
theorem not_visible_symbol (posed : problem.Posed number known) {symbol length : UInt32}
    {text : String} (isRecord : .value symbol (.text text length) ∈ problem.records) :
    ¬Visible known (.int symbol) := by
  have ownId : symbol ∈ (InputRecord.value symbol (.text text length)).ids := by simp [ids]
  have same {other : InputRecord} (isOther : other ∈ known) (hasId : symbol ∈ other.ids) :
      other = .value symbol (.text text length) :=
    posed.distinct.eq_of_mem_ids (posed.subset isOther) isRecord hasId ownId
  rintro ((⟨given, isOther⟩ | ⟨given, isOther⟩) | ⟨otherSymbol, given, isOther⟩)
  · exact InputValue.noConfusion (InputRecord.value.inj (same isOther (by simp [ids]))).2
  · exact InputValue.noConfusion (InputRecord.value.inj (same isOther (by simp [ids]))).2
  · have isSame := same isOther (by simp [ids])
    simp only [InputRecord.value.injEq, InputValue.text.injEq] at isSame
    have oneEach := (List.nodup_flatMap.mp posed.distinct).1 _ isRecord
    simp [ids, isSame.2.2] at oneEach

section Solution

variable {letters : Query} {characters : Model}
  (posed : problem.Posed number known)
  (integersBuilt : Query.build? problem.conditions number problem.lexicon problem.narrow .integers ∅
    extra = some integers)
  (integersAnswered : integers.Answered (IsLength problem.records) model)
  (lettersBuilt : Query.build? problem.conditions number problem.lexicon problem.narrow .characters
    (model.onto ∅) (exclusion? []) = some letters)
  (lettersAnswered : letters.Answered (IsLength problem.records) characters)

include posed integersBuilt integersAnswered lettersBuilt lettersAnswered

theorem solution_int (id : UInt32) :
    (characters.onto (model.onto ∅)).int? id = (model.onto ∅).int? id := by
  have unmentioned : (characters.onto ∅).get? (.int id) = none := by
    by_contra isBound
    obtain ⟨value, isValue⟩ := Option.ne_none_iff_exists'.mp isBound
    have isDeclared := (lettersAnswered.bound (.int id)).mp ⟨value, isValue⟩
    obtain ⟨symbol, length, size, index, _, _, _, impossible, _⟩ :=
      posed.open_of_declared integersBuilt integersAnswered lettersBuilt isDeclared
    cases impossible
  rw [Assignment.int?, Model.get?_onto, unmentioned]
  rfl

/-- The symbol of a string is not solved, so its line is made of characters. -/
theorem solution_symbol {symbol length : UInt32} {text : String}
    (isRecord : .value symbol (.text text length) ∈ problem.records) :
    (characters.onto (model.onto ∅)).int? symbol = none := by
  rw [posed.solution_int integersBuilt integersAnswered lettersBuilt lettersAnswered]
  by_contra isBound
  obtain ⟨value, isValue⟩ := Option.ne_none_iff_exists'.mp isBound
  exact posed.not_visible_symbol isRecord
    (posed.visible_of_bound integersBuilt (fun var => (integersAnswered.bound var).mp) isValue)

/-- A string that matters is written with its solved length. -/
theorem exists_text {symbol length : UInt32} (hasText : HasText known symbol length) :
    ∃ previous value, .value symbol (.text previous length) ∈ problem.records ∧
      (model.onto ∅).int? length = some value ∧ value.toInt < 2 ^ 32 ∧
      (InputValue.solvedLength (characters.onto (model.onto ∅)) length previous.toList : Int) =
        value.toInt := by
  obtain ⟨previous, isKnown⟩ := hasText
  obtain ⟨value, isValue, nonneg⟩ :=
    posed.exists_length integersBuilt integersAnswered ⟨previous, isKnown⟩
  have short := integersAnswered.short length value ⟨symbol, previous, posed.subset isKnown⟩ isValue
  refine ⟨previous, value, posed.subset isKnown, isValue, short, ?_⟩
  rw [InputValue.solvedLength,
    posed.solution_int integersBuilt integersAnswered lettersBuilt lettersAnswered, isValue]
  exact Int.toNat_of_nonneg nonneg

/-- The written lines denote what the integer model says. -/
theorem nextValues_extends (format : InputFormat) :
    (nextValues problem.records (characters.onto (model.onto ∅)) format).Extends
      (model.onto ∅) := by
  intro var value isBound
  have sameInt := posed.solution_int integersBuilt integersAnswered lettersBuilt lettersAnswered
  have isVisible := posed.visible_of_bound integersBuilt
    (fun var => (integersAnswered.bound var).mp) isBound
  cases var with
  | char symbol index => exact isVisible.elim
  | int id =>
      have isSolved : (characters.onto (model.onto ∅)).int? id = some value :=
        (sameInt id).trans isBound
      rcases isVisible with (⟨given, isKnown⟩ | ⟨given, isKnown⟩) | ⟨symbol, hasText⟩
      · have isNarrow : .int id ∈ integers.boundedInts := by
          refine List.mem_filter.mpr ⟨(integersAnswered.bound _).mp ⟨value, isBound⟩, ?_⟩
          rw [(Query.fields_of_build? integersBuilt).2.1]
          simp only [List.contains_iff_mem]
          exact List.mem_filterMap.mpr ⟨_, posed.subset isKnown, rfl⟩
        have range := integersAnswered.met.ints _ isNarrow
        rw [Assignment.valuation_of_get? isBound] at range
        simp only [Numeral.int32Range] at range
        exact posed.distinct.nextValues_int_of_solved (posed.subset isKnown) isSolved
          (by omega) (by omega)
      · exact posed.distinct.nextValues_long_of_solved (posed.subset isKnown) isSolved
      · obtain ⟨previous, own, isRecord, isOwn, short, solvedLength⟩ :=
          posed.exists_text integersBuilt integersAnswered lettersBuilt lettersAnswered hasText
        have same : own = value := Option.some.inj (isOwn.symm.trans isBound)
        have unsolved := posed.solution_symbol integersBuilt integersAnswered lettersBuilt
          lettersAnswered isRecord
        have written : (nextValues problem.records (characters.onto (model.onto ∅)) format).get?
            (.int id) = _ := posed.distinct.nextValues_length isRecord unsolved
        rw [written, Option.some.injEq, ← same, ← Int64.toInt_inj, Int64.toInt_ofNat_of_lt]
        · exact solvedLength
        · omega

/-- The written characters of a string that matters. -/
theorem nextValues_char (format : InputFormat) {symbol length : UInt32} {value : Int64}
    (hasText : HasText known symbol length) (isValue : (model.onto ∅).int? length = some value)
    {index : Nat} (inRange : index < cellCount value) :
    ∃ previous, (nextValues problem.records (characters.onto (model.onto ∅)) format).char? symbol
      (.ofNat index) = some (codeOf (InputValue.solvedChar (characters.onto (model.onto ∅)) format
        symbol previous index)) := by
  obtain ⟨previous, own, isRecord, isOwn, short, solvedLength⟩ :=
    posed.exists_text integersBuilt integersAnswered lettersBuilt lettersAnswered hasText
  have same : own = value := Option.some.inj (isOwn.symm.trans isValue)
  have unsolved := posed.solution_symbol integersBuilt integersAnswered lettersBuilt
    lettersAnswered isRecord
  refine ⟨previous.toList, posed.distinct.nextValues_char isRecord unsolved ?_ ?_⟩
  · omega
  · simp only [cellCount] at inRange
    rw [same] at solvedLength short
    omega

/-- The written lines make every text concrete. -/
theorem exists_concrete (format : InputFormat) {text : SymText} (admissible : text.Admissible known) :
    ∃ written, text.concrete?
      (nextValues problem.records (characters.onto (model.onto ∅)) format) problem.lexicon =
        some written := by
  apply SymText.exists_concrete?
  intro symbol length isInput
  have hasText := admissible symbol length isInput
  obtain ⟨value, isValue, _⟩ := posed.exists_length integersBuilt integersAnswered hasText
  refine ⟨value, posed.nextValues_extends integersBuilt integersAnswered lettersBuilt
    lettersAnswered format _ _ isValue, ?_⟩
  intro index inRange
  obtain ⟨previous, isWritten⟩ := posed.nextValues_char integersBuilt integersAnswered lettersBuilt
    lettersAnswered format hasText isValue inRange
  exact ⟨_, isWritten⟩

/-- The written lines denote what the character model says. -/
theorem nextValues_letters (format : InputFormat) {var : Variable}
    (isDeclared : var ∈ letters.declared.keys) :
    (characters.onto ∅).valuation var =
      (nextValues problem.records (characters.onto (model.onto ∅)) format).valuation var := by
  obtain ⟨symbol, length, value, index, hasText, isValue, inRange, rfl, isOpen⟩ :=
    posed.open_of_declared integersBuilt integersAnswered lettersBuilt isDeclared
  obtain ⟨code, isCode⟩ := (lettersAnswered.bound _).mpr isDeclared
  have isBounded : .char symbol (.ofNat index) ∈ letters.boundedChars := by
    rw [Query.boundedChars, (Query.fields_of_build? lettersBuilt).1]
    exact List.mem_filter.mpr ⟨isDeclared, rfl⟩
  have range := lettersAnswered.met.chars _ isBounded
  rw [Assignment.valuation_of_get? isCode] at range
  simp only [Query.characterRange] at range
  obtain ⟨character, isCharacter⟩ := exists_charCode_eq
    (show 0 ≤ code.toInt by omega) (by omega)
  have solved : (characters.onto (model.onto ∅)).char? symbol (.ofNat index) = some code := by
    rw [Assignment.char?, Model.get?_onto, isCode]
    rfl
  obtain ⟨previous, isWritten⟩ := posed.nextValues_char integersBuilt integersAnswered lettersBuilt
    lettersAnswered format hasText isValue inRange
  have asSolved : InputValue.solvedChar (characters.onto (model.onto ∅)) format symbol previous
      index = character := by
    simp [InputValue.solvedChar, solved, scalar?_eq_some_iff.mpr isCharacter.symm]
  rw [asSolved] at isWritten
  rw [Assignment.valuation_of_get? isCode, Assignment.valuation_of_get? isWritten, toInt_codeOf,
    isCharacter]

/-- Under the written lines every condition that the turn asks for is true. -/
theorem substitute_nextValues (format : InputFormat) {condition : PathCondition}
    (isTurned : condition ∈ Query.turned problem.conditions number) :
    condition.substitute (nextValues problem.records (characters.onto (model.onto ∅)) format)
      problem.lexicon = .truth := by
  have extension := posed.nextValues_extends integersBuilt integersAnswered lettersBuilt
    lettersAnswered format
  have measured : (condition.substitute (model.onto ∅) problem.lexicon).Every
      (.testsOnly fun test => test.Measured (model.onto ∅) problem.lexicon ∧
        ∃ actual, test.outcome?
          (nextValues problem.records (characters.onto (model.onto ∅)) format) problem.lexicon =
            some actual) := by
    refine (posed.measured integersBuilt integersAnswered isTurned).mono
      (fun _ impossible => impossible) (fun _ _ impossible => impossible) ?_
    rintro test ⟨admissible, isMeasured⟩
    obtain ⟨subject, subjectKnown⟩ := posed.exists_concrete integersBuilt integersAnswered
      lettersBuilt lettersAnswered format admissible.2.1
    obtain ⟨pattern, patternKnown⟩ := posed.exists_concrete integersBuilt integersAnswered
      lettersBuilt lettersAnswered format admissible.2.2
    exact ⟨isMeasured, TextTest.exists_outcome? admissible.1 subjectKnown patternKnown⟩
  have holds := Query.holdsAt_of_metBy lettersBuilt lettersAnswered.met isTurned
  have sameReading :
      (Query.layerFormula problem.lexicon .characters (model.onto ∅) condition).holdsAt
          (characters.onto ∅).valuation Empty.elim =
        (Query.layerFormula problem.lexicon .characters (model.onto ∅) condition).holdsAt
          (nextValues problem.records (characters.onto (model.onto ∅)) format).valuation
          Empty.elim :=
    Condition.holdsAt_congr fun var occurs =>
      posed.nextValues_letters integersBuilt integersAnswered lettersBuilt lettersAnswered format
        ((Query.mem_declared_iff lettersBuilt).mpr ⟨condition, isTurned, occurs⟩)
  rw [sameReading, Query.layerFormula] at holds
  rw [← PathCondition.substitute_substitute condition extension problem.lexicon,
    PathCondition.substitute_eq_ofBool_lower extension measured, holds]
  rfl

end Solution

/-- A solution that is adopted turns the path aside. -/
theorem turnedBy_of_attempts (posed : problem.Posed number known)
    (honest : problem.solver.Honest (IsLength problem.records)) {budget : Nat}
    {excluded : List Model} {bench after : Bench}
    (found : problem.attempts number budget excluded bench = (.ok true, after)) :
    ∃ solution, after.solution = some solution ∧
      after.directory.read problem.inputsFile =
        .ok (Text.unlines (lines problem.records solution problem.format)) ∧
      Query.TurnedBy problem.conditions number problem.lexicon
        (nextValues problem.records solution problem.format) := by
  obtain ⟨models, model, characters, first, second, third, integersAsked, lettersAsked, adopted⟩ :=
    exists_answers_of_attempts found
  obtain ⟨integers, integersBuilt, integersAnswered⟩ := answered_of_ask honest integersAsked
  obtain ⟨letters, lettersBuilt, lettersAnswered⟩ := answered_of_ask honest lettersAsked
  obtain ⟨isSolution, isWritten⟩ := written_of_adopt adopted
  refine ⟨characters.onto (model.onto ∅), isSolution, isWritten, ?_⟩
  rw [Query.turnedBy_iff posed.inRange]
  intro condition isTurned
  exact posed.substitute_nextValues integersBuilt integersAnswered lettersBuilt lettersAnswered
    problem.format isTurned

end Problem.Posed

/-- Solving succeeds only if the attempts do, and adds nothing to them but counts. -/
theorem Problem.exists_attempts_of_solveAt {problem : Problem} {number : Nat} {bench after : Bench}
    (feasible : problem.solveAt number bench = (.ok true, after)) :
    ∃ started solved, problem.attempts number problem.settings.retryBudget [] started =
        (.ok true, solved) ∧
      after.directory = solved.directory ∧ after.solution = solved.solution := by
  simp only [solveAt] at feasible
  split at feasible
  · rename_i found solved attempted
    simp only [Prod.mk.injEq, Except.ok.injEq] at feasible
    obtain ⟨rfl, rfl⟩ := feasible
    exact ⟨_, solved, attempted, rfl, rfl⟩
  · split at feasible <;> simp at feasible

theorem Problem.Posed.turned_of_solveAt {problem : Problem} {number : Nat}
    {known : List InputRecord} (posed : problem.Posed number known)
    (honest : problem.solver.Honest (IsLength problem.records)) {bench after : Bench}
    (feasible : problem.solveAt number bench = (.ok true, after)) :
    ∃ solution, after.solution = some solution ∧
      after.directory.read problem.inputsFile =
        .ok (Text.unlines (lines problem.records solution problem.format)) ∧
      Query.TurnedBy problem.conditions number problem.lexicon
        (nextValues problem.records solution problem.format) := by
  rcases exists_attempts_of_solveAt feasible with
    ⟨started, solved, attempted, sameDirectory, sameSolution⟩
  rw [sameDirectory, sameSolution]
  exact posed.turnedBy_of_attempts honest attempted

/-- Where solving at an open branch of a recorded run succeeds, the lines it wrote turn the run aside
there: what the next run reads from them makes every earlier condition true and that of the branch
false. -/
theorem Recording.Recorded.turnedBy_of_solveAt {recording : Recording}
    (recorded : recording.Recorded) {branch : Branch}
    (isStep : .branch branch ∈ recording.trail.steps) {number : Nat}
    (isOpen : branch.open? = some number) {solver : Solver}
    (honest : solver.Honest (IsLength recording.records)) {settings : SolverSettings}
    {inputsFile : String} {bench after : Bench}
    (feasible : (Problem.ofRecording solver settings inputsFile recording).solveAt number bench =
      (.ok true, after)) :
    ∃ solution, after.solution = some solution ∧
      after.directory.read inputsFile =
        .ok (Text.unlines (lines recording.records solution recording.format)) ∧
      Query.TurnedBy recording.conditions number recording.lexicon
        (nextValues recording.records solution recording.format) := by
  obtain ⟨known, posed⟩ := (recorded.invariant.turnable branch isStep number isOpen).posed
    recorded.invariant.distinct solver settings inputsFile
  exact posed.turned_of_solveAt honest feasible

namespace Recording

/-- A run that reads a number and a string and finds that the string starts with `h`. -/
def greeting : Recording :=
  (start ["7", "hi"] [] {} 100 (.ofTexts ["h"])).int.2.2.text.2.branch true
    (some (.test true
      { kind := .startsWith 0, subject := .input 2 3, pattern := .literal ⟨0⟩ })) 9

theorem recorded_greeting : greeting.Recorded := by
  refine .branch (.text (.int (.start _ _ _ _ _) ?_) ?_ ?_) _ _ _ ?_
  · exact (by decide : 1 + 1 < 2 ^ 32)
  · exact (by decide : 2 + 2 < 2 ^ 32)
  · exact (by decide : "hi".length < 2 ^ 63)
  · simp only [Option.mem_some_iff, forall_eq']
    refine ⟨by simp, ?_, ?_⟩
    · intro symbol length isInput
      cases List.mem_singleton.mp isInput
      exact ⟨"hi", by simp [records_text, start, int, takeInput]⟩
    · intro symbol length isInput
      cases List.mem_singleton.mp isInput

/-- The texts that a solver is sent to turn that run aside, with a length and a letter that do. -/
def greetingAnswers : List (String × List String) :=
  [("x3 : INT;\nASSERT x3*(1) >= 0;\nASSERT x3*(1)+(-100) <= 0;\n" ++
      "CHECKSAT  TRUE ;\nCOUNTERMODEL;\n", ["sat", "x3 : INT = 3;"]),
    ("x2__0 : INT;\nASSERT (x2__0 >= 32) AND (x2__0 <= 126);\n" ++
      "ASSERT  TRUE ;\nASSERT  TRUE ;\nCHECKSAT x2__0*(1)+(-104) /= 0;\nCOUNTERMODEL;\n",
      ["sat", "x2__0 : INT = 74;"])]

/-- The next run reads `7` and `Jia`: the `J` is solved, the `i` stays and the `a` fills up. -/
theorem greeting_turnedBy_solution :
    ∃ after solution,
      (Problem.ofRecording (.ofTable greetingAnswers) {} "inputs" greeting).solveAt 2 {} =
        (.ok true, after) ∧
      after.solution = some solution ∧
      after.directory.read "inputs" =
        .ok (Text.unlines (lines greeting.records solution greeting.format)) ∧
      Query.TurnedBy greeting.conditions 2 greeting.lexicon
        (nextValues greeting.records solution greeting.format) := by
  have isStep : .branch { taken := true, condition := some 2, site := 9 } ∈
      greeting.trail.steps := by decide +kernel
  have honest : (Solver.ofTable greetingAnswers).Honest (IsLength greeting.records) :=
    Solver.honest_ofTable (by decide +kernel) _
  have succeeds : ((Problem.ofRecording (.ofTable greetingAnswers) {} "inputs" greeting).solveAt 2
      {}).1 = .ok true := by decide +kernel
  generalize solved : (Problem.ofRecording (.ofTable greetingAnswers) {} "inputs" greeting).solveAt 2
    {} = result at succeeds ⊢
  obtain ⟨outcome, after⟩ := result
  cases succeeds
  obtain ⟨solution, isTurned⟩ :=
    Recorded.turnedBy_of_solveAt recorded_greeting isStep rfl honest solved
  exact ⟨after, solution, rfl, isTurned⟩

end Recording

end Concolic
