import Mathlib
import Concolic.Proofs.Statements
import Concolic.Proofs.Texts

/-!
# What the solver is asked and what its answers promise

To turn a path aside at a condition is to make a list of conditions true: those before it, and its
negation (`Query.turned`). Both layers are built from this list in the same way, so what an answer
promises is said once for both of them.

`Solver.Honest` is all that is assumed of a solver where a path is turned aside, and `Solver.Decisive`
where it is not. Both speak of the text that the solver was given.
-/

namespace Concolic

/-- Every answer `sat` of a solver assigns exactly the variables that the text declares and satisfies
the text over all integers. -/
structure Solver.Faithful (solver : Solver) : Prop where
  complete : ∀ {call text lines model}, solver call text = .ok lines →
    Verdict.read lines = .ok (.sat model) →
    ∀ var, (∃ value, (model.onto ∅).get? var = some value) ↔ var ∈ Presentation.declared text
  sound : ∀ {call text lines model}, solver call text = .ok lines →
    Verdict.read lines = .ok (.sat model) →
    Presentation.Satisfies (model.onto ∅).valuation text

/-- The answers `sat` of a solver can be relied on, and they give the lengths of strings fewer than
32 bits. -/
structure Solver.Honest (solver : Solver) (isLength : UInt32 → Prop) : Prop
    extends solver.Faithful where
  short : ∀ {call text lines model}, solver call text = .ok lines →
    Verdict.read lines = .ok (.sat model) →
    ∀ length value, isLength length → (model.onto ∅).int? length = some value →
      value.toInt < 2 ^ 32

/-- All answers of a solver can be relied on: `unsat` means that nothing satisfies the text. It always
answers in time. -/
structure Solver.Decisive (solver : Solver) : Prop extends solver.Faithful where
  refutes : ∀ {call text lines}, solver call text = .ok lines →
    Verdict.read lines = .ok .unsat → ∀ valuation, ¬Presentation.Satisfies valuation text
  timely : ∀ call text milliseconds, solver call text ≠ .error (.timeout milliseconds)

theorem Model.mem_of_get?_onto {model : Model} {base : Assignment} {var : Variable} {value : Int64}
    (found : (model.onto base).get? var = some value) :
    (var, value) ∈ model ∨ base.get? var = some value := by
  induction model generalizing base with
  | nil => exact .inr found
  | cons entry rest ih =>
      rcases ih found with inRest | isBase
      · exact .inl (List.mem_cons_of_mem _ inRest)
      · rw [VarMap.get?_insert] at isBase
        split at isBase
        · rename_i same
          exact .inl (List.mem_cons.mpr (.inl (Prod.ext same.symm (Option.some.inj isBase).symm)))
        · exact .inr isBase

namespace Solver

/-- A solver that knows the answers to some texts and cannot be started on any other. -/
def ofTable (table : List (String × List String)) : Solver := fun _ text =>
  match table.lookup text with
  | some lines => .ok lines
  | none => .error .spawn

/-- Whether an answer, if it is `sat`, is one that an honest solver may give. -/
def certified (entry : String × List String) : Bool :=
  match Verdict.read entry.2 with
  | .ok (.sat model) =>
      (model.onto ∅).keys = Presentation.declared entry.1 &&
        decide (Presentation.Satisfies (model.onto ∅).valuation entry.1) &&
        model.all fun binding => binding.2.toInt < 2 ^ 32
  | _ => true

theorem mem_of_ofTable {table : List (String × List String)} {call : Nat} {text : String}
    {lines : List String} (answered : ofTable table call text = .ok lines) :
    (text, lines) ∈ table := by
  simp only [ofTable] at answered
  split at answered
  · rename_i isFound
    cases answered
    obtain ⟨before, after, rfl, _⟩ := List.lookup_eq_some_iff.mp isFound
    simp
  · cases answered

/-- A table of certified answers is an honest solver. -/
theorem honest_ofTable {table : List (String × List String)}
    (checked : table.all certified = true) (isLength : UInt32 → Prop) :
    (ofTable table).Honest isLength := by
  have certificate {call : Nat} {text : String} {lines : List String} {model : Model}
      (answered : ofTable table call text = .ok lines)
      (understood : Verdict.read lines = .ok (.sat model)) :
      (model.onto ∅).keys = Presentation.declared text ∧
        Presentation.Satisfies (model.onto ∅).valuation text ∧
        ∀ binding ∈ model, binding.2.toInt < 2 ^ 32 := by
    have ofEntry := List.all_eq_true.mp checked (text, lines) (mem_of_ofTable answered)
    simp only [certified, understood] at ofEntry
    simpa [and_assoc] using ofEntry
  refine ⟨⟨?_, ?_⟩, ?_⟩
  · intro call text lines model answered understood var
    rw [← (certificate answered understood).1, VarMap.mem_keys_iff]
  · intro call text lines model answered understood
    exact (certificate answered understood).2.1
  · intro call text lines model answered understood length value _ isValue
    rcases Model.mem_of_get?_onto isValue with isBinding | impossible
    · have short := (certificate answered understood).2.2 _ isBinding
      exact short
    · simp at impossible

/-- If, in addition, every text with the answer `unsat` is unsatisfiable, then the solver is
decisive. -/
theorem decisive_ofTable {table : List (String × List String)}
    (checked : table.all certified = true)
    (refuted : ∀ entry ∈ table, Verdict.read entry.2 = .ok .unsat →
      ∀ valuation, ¬Presentation.Satisfies valuation entry.1) : (ofTable table).Decisive := by
  refine ⟨(honest_ofTable checked fun _ => False).toFaithful, ?_, ?_⟩
  · exact fun answered understood => refuted _ (mem_of_ofTable answered) understood
  · intro call text milliseconds late
    simp only [ofTable] at late
    split at late <;> cases late

end Solver

namespace Query

/-- The conditions that have to be true for a path to turn aside at one of its conditions. -/
def turned (path : List PathCondition) (target : Nat) : List PathCondition :=
  path.take target ++ path[target]?.toList.map Condition.negate

/-- Under the given values a path turns aside at one of its conditions: the earlier ones are true and
that one is false. -/
def TurnedBy (path : List PathCondition) (target : Nat) (lexicon : Lexicon) (values : Assignment) :
    Prop :=
  (∀ condition ∈ path.take target, condition.substitute values lexicon = .truth) ∧
    ∃ condition, path[target]? = some condition ∧ condition.substitute values lexicon = .falsity

/-- The formula of a condition in a layer, with what is known substituted. -/
def layerFormula (lexicon : Lexicon) (layer : Layer) (assignment : Assignment)
    (condition : PathCondition) : Formula :=
  PathCondition.lower (condition.substitute assignment lexicon) layer assignment lexicon

variable {path : List PathCondition} {target : Nat} {lexicon : Lexicon} {narrow : List UInt32}
  {layer : Layer} {assignment : Assignment} {extra : Option String} {query : Query}

theorem substitute_negate_eq_truth_iff {condition : PathCondition} {values : Assignment} :
    PathCondition.substitute condition.negate values lexicon = .truth ↔
      condition.substitute values lexicon = .falsity := by
  rw [PathCondition.substitute_negate]
  cases condition.substitute values lexicon <;> simp [Condition.negate]

theorem turnedBy_iff (inRange : target < path.length) {values : Assignment} :
    TurnedBy path target lexicon values ↔
      ∀ condition ∈ turned path target, condition.substitute values lexicon = .truth := by
  simp [TurnedBy, turned, List.getElem?_eq_getElem inRange, or_imp, forall_and,
    substitute_negate_eq_truth_iff]

/-! ### Repeated tests -/

/-- A path repeats a test if the same test with the same outcome stands before the target. -/
theorem repeatsTest_iff :
    repeatsTest path target = true ↔ ∃ expected question,
      path[target]? = some (.test expected question) ∧
        .test expected question ∈ path.take target := by
  have isTest_iff (condition : PathCondition) :
      condition.isTest = true ↔ ∃ expected question, condition = .test expected question := by
    cases condition <;> simp [Condition.isTest]
  simp only [repeatsTest]
  cases path[target]? with
  | none => simp
  | some last =>
      simp only [Bool.and_eq_true, isTest_iff, List.any_eq_true, decide_eq_true_eq,
        exists_eq_right, Option.some.injEq]
      constructor
      · rintro ⟨⟨expected, question, rfl⟩, isEarlier⟩
        exact ⟨expected, question, rfl, isEarlier⟩
      · rintro ⟨expected, question, rfl, isEarlier⟩
        exact ⟨⟨expected, question, rfl⟩, isEarlier⟩

/-- The earlier occurrence of a test and its negation at the target are never true together. -/
theorem not_turned_of_repeatsTest (repeats : repeatsTest path target = true) (lexicon : Lexicon)
    (values : Assignment) :
    ¬∀ condition ∈ turned path target, condition.substitute values lexicon = .truth := by
  intro holds
  rcases repeatsTest_iff.mp repeats with ⟨expected, question, isLast, isEarlier⟩
  have isTrue : PathCondition.substitute (.test expected question) values lexicon = .truth := by
    apply holds
    exact List.mem_append_left _ isEarlier
  have isFalse : PathCondition.substitute (.test expected question) values lexicon = .falsity := by
    apply substitute_negate_eq_truth_iff.mp
    apply holds
    simp [turned, isLast]
  rw [isTrue] at isFalse
  cases isFalse

/-- Giving a turn up without asking the solver is right. If a path repeats a test, then there are no
literal texts and no values under which the conditions before the target are true and the negation
of the one at the target is true as well. -/
theorem repeatsTest_refutes (repeats : repeatsTest path target = true) :
    ∃ last, path[target]? = some last ∧ ∀ (lexicon : Lexicon) (values : Assignment),
      ¬((∀ earlier ∈ path.take target, earlier.substitute values lexicon = .truth) ∧
        PathCondition.substitute last.negate values lexicon = .truth) := by
  rcases repeatsTest_iff.mp repeats with ⟨expected, question, isLast, _⟩
  refine ⟨_, isLast, ?_⟩
  rintro lexicon values ⟨before, negated⟩
  apply not_turned_of_repeatsTest repeats lexicon values
  intro condition isTurned
  rcases List.mem_append.mp isTurned with isEarlier | isNegation
  · exact before condition isEarlier
  · simp only [isLast, Option.toList_some, List.map_singleton, List.mem_singleton] at isNegation
    rw [isNegation]
    exact negated

/-- A text that must not hold a literal one, and that is asked again after a number was compared. -/
def insistent : List PathCondition :=
  [.test false { kind := .contains, subject := .input 1 2, pattern := .literal ⟨0⟩ },
    .linear (.ofVar (.int 3)) .gt,
    .test false { kind := .contains, subject := .input 1 2, pattern := .literal ⟨0⟩ }]

/-- Values under which the first two conditions hold for the literal text `o`. -/
def insistentValues : Assignment :=
  .ofList [(.int 2, 2), (.char 1 0, 72), (.char 1 1, 105), (.int 3, 1)]

theorem insistent_refutes :
    repeatsTest insistent 2 = true ∧
      (∀ earlier ∈ insistent.take 2,
        earlier.substitute insistentValues (.ofTexts ["o"]) = .truth) ∧
      PathCondition.substitute (Condition.negate (.test false
        { kind := .contains, subject := .input 1 2, pattern := .literal ⟨0⟩ })) insistentValues
          (.ofTexts ["o"]) ≠ .truth := by
  have repeats : repeatsTest insistent 2 = true := by decide +kernel
  have before : ∀ earlier ∈ insistent.take 2,
      earlier.substitute insistentValues (.ofTexts ["o"]) = .truth := by decide +kernel
  rcases repeatsTest_refutes repeats with ⟨last, isLast, refutes⟩
  cases isLast
  exact ⟨repeats, before, fun negated => refutes _ _ ⟨before, negated⟩⟩

/-- What holds of the conditions up to the target also holds of those that have to be true. -/
theorem every_turned {rule : LeafRule TextTest}
    (every : ∀ condition ∈ path.take (target + 1), condition.Every rule) :
    ∀ condition ∈ turned path target, condition.Every rule := by
  intro condition isTurned
  rcases List.mem_append.mp isTurned with isEarlier | isLast
  · exact every condition ((List.take_prefix_take_left (Nat.le_succ target)).subset isEarlier)
  · obtain ⟨own, isOwn, rfl⟩ := List.mem_map.mp isLast
    rw [Condition.every_negate]
    apply every
    rw [List.take_add_one]
    exact List.mem_append_right _ isOwn

theorem exists_build? (inRange : target < path.length) :
    ∃ query, build? path target lexicon narrow layer assignment extra = some query := by
  simp [build?, inRange]

/-- A query consists of the formulas of the conditions that have to be true. -/
theorem formulas_of_build?
    (built : build? path target lexicon narrow layer assignment extra = some query) :
    query.assertions ++ [query.goal] =
      (turned path target).map (layerFormula lexicon layer assignment) := by
  obtain ⟨last, found, rfl⟩ := Option.map_eq_some_iff.mp built
  simp only [turned, found, Option.toList_some, List.map_append, List.map_map, List.map_cons,
    List.map_nil]
  rfl

theorem fields_of_build?
    (built : build? path target lexicon narrow layer assignment extra = some query) :
    query.layer = layer ∧ query.narrow = narrow ∧ query.extra = extra := by
  obtain ⟨last, found, rfl⟩ := Option.map_eq_some_iff.mp built
  exact ⟨rfl, rfl, rfl⟩

theorem isTrivial_of_build?
    (built : build? path target lexicon narrow layer assignment extra = some query) :
    query.isTrivial =
      (turned path target).all fun condition =>
        (condition.substitute assignment lexicon).isTruth := by
  obtain ⟨last, found, rfl⟩ := Option.map_eq_some_iff.mp built
  simp only [turned, found, Option.toList_some, List.map_cons, List.map_nil, List.all_append,
    List.all_map, List.all_cons, List.all_nil, Bool.and_true]
  rfl

theorem mem_declared_iff
    (built : build? path target lexicon narrow layer assignment extra = some query)
    {var : Variable} :
    var ∈ query.declared.keys ↔ ∃ condition ∈ turned path target,
      var ∈ (layerFormula lexicon layer assignment condition).vars Empty.elim := by
  have formulas := formulas_of_build? built
  have asFormulas : var ∈ query.declared.keys ↔
      ∃ formula ∈ query.assertions ++ [query.goal], var ∈ formula.vars Empty.elim := by
    rw [declared, VarSet.mem_keys_ofList]
    simp [List.mem_flatMap, or_and_right, exists_or]
  rw [asFormulas, formulas]
  simp

/-- What a query asks for, in terms of the conditions. -/
theorem holdsAt_of_metBy {valuation : Variable → Int}
    (built : build? path target lexicon narrow layer assignment extra = some query)
    (met : query.MetBy valuation) {condition : PathCondition}
    (isTurned : condition ∈ turned path target) :
    (layerFormula lexicon layer assignment condition).holdsAt valuation Empty.elim = true := by
  have member : layerFormula lexicon layer assignment condition ∈
      query.assertions ++ [query.goal] := by
    rw [formulas_of_build? built]
    exact List.mem_map_of_mem isTurned
  rcases List.mem_append.mp member with isAssertion | isGoal
  · exact met.assertions _ isAssertion
  · rw [List.mem_singleton.mp isGoal]
    exact met.goal

/-- A valuation within the bounds that makes the conditions true does what the query asks for. -/
theorem metBy_of_holdsAt {valuation : Variable → Int}
    (built : build? path target lexicon narrow layer assignment extra = some query)
    (ints : ∀ key ∈ query.boundedInts, Numeral.int32Range.1 ≤ valuation key ∧
      valuation key ≤ Numeral.int32Range.2)
    (chars : ∀ key ∈ query.boundedChars, characterRange.1 ≤ valuation key ∧
      valuation key ≤ characterRange.2)
    (holds : ∀ condition ∈ turned path target,
      (layerFormula lexicon layer assignment condition).holdsAt valuation Empty.elim = true) :
    query.MetBy valuation := by
  have each : ∀ formula ∈ query.assertions ++ [query.goal],
      formula.holdsAt valuation Empty.elim = true := by
    rw [formulas_of_build? built]
    intro formula member
    obtain ⟨condition, isTurned, rfl⟩ := List.mem_map.mp member
    exact holds condition isTurned
  exact ⟨ints, chars, fun formula member => each formula (List.mem_append_left _ member),
    each query.goal (by simp)⟩

/-- If nothing is left to ask, then every valuation does what the query asks for. -/
theorem trivial_spec
    (built : build? path target lexicon narrow layer assignment extra = some query)
    (isTrivial : query.isTrivial = true) (valuation : Variable → Int) :
    (∀ var, var ∉ query.declared.keys) ∧ query.MetBy valuation := by
  have isTruth : ∀ formula ∈ query.assertions ++ [query.goal], formula = .truth := by
    rw [formulas_of_build? built]
    rw [isTrivial_of_build? built, List.all_eq_true] at isTrivial
    intro formula member
    obtain ⟨condition, isTurned, rfl⟩ := List.mem_map.mp member
    have decided : condition.substitute assignment lexicon = .truth := by
      have folds := isTrivial condition isTurned
      cases result : condition.substitute assignment lexicon <;>
        simp [result, Condition.isTruth] at folds ⊢
    rw [layerFormula, decided]
    rfl
  have goalTruth := isTruth query.goal (by simp)
  have nothing : ∀ var, var ∉ query.declared.keys := by
    intro var member
    rw [declared, VarSet.mem_keys_ofList, List.mem_append, List.mem_flatMap, goalTruth] at member
    rcases member with ⟨formula, isAssertion, occurs⟩ | occurs
    · rw [isTruth formula (List.mem_append_left _ isAssertion)] at occurs
      simp [Condition.vars] at occurs
    · simp [Condition.vars] at occurs
  refine ⟨nothing, ?_, ?_, ?_, ?_⟩
  · intro key member
    exact absurd (List.mem_of_mem_filter member) (nothing key)
  · intro key member
    rw [boundedChars] at member
    split at member
    · simp at member
    · exact absurd (List.mem_of_mem_filter member) (nothing key)
  · intro formula isAssertion
    rw [isTruth formula (List.mem_append_left _ isAssertion)]
    rfl
  · rw [goalTruth]
    rfl

end Query

/-- What an answer `sat` to a query promises of its model. -/
structure Query.Answered (query : Query) (isLength : UInt32 → Prop) (model : Model) : Prop where
  bound : ∀ var, (∃ value, (model.onto ∅).get? var = some value) ↔ var ∈ query.declared.keys
  met : query.MetBy (model.onto ∅).valuation
  short : ∀ length value, isLength length → (model.onto ∅).int? length = some value →
    value.toInt < 2 ^ 32

namespace Problem

variable {problem : Problem} {number : Nat} {layer : Layer} {assignment : Assignment}
  {models : List Model} {model : Model} {bench after : Bench} {isLength : UInt32 → Prop}

/-- A verdict on a query is read from lines that the solver gave for its text. -/
theorem exists_answer_of_send {query : Query} {verdict : Verdict}
    (sent : problem.send query bench = (.ok verdict, after)) :
    ∃ call lines, problem.solver call query.text = .ok lines ∧ Verdict.read lines = .ok verdict := by
  simp only [send] at sent
  split at sent
  · simp at sent
  · split at sent
    · simp at sent
    · rename_i lines answered
      split at sent
      · simp at sent
      · rename_i found understood
        simp only [Prod.mk.injEq, Except.ok.injEq] at sent
        exact ⟨_, lines, answered, sent.1 ▸ understood⟩

theorem answered_of_send {query : Query} (honest : problem.solver.Honest isLength)
    (isExclusion : query.extra = exclusion? models)
    (sent : problem.send query bench = (.ok (.sat model), after)) :
    query.Answered isLength model := by
  obtain ⟨call, lines, answered, understood⟩ := exists_answer_of_send sent
  obtain ⟨reading, declares⟩ := Query.satisfies_and_declared isExclusion (model.onto ∅).valuation
  refine ⟨?_, (reading.mp (honest.sound answered understood)).1, honest.short answered understood⟩
  intro var
  rw [honest.complete answered understood, declares]

/-- An answer `sat` to a layer meets the query of the layer, also if nothing was left to ask. -/
theorem answered_of_ask (honest : problem.solver.Honest isLength)
    (asked : problem.ask number layer (exclusion? models) assignment bench =
      (.ok (.sat model), after)) :
    ∃ query, Query.build? problem.conditions number problem.lexicon problem.narrow layer assignment
      (exclusion? models) = some query ∧ query.Answered isLength model := by
  simp only [ask] at asked
  split at asked
  · simp at asked
  · rename_i query built
    refine ⟨query, built, ?_⟩
    split at asked
    · rename_i isTrivial
      simp only [Prod.mk.injEq, Except.ok.injEq, Verdict.sat.injEq] at asked
      obtain ⟨nothing, met⟩ := Query.trivial_spec built isTrivial (model.onto ∅).valuation
      rw [← asked.1] at met ⊢
      refine ⟨?_, met, ?_⟩
      · intro var
        simp [Model.onto, nothing var]
      · intro length value _ bound
        simp [Model.onto, Assignment.int?] at bound
    · exact answered_of_send honest (Query.fields_of_build? built).2.2 asked

/-- An answer `unsat` to a layer is right: nothing meets its query. -/
theorem refuted_of_ask (decisive : problem.solver.Decisive)
    (asked : problem.ask number layer (exclusion? models) assignment bench = (.ok .unsat, after)) :
    ∃ query, Query.build? problem.conditions number problem.lexicon problem.narrow layer assignment
      (exclusion? models) = some query ∧
      ∀ valuation, query.MetBy valuation → Model.excludes valuation models = false := by
  simp only [ask] at asked
  split at asked
  · simp at asked
  · rename_i query built
    refine ⟨query, built, ?_⟩
    split at asked
    · simp at asked
    · obtain ⟨call, lines, answered, understood⟩ := exists_answer_of_send asked
      intro valuation met
      by_contra excluded
      obtain ⟨reading, _⟩ :=
        Query.satisfies_and_declared (Query.fields_of_build? built).2.2 valuation
      exact decisive.refutes answered understood valuation
        (reading.mpr ⟨met, by simpa using excluded⟩)

/-- Asking a layer is no retry. -/
theorem retries_ask (problem : Problem) (number : Nat) (layer : Layer) (extra : Option String)
    (assignment : Assignment) (bench : Bench) :
    (problem.ask number layer extra assignment bench).2.tally.retries = bench.tally.retries := by
  simp only [ask, send]
  split
  · rfl
  · split
    · rfl
    · split
      · rfl
      · split
        · rfl
        · split <;> rfl

/-- Where attempts succeed, both layers were answered `sat` and the solution was adopted. -/
theorem exists_answers_of_attempts {budget : Nat} {excluded : List Model}
    (found : problem.attempts number budget excluded bench = (.ok true, after)) :
    ∃ models model characters first second third,
      problem.ask number .integers (exclusion? models) ∅ first = (.ok (.sat model), second) ∧
      problem.ask number .characters (exclusion? []) (model.onto ∅) second =
        (.ok (.sat characters), third) ∧
      problem.adopt (characters.onto (model.onto ∅)) third = (.ok true, after) := by
  induction budget generalizing excluded bench with
  | zero => simp [attempts] at found
  | succ budget ih =>
      simp only [attempts] at found
      split at found
      · simp at found
      · simp at found
      · rename_i model second integersAnswered
        split at found
        · simp at found
        · rename_i characters third charactersAnswered
          simp only [askIntegers] at integersAnswered
          split at integersAnswered
          · simp at integersAnswered
          · exact ⟨excluded, model, characters, bench, second, third, integersAnswered,
              charactersAnswered, found⟩
        · split at found
          · simp at found
          · exact ih found

end Problem

end Concolic
