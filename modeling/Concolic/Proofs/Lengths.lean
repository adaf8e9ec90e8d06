import Mathlib
import Concolic.Proofs.Characters

/-!
# The integer layer says no more than the tests

The integer layer keeps of a test only what it says about lengths. Whatever makes a condition true
therefore makes its integer layer true as well, as long as no sum leaves the 64-bit words. For the
lengths themselves this needs no assumption beyond the sizes of the texts: a coefficient of a length
sum may wrap around only where the length is zero, and there it does not count.
-/

namespace Concolic

/-- A sum that counts characters: its value is the count, and nothing in it that matters exceeds the
count. -/
structure Linear.Counts (valuation : Variable → Int) (sum : Linear) (count : Nat) : Prop where
  value : sum.valueAt valuation = count
  coefficient : ∀ var, valuation var ≠ 0 →
    0 ≤ (sum.coefficient var).toInt ∧ (sum.coefficient var).toInt ≤ count
  constant : 0 ≤ sum.constant.toInt ∧ sum.constant.toInt ≤ count

namespace Linear

variable {valuation : Variable → Int}

theorem plus_ofVar (sum : Linear) (var : Variable) : sum.plus (ofVar var) = sum.addTerm var 1 := by
  have constant : (ofVar var).constant = 0 := rfl
  rw [plus, entries_ofVar, constant, plusConstant, Int64.add_zero]
  rfl

/-- Adding a length variable counts the characters that it stands for. -/
theorem Counts.addTerm_one {sum : Linear} {count size : Nat} {var : Variable}
    (counts : sum.Counts valuation count) (isSize : valuation var = size)
    (fits : count + size < 2 ^ 63) : (sum.addTerm var 1).Counts valuation (count + size) := by
  have exact (counted : valuation var ≠ 0) :
      (sum.coefficient var + 1).toInt = (sum.coefficient var).toInt + 1 := by
    have bound := counts.coefficient var counted
    have within : FitsWord ((sum.coefficient var).toInt + 1) := by
      simp only [FitsWord]
      omega
    exact toInt_add_of_fitsWord within
  refine ⟨?_, ?_, ?_⟩
  · rw [valueAt_addTerm, counts.value]
    by_cases counted : valuation var = 0
    · rw [counted] at isSize ⊢
      omega
    · rw [exact counted, isSize]
      push_cast
      ring
  · intro other counted
    have bound := counts.coefficient other counted
    rw [coefficient_addTerm]
    split
    · rename_i same
      subst same
      rw [exact counted]
      omega
    · simp only [Int64.add_zero]
      omega
  · have bound := counts.constant
    rw [constant_addTerm]
    omega

/-- Adding the length of a literal text counts its characters. -/
theorem Counts.plusConstant {sum : Linear} {count size : Nat}
    (counts : sum.Counts valuation count) (fits : count + size < 2 ^ 63) :
    (sum.plusConstant (Int64.ofNat size)).Counts valuation (count + size) := by
  have bound := counts.constant
  have sizeExact : (Int64.ofNat size).toInt = size := Int64.toInt_ofNat_of_lt (by omega)
  have exact : (sum.constant + Int64.ofNat size).toInt = sum.constant.toInt + size := by
    rw [toInt_add_of_fitsWord, sizeExact]
    rw [sizeExact, FitsWord]
    omega
  refine ⟨?_, ?_, ?_⟩
  · rw [valueAt_plusConstant, counts.value, exact]
    push_cast
    ring
  · intro var counted
    have := counts.coefficient var counted
    rw [coefficient_plusConstant]
    omega
  · rw [constant_plusConstant, exact]
    omega

/-- The difference of two sums that count is the difference of the counts. -/
theorem Counts.valueAt_minus {first second : Linear} {count other : Nat}
    (counts : first.Counts valuation count) (fits : count < 2 ^ 63)
    (counts' : second.Counts valuation other) (fits' : other < 2 ^ 63) :
    (first.minus second).valueAt valuation = count - other := by
  rw [Linear.valueAt_minus, counts.value, counts'.value]
  · intro var counted
    have := counts.coefficient var counted
    have := counts'.coefficient var counted
    simp only [FitsWord]
    omega
  · have := counts.constant
    have := counts'.constant
    simp only [FitsWord]
    omega

/-- What is left of the difference beyond an offset. -/
theorem Counts.valueAt_minus_plusConstant {first second : Linear} {count other : Nat}
    (counts : first.Counts valuation count) (fits : count < 2 ^ 63)
    (counts' : second.Counts valuation other) (fits' : other < 2 ^ 63) {offset : Int64}
    (nonneg : 0 ≤ offset.toInt) (room : other + offset.toInt ≤ count) :
    ((first.minus second).plusConstant (-offset)).valueAt valuation =
      count - other - offset.toInt := by
  have bound := counts.constant
  have bound' := counts'.constant
  have constant : (first.minus second).constant.toInt =
      first.constant.toInt - second.constant.toInt := by
    rw [constant_minus, toInt_sub_of_fitsWord]
    simp only [FitsWord]
    omega
  rw [valueAt_plusConstant_neg, counts.valueAt_minus fits counts' fits']
  rw [constant, FitsWord]
  omega

end Linear

/-- The number of characters of a part whose length is known. -/
def Segment.size (assignment : Assignment) (lexicon : Lexicon) : Segment → Nat
  | .input _ length => (assignment.valuation (.int length)).toNat
  | .literal id => (lexicon.text id).length

/-- The length variables of a text stand for numbers of characters. -/
def SymText.Sized (assignment : Assignment) (text : SymText) : Prop :=
  ∀ var ∈ text.lengthVars, 0 ≤ assignment.valuation var ∧ assignment.valuation var < 2 ^ 32

namespace SymText

variable {assignment : Assignment} {lexicon : Lexicon} {cells : List Cell}

theorem Sized.tail {segment : Segment} {rest : List Segment}
    (sized : (SymText.mk (segment :: rest)).Sized assignment) :
    (SymText.mk rest).Sized assignment := by
  intro var member
  apply sized var
  simp only [lengthVars, List.filterMap_cons] at member ⊢
  split
  · exact member
  · exact List.mem_cons_of_mem _ member

/-- The length of a text counts its cells. -/
theorem counts_length {text : SymText} (known : text.cells? assignment lexicon = some cells)
    (sized : text.Sized assignment) (fits : cells.length < 2 ^ 63) :
    (text.length lexicon).Counts assignment.valuation cells.length := by
  have general (segments : List Segment) (cells : List Cell) (start : Linear) (count : Nat)
      (known : (SymText.mk segments).cells? assignment lexicon = some cells)
      (sized : (SymText.mk segments).Sized assignment) (fits : count + cells.length < 2 ^ 63)
      (counts : start.Counts assignment.valuation count) :
      (segments.foldl (Segment.addLength lexicon) start).Counts assignment.valuation
        (count + cells.length) := by
    induction segments generalizing cells start count with
    | nil =>
        cases known
        exact counts
    | cons segment rest ih =>
        obtain ⟨first, others, firstKnown, othersKnown, rfl⟩ := cells?_cons_eq_some.mp known
        rw [List.length_append] at fits ⊢
        rw [← Nat.add_assoc]
        apply ih others _ _ othersKnown sized.tail (by omega)
        cases segment with
        | input symbol length =>
            obtain ⟨value, bound, rfl⟩ := Option.map_eq_some_iff.mp firstKnown
            have valueIs : assignment.valuation (.int length) = value.toInt :=
              Assignment.valuation_of_get? bound
            have inRange := sized (.int length) (by simp [lengthVars, Segment.lengthVar?])
            rw [Segment.addLength, Linear.plus_ofVar]
            apply counts.addTerm_one
            · simp only [List.length_map, List.length_range, cellCount]
              omega
            · simp only [List.length_map, List.length_range] at fits ⊢
              omega
        | literal id =>
            cases firstKnown
            simp only [List.length_map, String.length_toList] at fits ⊢
            exact counts.plusConstant (by omega)
  have nothing : (Linear.ofConstant 0).Counts assignment.valuation 0 :=
    ⟨by simp, by simp, by simp [Linear.ofConstant]⟩
  simpa [length] using general text.segments cells _ 0 known sized (by omega) nothing

/-- The number of characters of a text whose lengths are known. -/
def size (assignment : Assignment) (lexicon : Lexicon) (text : SymText) : Nat :=
  (text.segments.map (Segment.size assignment lexicon)).sum

/-- A text has as many cells as it has characters. -/
theorem length_cells? {text : SymText} (known : text.cells? assignment lexicon = some cells)
    (sized : text.Sized assignment) : cells.length = text.size assignment lexicon := by
  obtain ⟨segments⟩ := text
  induction segments generalizing cells with
  | nil =>
      cases known
      rfl
  | cons segment rest ih =>
      obtain ⟨first, others, firstKnown, othersKnown, rfl⟩ := cells?_cons_eq_some.mp known
      rw [List.length_append, ih othersKnown sized.tail, size, size, List.map_cons, List.sum_cons]
      congr 1
      cases segment with
      | input symbol length =>
          obtain ⟨value, bound, rfl⟩ := Option.map_eq_some_iff.mp firstKnown
          have valueIs : assignment.valuation (.int length) = value.toInt :=
            Assignment.valuation_of_get? bound
          have inRange := sized (.int length) (by simp [lengthVars, Segment.lengthVar?])
          rw [List.length_map, List.length_range, cellCount, Segment.size, ← valueIs]
          omega
      | literal id =>
          cases firstKnown
          rw [List.length_map, String.length_toList, Segment.size]

theorem mem_lengthVars_of_mem_vars {text : SymText} {var : Variable}
    (occurs : var ∈ (text.length lexicon).vars) : var ∈ text.lengthVars := by
  have general (segments : List Segment) (start : Linear)
      (occurs : var ∈ (segments.foldl (Segment.addLength lexicon) start).vars) :
      var ∈ start.vars ∨ var ∈ segments.filterMap Segment.lengthVar? := by
    induction segments generalizing start with
    | nil => exact .inl occurs
    | cons segment rest ih =>
        rcases ih _ occurs with inStart | inRest
        · cases segment with
          | input symbol length =>
              rw [Segment.addLength, Linear.plus_ofVar] at inStart
              rcases Linear.mem_vars_addTerm inStart with same | inSum
              · exact .inr (by simp [Segment.lengthVar?, same])
              · exact .inl inSum
          | literal id => exact .inl inStart
        · right
          simp only [List.filterMap_cons]
          split
          · exact inRest
          · exact List.mem_cons_of_mem _ inRest
  exact (general _ _ occurs).resolve_left (by simp [Linear.vars, Linear.ofConstant, VarMap.keys])

end SymText

namespace TextTest

/-- Both sides of a test are filled in, and their lengths are 64-bit words. -/
def Filled (assignment : Assignment) (lexicon : Lexicon) (test : TextTest) : Prop :=
  test.kind ≠ .regex ∧ test.subject.Sized assignment ∧ test.pattern.toText.Sized assignment ∧
    (∃ subject, test.subject.concrete? assignment lexicon = some subject ∧
      subject.length < 2 ^ 63) ∧
    ∃ pattern, test.pattern.toText.concrete? assignment lexicon = some pattern ∧
      pattern.length < 2 ^ 63

variable {assignment : Assignment} {lexicon : Lexicon}

theorem Filled.exists_outcome {test : TextTest} (filled : test.Filled assignment lexicon) :
    ∃ actual, test.outcome? assignment lexicon = some actual := by
  obtain ⟨notRegex, _, _, ⟨subject, subjectKnown, _⟩, pattern, patternKnown, _⟩ := filled
  exact exists_outcome? notRegex subjectKnown patternKnown

theorem every_lengthFormula {scope : Variable → Prop} {test : Empty → Prop} {question : TextTest}
    (ofLengths : ∀ var ∈ question.lengthVars, scope var) (expected : Bool) :
    (question.lengthFormula expected lexicon).Every (.scoped scope test) := by
  have ofSlack (var : Variable) (occurs : var ∈ ((question.subject.length lexicon).minus
      (question.pattern.toText.length lexicon)).vars) : scope var := by
    apply ofLengths
    rw [lengthVars, List.mem_append]
    exact (Linear.mem_vars_minus occurs).imp SymText.mem_lengthVars_of_mem_vars
      SymText.mem_lengthVars_of_mem_vars
  cases expected with
  | false => trivial
  | true =>
      simp only [lengthFormula, if_true]
      cases question.kind with
      | startsWith offset =>
          simp only
          split
          · trivial
          · intro var occurs
            rw [Linear.vars_plusConstant] at occurs
            exact ofSlack var occurs
      | regex => trivial
      | equals | endsWith | contains => exact ofSlack

/-- A concrete text has a character in each of its cells. -/
theorem exists_cells?_of_concrete {text : SymText} {characters : List Char}
    (known : text.concrete? assignment lexicon = some characters) :
    ∃ cells, text.cells? assignment lexicon = some cells ∧ cells.length = characters.length := by
  obtain ⟨cells, cellsKnown, _⟩ := SymText.concrete?_eq_some_iff.mp known
  refine ⟨cells, cellsKnown, ?_⟩
  simpa using congrArg List.length
    (SymText.map_valueAt_eq_map_charCode (Assignment.Extends.refl _) cellsKnown known)

/-- The length of a concrete text is the value of its length sum. -/
theorem counts_of_concrete {text : SymText} {characters : List Char}
    (known : text.concrete? assignment lexicon = some characters)
    (sized : text.Sized assignment) (fits : characters.length < 2 ^ 63) :
    (text.length lexicon).Counts assignment.valuation characters.length := by
  obtain ⟨cells, cellsKnown, sameLength⟩ := exists_cells?_of_concrete known
  rw [← sameLength] at fits ⊢
  exact SymText.counts_length cellsKnown sized fits

theorem length_of_concrete {text : SymText} {characters : List Char}
    (known : text.concrete? assignment lexicon = some characters)
    (sized : text.Sized assignment) : characters.length = text.size assignment lexicon := by
  obtain ⟨cells, cellsKnown, sameLength⟩ := exists_cells?_of_concrete known
  rw [← sameLength, SymText.length_cells? cellsKnown sized]

/-- A test that has an outcome is filled in. -/
theorem filled_of_outcome {test : TextTest} {actual : Bool}
    (subjectSized : test.subject.Sized assignment)
    (subjectFits : test.subject.size assignment lexicon < 2 ^ 63)
    (patternSized : test.pattern.toText.Sized assignment)
    (patternFits : test.pattern.toText.size assignment lexicon < 2 ^ 63)
    (outcome : test.outcome? assignment lexicon = some actual) :
    test.Filled assignment lexicon := by
  simp only [outcome?, Option.bind_eq_bind, Option.bind_eq_some_iff] at outcome
  obtain ⟨subject, subjectKnown, pattern, patternKnown, outcome⟩ := outcome
  refine ⟨?_, subjectSized, patternSized, ⟨subject, subjectKnown, ?_⟩, pattern, patternKnown, ?_⟩
  · intro isRegex
    simp [isRegex, TestKind.outcome?] at outcome
  · rwa [length_of_concrete subjectKnown subjectSized]
  · rwa [length_of_concrete patternKnown patternSized]

/-- A test that succeeds leaves a comparison in the integer layer that holds and is exact. -/
theorem exists_lengthFormula_eq_linear {test : TextTest} (filled : test.Filled assignment lexicon)
    (succeeds : test.outcome? assignment lexicon = some true) :
    ∃ sum relation, test.lengthFormula true lexicon = .linear sum relation ∧
      FitsWord (sum.valueAt assignment.valuation) ∧
      relation.holds (sum.valueAt assignment.valuation) = true := by
  obtain ⟨_, subjectSized, patternSized, ⟨subject, subjectKnown, subjectFits⟩, pattern,
    patternKnown, patternFits⟩ := filled
  have subjectCounts := counts_of_concrete subjectKnown subjectSized subjectFits
  have patternCounts := counts_of_concrete patternKnown patternSized patternFits
  have slack := subjectCounts.valueAt_minus subjectFits patternCounts patternFits
  simp only [outcome?, subjectKnown, patternKnown, Option.bind_eq_bind, Option.bind_some]
    at succeeds
  simp only [lengthFormula, if_true]
  cases kind : test.kind with
  | equals =>
      simp only [kind, TestKind.outcome?, Option.some.injEq, beq_iff_eq] at succeeds
      refine ⟨_, .eq, rfl, ?_⟩
      rw [slack, succeeds]
      simp [FitsWord, Relation.holds]
  | startsWith offset =>
      simp only [kind, TestKind.outcome?, Option.some.injEq, Bool.and_eq_true, decide_eq_true_eq,
        List.isPrefixOf_iff_prefix] at succeeds
      obtain ⟨⟨offsetNonneg, offsetInside⟩, starts⟩ := succeeds
      have room := starts.length_le
      rw [List.length_drop] at room
      have notNegative : ¬offset < 0 := by
        rw [Int64.lt_iff_toInt_lt, Int64.toInt_zero]
        omega
      refine ⟨_, .ge, if_neg notNegative, ?_⟩
      rw [subjectCounts.valueAt_minus_plusConstant subjectFits patternCounts patternFits
        offsetNonneg (by omega)]
      simp only [FitsWord, Relation.holds, decide_eq_true_eq]
      omega
  | endsWith =>
      simp only [kind, TestKind.outcome?, Option.some.injEq, List.isSuffixOf_iff_suffix]
        at succeeds
      have := succeeds.length_le
      refine ⟨_, .ge, rfl, ?_⟩
      simp only [slack, FitsWord, Relation.holds, decide_eq_true_eq]
      omega
  | contains =>
      simp only [kind, TestKind.outcome?, Option.some.injEq, Text.occursIn_iff] at succeeds
      have := succeeds.length_le
      refine ⟨_, .ge, rfl, ?_⟩
      simp only [slack, FitsWord, Relation.holds, decide_eq_true_eq]
      omega
  | regex => simp [kind, TestKind.outcome?] at succeeds

/-- The true outcome of a test agrees with what the integer layer says of it. -/
theorem holdsAt_lengthFormula {test : TextTest} {actual : Bool}
    (filled : test.Filled assignment lexicon)
    (outcome : test.outcome? assignment lexicon = some actual) :
    (test.lengthFormula actual lexicon).holdsAt assignment.valuation Empty.elim = true := by
  cases actual with
  | false => rfl
  | true =>
      obtain ⟨sum, relation, isLinear, _, holds⟩ := exists_lengthFormula_eq_linear filled outcome
      rw [isLinear]
      exact holds

/-- The true outcome of a test makes what the integer layer says of it true. -/
theorem substitute_lengthFormula {test : TextTest} {actual : Bool}
    (filled : test.Filled assignment lexicon)
    (bound : ∀ var ∈ test.lengthVars, ∃ value, assignment.get? var = some value)
    (outcome : test.outcome? assignment lexicon = some actual) :
    Formula.substitute (test.lengthFormula actual lexicon) assignment = .truth := by
  cases actual with
  | false => rfl
  | true =>
      have inScope := @every_lengthFormula lexicon _ (fun _ => True) test bound true
      obtain ⟨sum, relation, isLinear, fits, holds⟩ := exists_lengthFormula_eq_linear filled outcome
      rw [isLinear] at inScope ⊢
      rw [Formula.substitute, Condition.resolve, Condition.decideLinear_of_binds inScope,
        toInt_ofInt_of_fitsWord fits, holds, Condition.ofBool]

end TextTest

/-- Under an assignment, every comparison can be computed and leaves the 64-bit words nowhere, and
every test is filled in. -/
def LeafRule.exactAt (assignment : Assignment) (lexicon : Lexicon) : LeafRule TextTest where
  linear sum := (∀ var ∈ sum.vars, ∃ value, assignment.get? var = some value) ∧
    FitsWord (sum.valueAt assignment.valuation)
  compare left right := (∀ var ∈ left.vars ++ right.vars, ∃ value, assignment.get? var = some value) ∧
    left.Exact assignment.valuation ∧ right.Exact assignment.valuation ∧
    FitsWord (left.valueAt assignment.valuation - right.valueAt assignment.valuation)
  test := TextTest.Filled assignment lexicon

namespace PathCondition

variable {assignment : Assignment} {lexicon : Lexicon}

/-- The outcomes of tests under an assignment; a test without outcome counts as failed. -/
def answers (assignment : Assignment) (lexicon : Lexicon) (test : TextTest) : Bool :=
  (test.outcome? assignment lexicon).getD false

/-- Where nothing overflows, substitution decides a condition as it reads over the integers. -/
theorem substitute_eq_ofBool_holdsAt {condition : PathCondition}
    (exact : condition.Every (.exactAt assignment lexicon)) :
    condition.substitute assignment lexicon =
      .ofBool (condition.holdsAt assignment.valuation (answers assignment lexicon)) := by
  apply Condition.resolve_eq_ofBool_holdsAt exact
  · rintro sum relation ⟨bound, fits⟩
    rw [Condition.decideLinear_of_binds bound, toInt_ofInt_of_fitsWord fits]
  · rintro left right relation ⟨bound, _, _, fits⟩
    have bindsLeft : assignment.Binds left.vars :=
      fun var occurs => bound var (List.mem_append_left _ occurs)
    have bindsRight : assignment.Binds right.vars :=
      fun var occurs => bound var (List.mem_append_right _ occurs)
    rw [Arith.substitute_eq_const bindsLeft, Arith.substitute_eq_const bindsRight,
      Condition.decideCompare, ← Int64.ofInt_sub, toInt_ofInt_of_fitsWord fits]
  · intro test filled
    obtain ⟨actual, outcome⟩ := filled.exists_outcome
    simp [answers, outcome]

/-- Folding a condition without substituting anything keeps its meaning. -/
theorem holdsAt_substitute_empty {condition : PathCondition}
    (exact : condition.Every (.exactAt assignment lexicon)) :
    (condition.substitute ∅ lexicon).holdsAt assignment.valuation (answers assignment lexicon) =
      condition.holdsAt assignment.valuation (answers assignment lexicon) := by
  have agrees := Assignment.agreesWith_valuation (Assignment.extends_empty assignment)
  apply Condition.holdsAt_resolve exact
  · intro sum relation _
    rw [Condition.holdsAt_decideLinear, Linear.valueAt_substitute_empty]
  · rintro left right relation ⟨_, leftExact, rightExact, fits⟩
    rw [Condition.holdsAt_decideCompare]
    all_goals rw [Arith.valueAt_substitute agrees leftExact,
      Arith.valueAt_substitute agrees rightExact]
    exact fits
  · intro test actual _ outcome
    simp [answers, TextTest.outcome?_of_extends (Assignment.extends_empty assignment) outcome]

/-- What makes a condition true makes its integer layer true. -/
theorem holdsAt_lower_integers {condition : PathCondition}
    (exact : condition.Every (.exactAt assignment lexicon))
    (holds : condition.substitute assignment lexicon = .truth) :
    (lower (condition.substitute ∅ lexicon) .integers ∅ lexicon).holdsAt assignment.valuation
      Empty.elim = true := by
  have reads : condition.holdsAt assignment.valuation (answers assignment lexicon) = true := by
    rw [substitute_eq_ofBool_holdsAt exact] at holds
    cases value : condition.holdsAt assignment.valuation (answers assignment lexicon) with
    | true => rfl
    | false => simp [value, Condition.ofBool] at holds
  have filled : (condition.substitute ∅ lexicon).Every
      ⟨fun _ => True, fun _ _ => True, TextTest.Filled assignment lexicon⟩ := by
    apply exact.resolve
    · intro sum relation _
      simp only [Condition.decideLinear]
      split
      · exact Condition.every_ofBool _
      · trivial
    · intro left right relation _
      simp only [Condition.decideCompare]
      split
      · exact Condition.every_ofBool _
      · trivial
    · exact fun test filled _ => filled
  rw [← holdsAt_substitute_empty exact] at reads
  refine Condition.holdsAt_bindTests_of_holdsAt filled ?_ reads
  intro test testFilled
  obtain ⟨actual, outcome⟩ := testFilled.exists_outcome
  have answered : answers assignment lexicon test = actual := by simp [answers, outcome]
  rw [answered]
  exact TextTest.holdsAt_lengthFormula testFilled outcome

/-- The integer layer excludes no solution. What makes a condition true makes its integer layer true
as well, wherever lengths stand for numbers of characters. Other variables may be open, sums of
other variables may wrap around, and combinations may be without members. -/
theorem substitute_lower_integers {condition : PathCondition}
    (lengths : ∀ test ∈ condition.tests, ∀ var ∈ test.lengthVars,
      ∃ value, assignment.get? var = some value ∧ 0 ≤ value.toInt ∧ value.toInt < 2 ^ 32)
    (fits : ∀ test ∈ condition.tests, test.subject.size assignment lexicon < 2 ^ 63 ∧
      test.pattern.toText.size assignment lexicon < 2 ^ 63)
    (holds : condition.substitute assignment lexicon = .truth) (known : Assignment) :
    Formula.substitute (condition.lower .integers known lexicon) assignment = .truth := by
  refine Condition.resolve_bindTests_eq_truth (fun test isTest expected outcome => ?_) holds
  have bound : ∀ var ∈ test.lengthVars, ∃ value, assignment.get? var = some value :=
    fun var occurs =>
      let ⟨value, isValue, _⟩ := lengths test isTest var occurs
      ⟨value, isValue⟩
  have inRange : ∀ var ∈ test.lengthVars,
      0 ≤ assignment.valuation var ∧ assignment.valuation var < 2 ^ 32 := by
    intro var occurs
    obtain ⟨value, isValue, range⟩ := lengths test isTest var occurs
    rwa [Assignment.valuation_of_get? isValue]
  have subjectSized : test.subject.Sized assignment :=
    fun var occurs => inRange var (List.mem_append_left _ occurs)
  have patternSized : test.pattern.toText.Sized assignment :=
    fun var occurs => inRange var (List.mem_append_right _ occurs)
  exact TextTest.substitute_lengthFormula
    (TextTest.filled_of_outcome subjectSized (fits test isTest).1 patternSized (fits test isTest).2
      outcome) bound outcome

/-- Besides a combination without members and a comparison of an open variable: a text followed by a
literal one has the text at position one, and the text is not the literal one. -/
def repeatedText : PathCondition :=
  .anyOf [.allOf [], .linear (.ofVar (.int 9)) .gt,
    .allOf [.test true { kind := .startsWith 1
                         subject := ⟨[.input 2 3, .literal ⟨0⟩]⟩
                         pattern := .symbolic (.input 2 3) },
      .test false { kind := .equals, subject := .input 2 3, pattern := .literal ⟨0⟩ }]]

/-- The text `k`. -/
def repeatedTextValues : Assignment :=
  .ofList [(.int 3, 1), (.char 2 0, 107)]

theorem repeatedText_lower_integers :
    repeatedText.substitute repeatedTextValues (.ofTexts ["kk"]) = .truth ∧
      Formula.substitute (repeatedText.lower .integers ∅ (.ofTexts ["kk"])) repeatedTextValues =
        .truth := by
  have holds : repeatedText.substitute repeatedTextValues (.ofTexts ["kk"]) = .truth := by
    decide +kernel
  have onlyLength : ∀ test ∈ repeatedText.tests, ∀ var ∈ test.lengthVars, var = .int 3 := by
    decide +kernel
  refine ⟨holds, substitute_lower_integers ?_ (by decide +kernel) holds ∅⟩
  intro test isTest var occurs
  rw [onlyLength test isTest var occurs]
  exact ⟨1, by decide +kernel, by decide, by decide⟩

end PathCondition

end Concolic
