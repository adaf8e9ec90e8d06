import Mathlib
import Concolic.Proofs.Canonical
import Concolic.Proofs.Texts

/-!
# Complete assignments decide conditions

Substituting for all variables leaves a constant, and the constant is the right one. What is right
is said by `PathCondition.Reads`, which computes nothing by steps: a comparison looks at the exact
value of its sum or difference, reduced to a word once at the end, and a test looks at its two
character sequences as they are. Substitution reduces after every operation, folds early and stops
as soon as a member decides, and none of that shows in the result. In particular it does not matter
whether a linear sum is compared as a sum or as a term.
-/

namespace Concolic

namespace Arith

/-- The term of a sum mentions the variables of the sum, stored zeros included. -/
theorem vars_ofLinear (sum : Linear) : (ofLinear sum).vars = sum.vars := by
  have general (entries : List (Variable × Int64)) (start : Arith) :
      (entries.foldl (fun term entry => .add term (.mul (.var entry.1) (.const entry.2)))
        start).vars = start.vars ++ entries.map Prod.fst := by
    induction entries generalizing start with
    | nil => simp
    | cons entry rest ih =>
        rw [List.foldl_cons, ih]
        simp [vars]
  exact general _ _

theorem valueAt_ofLinear (valuation : Variable → Int) (sum : Linear) :
    (ofLinear sum).valueAt valuation = sum.valueAt valuation := by
  have general (entries : List (Variable × Int64)) (start : Arith) :
      (entries.foldl (fun term entry => .add term (.mul (.var entry.1) (.const entry.2)))
        start).valueAt valuation = start.valueAt valuation +
          VarMap.weigh (fun var coefficient => coefficient.toInt * valuation var) entries := by
    induction entries generalizing start with
    | nil => simp
    | cons entry rest ih =>
        rw [List.foldl_cons, ih, VarMap.weigh_cons]
        simp only [valueAt]
        ring
  exact general _ _

end Arith

namespace TestKind

/-- What a test says about two sequences of characters. A match against a regular expression has no
reading. -/
def Holds (subject pattern : List Char) : TestKind → Prop
  | .equals => subject = pattern
  | .startsWith offset =>
      ∃ before after, subject = before ++ pattern ++ after ∧ (before.length : Int) = offset.toInt
  | .endsWith => pattern <:+ subject
  | .contains => pattern <:+: subject
  | .regex => False

/-- The pattern stands at an offset exactly if it starts what is left after dropping so much. -/
theorem holds_startsWith_iff {subject pattern : List Char} {offset : Int64} :
    (startsWith offset).Holds subject pattern ↔
      (0 ≤ offset.toInt ∧ offset.toInt.toNat ≤ subject.length) ∧
        pattern <+: subject.drop offset.toInt.toNat := by
  constructor
  · rintro ⟨before, after, rfl, position⟩
    have start : offset.toInt.toNat = before.length := by omega
    rw [start, List.append_assoc, List.drop_left]
    exact ⟨⟨by omega, by simp⟩, List.prefix_append _ _⟩
  · rintro ⟨⟨nonneg, inside⟩, after, rest⟩
    refine ⟨subject.take offset.toInt.toNat, after, ?_, ?_⟩
    · rw [List.append_assoc, rest, List.take_append_drop]
    · rw [List.length_take]
      omega

/-- The computed outcome of a test is what the test says. -/
theorem outcome?_eq_some_true_iff {kind : TestKind} {subject pattern : List Char} :
    kind.outcome? subject pattern = some true ↔ kind.Holds subject pattern := by
  cases kind with
  | equals => simp [outcome?, Holds]
  | startsWith offset => simp [outcome?, holds_startsWith_iff]
  | endsWith => simp [outcome?, Holds]
  | contains => simp [outcome?, Holds, Text.occursIn_iff]
  | regex => simp [outcome?, Holds]

end TestKind

/-- Under an assignment, every variable of a comparison is bound, and every test is on concrete
texts. -/
def LeafRule.decidedAt (assignment : Assignment) (lexicon : Lexicon) : LeafRule TextTest :=
  .scoped (fun var => ∃ value, assignment.get? var = some value) fun test =>
    test.kind ≠ .regex ∧
      (∃ subject, test.subject.concrete? assignment lexicon = some subject) ∧
      ∃ pattern, test.pattern.toText.concrete? assignment lexicon = some pattern

/-- No leaf is a match against a regular expression. -/
def LeafRule.regexFree : LeafRule TextTest where
  linear _ := True
  compare _ _ := True
  test question := question.kind ≠ .regex

namespace Condition

variable {Test : Type}

/-- What is known of all variables and of all tests is known at every leaf. -/
theorem Every.scoped_of_forall {rule : LeafRule Test} {scope : Variable → Prop}
    {ofTest : Test → List Variable} {property : Test → Prop} {condition : Condition Test}
    (every : condition.Every rule) (inScope : ∀ var ∈ condition.vars ofTest, scope var)
    (ofTests : ∀ question ∈ condition.tests, property question) :
    condition.Every (.scoped scope fun question =>
      rule.test question ∧ (∀ var ∈ ofTest question, scope var) ∧ property question) := by
  induction condition using induction with
  | linear sum relation => exact inScope
  | compare left right relation =>
      exact ⟨fun var occurs => inScope var (List.mem_append_left _ occurs),
        fun var occurs => inScope var (List.mem_append_right _ occurs)⟩
  | anyOf members ih =>
      obtain ⟨nonempty, each⟩ := every_anyOf.mp every
      simp only [vars, varsEach_eq_flatMap, tests, testsEach_eq_flatMap, List.mem_flatMap,
        forall_exists_index, and_imp] at inScope ofTests
      exact every_anyOf.mpr ⟨nonempty, fun member isMember =>
        ih member isMember (each member isMember)
          (fun var => inScope var member isMember)
          fun question => ofTests question member isMember⟩
  | allOf members ih =>
      obtain ⟨nonempty, each⟩ := every_allOf.mp every
      simp only [vars, varsEach_eq_flatMap, tests, testsEach_eq_flatMap, List.mem_flatMap,
        forall_exists_index, and_imp] at inScope ofTests
      exact every_allOf.mpr ⟨nonempty, fun member isMember =>
        ih member isMember (each member isMember)
          (fun var => inScope var member isMember)
          fun question => ofTests question member isMember⟩
  | test expected question => exact ⟨every, inScope, ofTests question (by simp [tests])⟩
  | truth => trivial
  | falsity => trivial

end Condition

namespace PathCondition

mutual

/-- What a condition says of the words and texts that an assignment gives. -/
def Reads (assignment : Assignment) (lexicon : Lexicon) : PathCondition → Prop
  | .linear sum relation =>
      relation.holds ((sum.valueAt assignment.valuation).bmod (2 ^ 64)) = true
  | .compare left right relation =>
      relation.holds ((left.valueAt assignment.valuation -
        right.valueAt assignment.valuation).bmod (2 ^ 64)) = true
  | .anyOf members => SomeReads assignment lexicon members
  | .allOf members => EachReads assignment lexicon members
  | .test expected question =>
      ∃ subject pattern, question.subject.concrete? assignment lexicon = some subject ∧
        question.pattern.toText.concrete? assignment lexicon = some pattern ∧
        (question.kind.Holds subject pattern ↔ expected = true)
  | .truth => True
  | .falsity => False

/-- Some member holds. -/
def SomeReads (assignment : Assignment) (lexicon : Lexicon) : List PathCondition → Prop
  | [] => False
  | member :: rest => Reads assignment lexicon member ∨ SomeReads assignment lexicon rest

/-- Every member holds. -/
def EachReads (assignment : Assignment) (lexicon : Lexicon) : List PathCondition → Prop
  | [] => True
  | member :: rest => Reads assignment lexicon member ∧ EachReads assignment lexicon rest

end

variable {assignment : Assignment} {lexicon : Lexicon}

theorem reads_anyOf {members : List PathCondition} :
    Reads assignment lexicon (.anyOf members) ↔
      ∃ member ∈ members, Reads assignment lexicon member := by
  rw [Reads]
  induction members with
  | nil => simp [SomeReads]
  | cons member rest ih => simp [SomeReads, ih]

theorem reads_allOf {members : List PathCondition} :
    Reads assignment lexicon (.allOf members) ↔
      ∀ member ∈ members, Reads assignment lexicon member := by
  rw [Reads]
  induction members with
  | nil => simp [EachReads]
  | cons member rest ih => simp [EachReads, ih]

/-- A test on concrete texts is decided as it reads. -/
theorem decideTest_eq_ofBool {test : TextTest} {subject pattern : List Char} {expected : Bool}
    (notRegex : test.kind ≠ .regex)
    (subjectKnown : test.subject.concrete? assignment lexicon = some subject)
    (patternKnown : test.pattern.toText.concrete? assignment lexicon = some pattern)
    [Decidable (Reads assignment lexicon (.test expected test))] :
    Condition.decideTest (fun test => test.outcome? assignment lexicon) expected test =
      .ofBool (decide (Reads assignment lexicon (.test expected test))) := by
  obtain ⟨actual, outcome⟩ := TextTest.exists_outcome? notRegex subjectKnown patternKnown
  have ofChars : test.kind.outcome? subject pattern = some actual := by
    simpa [TextTest.outcome?, subjectKnown, patternKnown] using outcome
  have meaning : test.kind.Holds subject pattern ↔ actual = true := by
    rw [← TestKind.outcome?_eq_some_true_iff, ofChars, Option.some.injEq]
  have reads : Reads assignment lexicon (.test expected test) ↔ actual = expected := by
    simp only [Reads, subjectKnown, patternKnown, Option.some.injEq, exists_and_left,
      exists_eq_left', meaning, Bool.coe_iff_coe]
  simp only [Condition.decideTest, outcome]
  congr 1
  rw [Bool.eq_iff_iff, beq_iff_eq, decide_eq_true_iff, reads]

theorem substitute_linear {sum : Linear} (binds : assignment.Binds sum.vars)
    (relation : Relation) :
    substitute (.linear sum relation) assignment lexicon =
      .ofBool (relation.holds (Int64.ofInt (sum.valueAt assignment.valuation)).toInt) := by
  rw [substitute, Condition.resolve, Condition.decideLinear_of_binds binds]

theorem substitute_compare {left right : Arith} (bindsLeft : assignment.Binds left.vars)
    (bindsRight : assignment.Binds right.vars) (relation : Relation) :
    substitute (.compare left right relation) assignment lexicon =
      .ofBool (relation.holds (Int64.ofInt (left.valueAt assignment.valuation -
        right.valueAt assignment.valuation)).toInt) := by
  rw [substitute, Condition.resolve, Arith.substitute_eq_const bindsLeft,
    Arith.substitute_eq_const bindsRight, Condition.decideCompare, ← Int64.ofInt_sub]

open Classical in
/-- Substitution for everything that a condition mentions leaves its reading as a constant. -/
theorem substitute_eq_ofBool_reads {condition : PathCondition}
    (decided : condition.Every (.decidedAt assignment lexicon)) :
    condition.substitute assignment lexicon =
      .ofBool (decide (condition.Reads assignment lexicon)) := by
  induction condition using Condition.induction with
  | linear sum relation =>
      rw [substitute_linear decided, Int64.toInt_ofInt, Reads, Bool.decide_eq_true]
      rfl
  | compare left right relation =>
      rw [substitute_compare decided.1 decided.2, Int64.toInt_ofInt, Reads, Bool.decide_eq_true]
      rfl
  | anyOf members ih =>
      obtain ⟨nonempty, each⟩ := Condition.every_anyOf.mp decided
      have constants : members.map (fun member => substitute member assignment lexicon) =
          (members.map fun member => decide (Reads assignment lexicon member)).map
            Condition.ofBool := by
        rw [List.map_map]
        exact List.map_congr_left fun member isMember => ih member isMember (each member isMember)
      rw [substitute, Condition.resolve_anyOf _ _ nonempty]
      refine (congrArg Condition.disjunction constants).trans ?_
      rw [Condition.disjunction_map_ofBool]
      congr 1
      rw [Bool.eq_iff_iff, decide_eq_true_iff, reads_anyOf]
      simp
  | allOf members ih =>
      obtain ⟨nonempty, each⟩ := Condition.every_allOf.mp decided
      have constants : members.map (fun member => substitute member assignment lexicon) =
          (members.map fun member => decide (Reads assignment lexicon member)).map
            Condition.ofBool := by
        rw [List.map_map]
        exact List.map_congr_left fun member isMember => ih member isMember (each member isMember)
      rw [substitute, Condition.resolve_allOf _ _ nonempty]
      refine (congrArg Condition.conjunction constants).trans ?_
      rw [Condition.conjunction_map_ofBool]
      congr 1
      rw [Bool.eq_iff_iff, decide_eq_true_iff, reads_allOf]
      simp
  | test expected question =>
      obtain ⟨notRegex, ⟨subject, subjectKnown⟩, pattern, patternKnown⟩ := decided
      exact decideTest_eq_ofBool notRegex subjectKnown patternKnown
  | truth =>
      rw [decide_eq_true (by trivial : Reads assignment lexicon .truth)]
      rfl
  | falsity =>
      rw [decide_eq_false (by simp [Reads] : ¬Reads assignment lexicon .falsity)]
      rfl

/-- A sum and the term that adds up its products are decided alike. Under an assignment that binds the
variables of the sum, both have the exact value, reduced to a word: the term after every product and
every addition, the sum after every term that is not dropped. A comparison of either with zero is
decided by this word. -/
theorem compare_ofLinear_agrees {sum : Linear} (binds : assignment.Binds sum.vars) :
    ∃ value, sum.evaluate? assignment = some value ∧
      value = Int64.ofInt (sum.valueAt assignment.valuation) ∧
      (Arith.ofLinear sum).substitute assignment = .const value ∧
      ∀ (relation : Relation) (lexicon : Lexicon),
        substitute (.compare (.ofLinear sum) (.const 0) relation) assignment lexicon =
            substitute (.linear sum relation) assignment lexicon ∧
          substitute (.linear sum relation) assignment lexicon =
            .ofBool (relation.holds value.toInt) := by
  have bindsTerm : assignment.Binds (Arith.ofLinear sum).vars := by
    rwa [Arith.vars_ofLinear]
  refine ⟨_, Linear.evaluate?_eq_some binds, rfl, ?_, ?_⟩
  · rw [Arith.substitute_eq_const bindsTerm, Arith.valueAt_ofLinear]
  · intro relation lexicon
    have decided : substitute (.linear sum relation) assignment lexicon = _ :=
      substitute_linear binds relation
    refine ⟨?_, decided⟩
    rw [decided, substitute_compare bindsTerm (by simp [Arith.vars, Assignment.Binds]),
      Arith.valueAt_ofLinear, Arith.valueAt, Int64.toInt_zero, sub_zero]

/-- The product with the least word leaves the words, and a zero is stored. -/
theorem lopsided_compare_agrees :
    Linear.corner.Binds Linear.lopsided.vars ∧
      Arith.ofLinear Linear.lopsided =
        .add (.add (.const 7) (.mul (.var (.int 1)) (.const (-9223372036854775808))))
          (.mul (.var (.int 2)) (.const 0)) ∧
      (Arith.ofLinear Linear.lopsided).substitute Linear.corner =
        .const (-9223372036854775801) ∧
      substitute (.compare (.ofLinear Linear.lopsided) (.const 0) .lt) Linear.corner {} =
        substitute (.linear Linear.lopsided .lt) Linear.corner {} ∧
      substitute (.linear Linear.lopsided .lt) Linear.corner {} = .truth := by
  have binds : Linear.corner.Binds Linear.lopsided.vars := by decide +kernel
  rcases compare_ofLinear_agrees binds with ⟨value, evaluates, _, isConst, agrees⟩
  have isValue : Linear.lopsided.evaluate? Linear.corner = some (-9223372036854775801) := by
    decide +kernel
  obtain rfl : -9223372036854775801 = value := Option.some.inj (isValue.symm.trans evaluates)
  rcases agrees .lt {} with ⟨same, decided⟩
  exact ⟨binds, by decide +kernel, isConst, same, decided⟩

/-- An assignment to all variables of a condition, characters below the lengths included, decides
the condition, and decides it as it reads. -/
theorem substitute_decides {condition : PathCondition}
    (regexFree : condition.Every .regexFree)
    (bound : ∀ var ∈ condition.freeVars.keys, ∃ value, assignment.get? var = some value)
    (filled : ∀ test ∈ condition.tests, ∀ symbol length,
      .input symbol length ∈ test.subject.segments ++ test.pattern.toText.segments →
        ∀ value, assignment.int? length = some value →
          ∀ index : UInt32, (index.toNat : Int) < value.toInt →
            ∃ character, assignment.char? symbol index = some (codeOf character)) :
    (condition.substitute assignment lexicon = .truth ∨
        condition.substitute assignment lexicon = .falsity) ∧
      (condition.substitute assignment lexicon = .truth ↔ condition.Reads assignment lexicon) := by
  classical
  have everywhere := regexFree.scoped_of_forall
    (fun var occurs => bound var (VarSet.mem_keys_ofList.mpr occurs)) filled
  have decided : condition.Every (.decidedAt assignment lexicon) := by
    refine everywhere.mono (fun _ inScope => inScope) (fun _ _ inScope => inScope) ?_
    rintro test ⟨notRegex, lengthsBound, filledThere⟩
    have unchanged := Assignment.Extends.refl assignment
    have subjectLettered : test.subject.Lettered assignment assignment :=
      fun symbol length value isInput =>
        filledThere symbol length (List.mem_append_left _ isInput) value
    have patternLettered : test.pattern.toText.Lettered assignment assignment :=
      fun symbol length value isInput =>
        filledThere symbol length (List.mem_append_right _ isInput) value
    refine ⟨notRegex, ?_, ?_⟩
    · exact subjectLettered.exists_concrete? unchanged
        fun var occurs => lengthsBound var (List.mem_append_left _ occurs)
    · exact patternLettered.exists_concrete? unchanged
        fun var occurs => lengthsBound var (List.mem_append_right _ occurs)
  rw [substitute_eq_ofBool_reads decided]
  by_cases reads : condition.Reads assignment lexicon <;> simp [reads, Condition.ofBool]

/-- The square of a number is zero, and a text ends with the one or has the other literal text at
position one. -/
def squareAndText : PathCondition :=
  .allOf [.compare (.mul (.var (.int 1)) (.var (.int 1))) (.const 0) .eq,
    .anyOf [.test true { kind := .endsWith, subject := .input 2 3, pattern := .literal ⟨0⟩ },
      .test true { kind := .startsWith 1, subject := .input 2 3, pattern := .literal ⟨1⟩ }]]

/-- A number whose square is zero as a word, and the text `ok`. -/
def squareAndTextValues : Assignment :=
  .ofList [(.int 1, 4294967296), (.int 3, 2), (.char 2 0, 111), (.char 2 1, 107)]

theorem squareAndText_reads :
    squareAndText.Every .regexFree ∧
      squareAndText.substitute squareAndTextValues (.ofTexts ["o", "k"]) = .truth ∧
      squareAndText.Reads squareAndTextValues (.ofTexts ["o", "k"]) := by
  have regexFree : squareAndText.Every .regexFree := by
    simp [squareAndText, Condition.Every, Condition.EveryEach, LeafRule.regexFree]
  have bound : ∀ var ∈ squareAndText.freeVars.keys,
      ∃ value, squareAndTextValues.get? var = some value := by
    simp only [← Option.isSome_iff_exists]
    decide +kernel
  have segments : ∀ test ∈ squareAndText.tests,
      ∀ segment ∈ test.subject.segments ++ test.pattern.toText.segments,
        segment.isInput = true → segment = .input 2 3 := by decide +kernel
  have filled : ∀ test ∈ squareAndText.tests, ∀ symbol length,
      .input symbol length ∈ test.subject.segments ++ test.pattern.toText.segments →
        ∀ value, squareAndTextValues.int? length = some value →
          ∀ index : UInt32, (index.toNat : Int) < value.toInt →
            ∃ character, squareAndTextValues.char? symbol index = some (codeOf character) := by
    intro test isTest symbol length isInput value isValue index below
    cases segments test isTest _ isInput rfl
    cases isValue
    have below : (index.toNat : Int) < 2 := below
    have isEither : index = 0 ∨ index = 1 := by
      simp only [← UInt32.toNat_inj]
      exact (by omega : index.toNat = 0 ∨ index.toNat = 1)
    rcases isEither with rfl | rfl
    · exact ⟨'o', by decide +kernel⟩
    · exact ⟨'k', by decide +kernel⟩
  have holds : squareAndText.substitute squareAndTextValues (.ofTexts ["o", "k"]) = .truth := by
    decide +kernel
  exact ⟨regexFree, holds, (substitute_decides regexFree bound filled).2.mp holds⟩

end PathCondition

end Concolic
