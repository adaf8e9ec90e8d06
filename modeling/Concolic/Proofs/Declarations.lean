import Mathlib
import Concolic.Proofs.Characters
import Concolic.Proofs.Literals
import Concolic.Proofs.Statements
import Concolic.Proofs.Turning

/-!
# Queries declare what they name

What a query names is found only after substitution and lowering: sums lose their bound variables,
tests become comparisons of lengths or of characters, and known characters become numbers. The
query declares the variables that are left, each of them once, and asserts one bound for each of
those that need one.

In the character layer nothing is left that has a value already. If also all numbers and lengths
have one, then only characters of the strings in the path are left.
-/

namespace Concolic

namespace Condition

variable {Test Other : Type} {ofTest : Test → List Variable} {var : Variable}

/-- The variables of the comparisons, without those of tests. -/
def comparedVars (condition : Condition Test) : List Variable :=
  condition.vars fun _ => []

theorem mem_varsEach {members : List (Condition Test)} :
    var ∈ varsEach ofTest members ↔ ∃ member ∈ members, var ∈ member.vars ofTest := by
  rw [varsEach_eq_flatMap, List.mem_flatMap]

theorem comparedVars_subset (condition : Condition Test) :
    condition.comparedVars ⊆ condition.vars ofTest := by
  intro var occurs
  induction condition using induction with
  | anyOf members ih | allOf members ih =>
      rcases mem_varsEach.mp occurs with ⟨member, isMember, inMember⟩
      exact mem_varsEach.mpr ⟨member, isMember, ih member isMember inMember⟩
  | test expected question => simp [comparedVars, vars] at occurs
  | _ => exact occurs

theorem vars_negate (condition : Condition Test) :
    condition.negate.vars ofTest = condition.vars ofTest := by
  induction condition using induction with
  | anyOf members ih | allOf members ih =>
      simp only [negate, negateEach_eq_map, vars, varsEach_eq_flatMap, List.flatMap_map]
      exact List.flatMap_congr ih
  | _ => rfl

theorem vars_disjunction_subset (members : List (Condition Test)) :
    (disjunction members).vars ofTest ⊆ members.flatMap (vars ofTest) :=
  disjunction_subset rfl rfl (varsEach_eq_flatMap ofTest) members

theorem vars_conjunction_subset (members : List (Condition Test)) :
    (conjunction members).vars ofTest ⊆ members.flatMap (vars ofTest) := by
  have fewer : (disjunction (members.map negate)).vars ofTest ⊆ _ := vars_disjunction_subset _
  rw [conjunction_eq_negate_disjunction, vars_negate]
  simpa only [List.flatMap_map, vars_negate] using fewer

/-- Substitution leaves the comparisons with variables that they had and that are not bound. -/
theorem mem_comparedVars_resolve {assignment : Assignment} {outcome : Test → Option Bool}
    {condition : Condition Test}
    (occurs : var ∈ (condition.resolve assignment outcome).comparedVars) :
    var ∈ condition.comparedVars ∧ assignment.get? var = none := by
  have noVars (value : Bool) : (ofBool value : Condition Test).comparedVars = [] := by
    cases value <;> rfl
  induction condition using induction with
  | linear sum relation =>
      rw [resolve, decideLinear] at occurs
      split at occurs
      · simp [noVars] at occurs
      · rcases Linear.mem_vars_substitute.mp occurs with ⟨isNone, isTerm⟩
        exact ⟨Linear.mem_vars_of_coefficient_ne_zero isTerm, isNone⟩
  | compare left right relation =>
      have inEither :
          var ∈ (left.substitute assignment).vars ++ (right.substitute assignment).vars := by
        simp only [resolve, decideCompare] at occurs
        split at occurs
        · simp [noVars] at occurs
        · exact occurs
      rcases List.mem_append.mp inEither with inLeft | inRight
      · rcases Arith.mem_vars_substitute.mp inLeft with ⟨isVar, isNone⟩
        exact ⟨List.mem_append_left _ isVar, isNone⟩
      · rcases Arith.mem_vars_substitute.mp inRight with ⟨isVar, isNone⟩
        exact ⟨List.mem_append_right _ isVar, isNone⟩
  | anyOf members ih =>
      rcases eq_or_ne members [] with rfl | nonempty
      · simp [resolve, comparedVars, vars, varsEach] at occurs
      · rw [resolve_anyOf _ _ nonempty] at occurs
        have inMembers := vars_disjunction_subset _ occurs
        rw [List.flatMap_map, List.mem_flatMap] at inMembers
        rcases inMembers with ⟨member, isMember, inResolved⟩
        rcases ih member isMember inResolved with ⟨inMember, isNone⟩
        exact ⟨mem_varsEach.mpr ⟨member, isMember, inMember⟩, isNone⟩
  | allOf members ih =>
      rcases eq_or_ne members [] with rfl | nonempty
      · simp [resolve, comparedVars, vars, varsEach] at occurs
      · rw [resolve_allOf _ _ nonempty] at occurs
        have inMembers := vars_conjunction_subset _ occurs
        rw [List.flatMap_map, List.mem_flatMap] at inMembers
        rcases inMembers with ⟨member, isMember, inResolved⟩
        rcases ih member isMember inResolved with ⟨inMember, isNone⟩
        exact ⟨mem_varsEach.mpr ⟨member, isMember, inMember⟩, isNone⟩
  | test expected question =>
      rw [resolve, decideTest] at occurs
      split at occurs
      · simp [noVars] at occurs
      · simp [comparedVars, vars] at occurs
  | truth => simp [resolve, comparedVars, vars] at occurs
  | falsity => simp [resolve, comparedVars, vars] at occurs

/-- What replaces the tests brings its own variables in, and nothing else does. -/
theorem mem_vars_bindTests {replace : Bool → Test → Condition Other}
    {ofOther : Other → List Variable} {condition : Condition Test}
    (occurs : var ∈ (condition.bindTests replace).vars ofOther) :
    var ∈ condition.comparedVars ∨
      ∃ question ∈ condition.tests, ∃ expected, var ∈ (replace expected question).vars ofOther := by
  induction condition using induction with
  | anyOf members ih | allOf members ih =>
      simp only [bindTests, bindTestsEach_eq_map, vars, mem_varsEach, List.mem_map] at occurs
      rcases occurs with ⟨_, ⟨member, isMember, rfl⟩, inMember⟩
      rcases ih member isMember inMember with isCompared | ⟨question, isTest, inTest⟩
      · exact .inl (mem_varsEach.mpr ⟨member, isMember, isCompared⟩)
      · exact .inr ⟨question, mem_testsEach isMember isTest, inTest⟩
  | test expected question => exact .inr ⟨question, by simp [tests], expected, occurs⟩
  | _ => exact .inl occurs

end Condition

/-! ### Characters that are left -/

/-- A variable is a character of a string on one of the two sides of a test, below the length that
the string has. -/
def TextTest.HasLetter (test : TextTest) (assignment : Assignment) (var : Variable) : Prop :=
  ∃ symbol length value index,
    .input symbol length ∈ test.subject.segments ++ test.pattern.toText.segments ∧
    assignment.int? length = some value ∧ (UInt32.toNat index : Int) < value.toInt ∧
    var = .char symbol index

open Presentation

namespace Query

variable {path : List PathCondition} {target : Nat} {lexicon : Lexicon} {narrow : List UInt32}
  {layer : Layer} {assignment : Assignment} {extra : Option String} {query : Query}
  {condition : PathCondition} {var : Variable}

theorem unbound_of_mem_characterFormula {test : TextTest} {expected : Bool}
    (occurs : var ∈ (test.characterFormula expected assignment lexicon).vars Empty.elim) :
    assignment.get? var = none ∧ test.HasLetter assignment var := by
  let isOpen (var : Variable) : Prop := assignment.get? var = none ∧ test.HasLetter assignment var
  have ofText {text : SymText}
      (inTest : text.segments ⊆ test.subject.segments ++ test.pattern.toText.segments)
      (cells : List Cell) (known : text.cells? assignment lexicon = some cells) (key : Variable)
      (member : .unknown key ∈ cells) : isOpen key := by
    rcases SymText.unknown_mem_cells? known member with
      ⟨symbol, length, value, index, isInput, bound, inRange, isKey, isNone⟩
    exact ⟨isNone, symbol, length, value, _, inTest isInput, bound,
      SymText.toNat_lt_of_lt_cellCount inRange, isKey⟩
  have every : (test.characterFormula expected assignment lexicon).Every
      (.scoped isOpen fun _ => True) :=
    TextTest.every_characterFormula (ofText (List.subset_append_left _ _))
      (ofText (List.subset_append_right _ _)) expected
  exact every.scope_of_mem_vars (fun impossible => impossible.elim) occurs

/-- The character layer mentions no bound variable. What it mentions was in a comparison, or it is a
character of a string. -/
theorem unbound_of_mem_layerFormula
    (occurs : var ∈ (layerFormula lexicon .characters assignment condition).vars Empty.elim) :
    assignment.get? var = none ∧
      (var ∈ condition.comparedVars ∨ ∃ test ∈ condition.tests, test.HasLetter assignment var) := by
  rcases Condition.mem_vars_bindTests occurs with isCompared | ⟨test, isTest, expected, inTest⟩
  · rcases Condition.mem_comparedVars_resolve isCompared with ⟨wasCompared, isNone⟩
    exact ⟨isNone, .inl wasCompared⟩
  · rcases unbound_of_mem_characterFormula inTest with ⟨isNone, isLetter⟩
    exact ⟨isNone, .inr ⟨test, Condition.tests_resolve_subset _ _ _ isTest, isLetter⟩⟩

/-- The conditions that have to be true have the variables and the tests of those on the path. -/
theorem exists_of_mem_turned (isTurned : condition ∈ turned path target) :
    ∃ own ∈ path.take (target + 1),
      condition.comparedVars = own.comparedVars ∧ condition.tests = own.tests := by
  rw [List.take_add_one]
  rcases List.mem_append.mp isTurned with isEarlier | isLast
  · exact ⟨condition, List.mem_append_left _ isEarlier, rfl, rfl⟩
  · rcases List.mem_map.mp isLast with ⟨own, isOwn, rfl⟩
    exact ⟨own, List.mem_append_right _ isOwn, own.vars_negate, own.tests_negate⟩

theorem mem_boundedInts_iff :
    var ∈ query.boundedInts ↔ var ∈ query.declared.keys ∧ ∃ id ∈ query.narrow, var = .int id := by
  cases var <;> simp [boundedInts]

theorem mem_boundedChars_iff :
    var ∈ query.boundedChars ↔
      query.layer = .characters ∧ var ∈ query.declared.keys ∧ var.isChar = true := by
  rw [boundedChars]
  split <;> simp_all

theorem nodup_boundedChars (nodup : query.declared.keys.Nodup) : query.boundedChars.Nodup := by
  rw [boundedChars]
  split
  · exact List.nodup_nil
  · exact nodup.filter _

theorem assertions_of_build?
    (built : build? path target lexicon narrow layer assignment extra = some query) :
    query.assertions = (path.take target).map (layerFormula lexicon layer assignment) := by
  rcases Option.map_eq_some_iff.mp built with ⟨last, found, rfl⟩
  exact List.map_map

/-- The text of a query is made of its formulas and of a further assertion. Apart from that
assertion it names declared variables only, and it declares, once and in order, those that are named
in the substituted and lowered conditions. It asserts one bound to 32 bits for each of the `int`
inputs among them, in the character layer one bound to the printable codes for each of the
characters, and what is left of the conditions before the target. The character layer names nothing
that is bound, and if all free variables of the path are bound, then nothing is declared there but
characters of its strings below their lengths. -/
theorem declares_what_it_names (path : List PathCondition) (target : Nat)
    (inRange : target < path.length) (lexicon : Lexicon) (narrow : List UInt32) (layer : Layer)
    (assignment : Assignment) (extra : Option String) :
    ∃ query ints chars, build? path target lexicon narrow layer assignment extra = some query ∧
      query.text = String.join (query.opening ++ extra.toList.map assertion ++ query.closing) ∧
      Presentation.declared (String.join (query.opening ++ query.closing)) = query.declared.keys ∧
      query.declared.keys.Pairwise (· < ·) ∧
      (∀ var, var ∈ query.declared.keys ↔ ∃ condition ∈ turned path target,
        var ∈ names (layerFormula lexicon layer assignment condition).text.toList) ∧
      names (String.join (query.opening ++ query.closing)).toList ⊆ query.declared.keys ∧
      Presentation.assertions (String.join (query.opening ++ query.closing)).toList =
        ints ++ chars ++ ((path.take target).map fun condition =>
          lexemes (layerFormula lexicon layer assignment condition).text.toList) ∧
      List.Forall₂ (Bounds Numeral.int32Range) query.boundedInts ints ∧
      query.boundedInts.Nodup ∧
      (∀ var, var ∈ query.boundedInts ↔
        var ∈ query.declared.keys ∧ ∃ id ∈ narrow, var = .int id) ∧
      List.Forall₂ (Bounds characterRange) query.boundedChars chars ∧
      query.boundedChars.Nodup ∧
      (∀ var, var ∈ query.boundedChars ↔
        layer = .characters ∧ var ∈ query.declared.keys ∧ var.isChar = true) ∧
      (layer = .characters →
        (∀ var ∈ names (String.join (query.opening ++ query.closing)).toList,
          assignment.get? var = none) ∧
        ((∀ condition ∈ path.take (target + 1), assignment.Binds condition.freeVars.keys) →
          ∀ var ∈ query.declared.keys, ∃ condition ∈ path.take (target + 1),
            ∃ test ∈ condition.tests, test.HasLetter assignment var)) := by
  rcases exists_build? inRange with ⟨query, built⟩
  rcases fields_of_build? built with ⟨isLayer, isNarrow, isExtra⟩
  have noLines : List.Forall₂ IsStatement [] (([] : List (List (List Char))).map asserting) := .nil
  rcases exists_assertions_lines noLines with ⟨ints, chars, intBounds, charBounds, asserts⟩
  have declares : Presentation.declared (String.join (query.opening ++ [] ++ query.closing)) =
      query.declared.keys := declared_lines noLines
  rw [List.append_nil] at asserts declares
  rw [List.append_nil, assertions_of_build? built, List.map_map] at asserts
  have ascending : query.declared.keys.Pairwise (· < ·) :=
    List.pairwise_map.mpr query.declared.ascending
  have nodup : query.declared.keys.Nodup := by
    apply ascending.imp
    rintro var _ less rfl
    exact Variable.lt_irrefl var less
  refine ⟨query, ints, chars, built, ?_, declares, ascending, ?_, query.names_subset_declared,
    asserts, intBounds, nodup.filter _, ?_, charBounds, nodup_boundedChars nodup, ?_, ?_⟩
  · rw [text_eq_join, isExtra]
  · intro var
    rw [mem_declared_iff built]
    simp only [Formula.names_text]
  · intro var
    rw [mem_boundedInts_iff, isNarrow]
  · intro var
    rw [mem_boundedChars_iff, isLayer]
  · rintro rfl
    have cases_of_mem {var : Variable} (isDeclared : var ∈ query.declared.keys) :
        assignment.get? var = none ∧ ∃ own ∈ path.take (target + 1),
          var ∈ own.comparedVars ∨ ∃ test ∈ own.tests, test.HasLetter assignment var := by
      rcases (mem_declared_iff built).mp isDeclared with ⟨condition, isTurned, occurs⟩
      rcases exists_of_mem_turned isTurned with ⟨own, isOwn, sameVars, sameTests⟩
      rcases unbound_of_mem_layerFormula occurs with ⟨isNone, isEither⟩
      rw [sameVars, sameTests] at isEither
      exact ⟨isNone, own, isOwn, isEither⟩
    constructor
    · intro var isNamed
      exact (cases_of_mem (query.names_subset_declared isNamed)).1
    · intro bound var isDeclared
      rcases cases_of_mem isDeclared with ⟨isNone, own, isOwn, isCompared | isLetter⟩
      · have isFree : var ∈ own.freeVars.keys :=
          VarSet.mem_keys_ofList.mpr (own.comparedVars_subset isCompared)
        rcases bound own isOwn var isFree with ⟨value, isValue⟩
        rw [isNone] at isValue
        cases isValue
      · exact ⟨own, isOwn, isLetter⟩

/-- A number, and a string that is tested for being `ab`. -/
def labelled : List PathCondition :=
  [.linear (.ofVar (.int 3)) .ge,
    .test true { kind := .equals, subject := .input 1 2, pattern := .literal ⟨0⟩ }]

/-- The length of the string and its first character. -/
def labelledLetter : Assignment :=
  .ofList [(.int 2, 2), (.char 1 0, 97)]

/-- The number as well. -/
def labelledValues : Assignment :=
  .ofList [(.int 2, 2), (.int 3, 5), (.char 1 0, 97)]

/-- The second character is left to declare, and the number if it has no value. -/
theorem labelled_declares_letter :
    (∃ query ints chars, build? labelled 1 (.ofTexts ["ab"]) [3] .characters labelledLetter
        (some "(NOT ((x2 = 7 )))") = some query ∧
      query.text = "x3 : INT;\nx1__1 : INT;\n" ++
        "ASSERT (x3 >= (-2147483648)) AND (x3 <= 2147483647);\n" ++
        "ASSERT (x1__1 >= 32) AND (x1__1 <= 126);\nASSERT x3*(1) >= 0;\n" ++
        "ASSERT (NOT ((x2 = 7 )));\nCHECKSAT x1__1*(1)+(-98) /= 0;\nCOUNTERMODEL;\n" ∧
      Presentation.assertions (String.join (query.opening ++ query.closing)).toList =
        ints ++ chars ++ [lexemes "x3*(1) >= 0".toList] ∧
      List.Forall₂ (Bounds Numeral.int32Range) [.int 3] ints ∧
      List.Forall₂ (Bounds characterRange) [.char 1 1] chars) ∧
    (∀ condition ∈ labelled.take 2, labelledValues.Binds condition.freeVars.keys) ∧
    ∃ query, build? labelled 1 (.ofTexts ["ab"]) [3] .characters labelledValues
        (some "(NOT ((x2 = 7 )))") = some query ∧
      query.text = "x1__1 : INT;\nASSERT (x1__1 >= 32) AND (x1__1 <= 126);\nASSERT  TRUE ;\n" ++
        "ASSERT (NOT ((x2 = 7 )));\nCHECKSAT x1__1*(1)+(-98) /= 0;\nCOUNTERMODEL;\n" ∧
      .char 1 1 ∈ query.declared.keys ∧
      (∀ var ∈ names (String.join (query.opening ++ query.closing)).toList,
        labelledValues.get? var = none) ∧
      ∀ var ∈ query.declared.keys, ∃ condition ∈ labelled.take 2,
        ∃ test ∈ condition.tests, test.HasLetter labelledValues var := by
  have bound : ∀ condition ∈ labelled.take 2, labelledValues.Binds condition.freeVars.keys := by
    decide
  refine ⟨?_, bound, ?_⟩
  · rcases declares_what_it_names labelled 1 (by decide) (.ofTexts ["ab"]) [3] .characters
      labelledLetter (some "(NOT ((x2 = 7 )))") with
      ⟨query, ints, chars, built, _, _, _, _, _, asserts, intBounds, _, _, charBounds, _⟩
    have isBuilt : (build? labelled 1 (.ofTexts ["ab"]) [3] .characters labelledLetter
        (some "(NOT ((x2 = 7 )))")).map
          (fun query => (query.text, query.boundedInts, query.boundedChars)) =
        some ("x3 : INT;\nx1__1 : INT;\n" ++
          "ASSERT (x3 >= (-2147483648)) AND (x3 <= 2147483647);\n" ++
          "ASSERT (x1__1 >= 32) AND (x1__1 <= 126);\nASSERT x3*(1) >= 0;\n" ++
          "ASSERT (NOT ((x2 = 7 )));\nCHECKSAT x1__1*(1)+(-98) /= 0;\nCOUNTERMODEL;\n",
          [.int 3], [.char 1 1]) := by
      decide +kernel
    rw [built, Option.map_some, Option.some.injEq, Prod.mk.injEq, Prod.mk.injEq] at isBuilt
    rw [isBuilt.2.1] at intBounds
    rw [isBuilt.2.2] at charBounds
    exact ⟨query, ints, chars, built, isBuilt.1, asserts, intBounds, charBounds⟩
  · rcases declares_what_it_names labelled 1 (by decide) (.ofTexts ["ab"]) [3] .characters
      labelledValues (some "(NOT ((x2 = 7 )))") with
      ⟨query, _, _, built, _, _, _, _, _, _, _, _, _, _, _, _, characters⟩
    rcases characters rfl with ⟨unbound, letters⟩
    have isBuilt : (build? labelled 1 (.ofTexts ["ab"]) [3] .characters labelledValues
        (some "(NOT ((x2 = 7 )))")).map (fun query => (query.text, query.declared.keys)) =
        some ("x1__1 : INT;\nASSERT (x1__1 >= 32) AND (x1__1 <= 126);\nASSERT  TRUE ;\n" ++
          "ASSERT (NOT ((x2 = 7 )));\nCHECKSAT x1__1*(1)+(-98) /= 0;\nCOUNTERMODEL;\n",
          [.char 1 1]) := by
      decide +kernel
    rw [built, Option.map_some, Option.some.injEq, Prod.mk.injEq] at isBuilt
    refine ⟨query, built, isBuilt.1, ?_, unbound, letters bound⟩
    rw [isBuilt.2]
    exact List.mem_singleton_self _

end Query

end Concolic
