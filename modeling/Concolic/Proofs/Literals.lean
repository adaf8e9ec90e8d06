import Mathlib
import Concolic.Proofs.Texts
import Concolic.Trace

/-!
# Importing literal texts

A trace numbers its literal texts by their places in its own list, where a text may stand twice. A
recording numbers them by its lexicon, where each text has one number. An import goes through a
condition once, changes the numbers and keeps a record of what is missing. It is compared with a
plain change of all numbers and with the list of the numbers as they are read
(`PathCondition.run_renumber`). So to import a condition is to write its literal texts out by the
first numbering and to number them by the second (`PathCondition.importLiterals_eq_ok`).

The written-out form, `PathCondition.spelled`, is what both numberings have in common. Whatever a
test says, by its outcome or by its formulas, it says of that form, so an imported condition says
what the condition of the trace did, and it goes on to say so while the lexicon grows.
-/

namespace Concolic

/-! ### Interning -/

namespace Lexicon

variable {earlier later : Lexicon} {text : String}

/-- The number of a text is the first place where it stands. -/
def number (lexicon : Lexicon) (text : String) : LiteralId :=
  ⟨.ofNat (lexicon.texts.idxOf text)⟩

theorem number_of_prefix (grown : earlier.texts <+: later.texts) (isKnown : text ∈ earlier.texts) :
    later.number text = earlier.number text := by
  rcases grown with ⟨added, isAdded⟩
  rw [number, number, ← isAdded, List.idxOf_append_of_mem isKnown]

/-- A text stands at its number, now and later, if the numbers suffice for the texts known now. -/
theorem text_number (room : earlier.texts.length ≤ 2 ^ 32) (grown : earlier.texts <+: later.texts)
    (isKnown : text ∈ earlier.texts) : later.text (earlier.number text) = text := by
  have inside : earlier.texts.idxOf text < earlier.texts.length :=
    List.idxOf_lt_length_iff.mpr isKnown
  have isIndex : (earlier.number text).val.toNat = earlier.texts.idxOf text :=
    UInt32.toNat_ofNat_of_lt' (Nat.lt_of_lt_of_le inside room)
  rw [ text_of_prefix grown (by rwa [isIndex]), Lexicon.text, resolve?, isIndex,
    List.getElem?_eq_getElem inside, List.getElem_idxOf inside, Option.getD_some]

theorem intern_of_mem {lexicon : Lexicon} (isKnown : text ∈ lexicon.texts) :
    lexicon.intern text = (lexicon.number text, lexicon) := by
  rw [intern, lookup?, number, List.idxOf_eq_getD_idxOf?]
  cases isFound : lexicon.texts.idxOf? text with
  | none => exact absurd isKnown (List.idxOf?_eq_none_iff.mp isFound)
  | some position => rfl

theorem intern_of_notMem {lexicon : Lexicon} (isNew : text ∉ lexicon.texts) :
    lexicon.intern text = (⟨.ofNat lexicon.texts.length⟩, ⟨lexicon.texts ++ [text]⟩) := by
  rw [intern, lookup?, List.idxOf?_eq_none_iff.mpr isNew]
  rfl

theorem mem_texts_intern (lexicon : Lexicon) (text : String) :
    text ∈ (lexicon.intern text).2.texts := by
  by_cases isKnown : text ∈ lexicon.texts
  · rwa [intern_of_mem isKnown]
  · rw [intern_of_notMem isKnown]
    simp

theorem number_intern (lexicon : Lexicon) (text : String) :
    (lexicon.intern text).1 = (lexicon.intern text).2.number text := by
  by_cases isKnown : text ∈ lexicon.texts
  · rw [intern_of_mem isKnown]
  · rw [intern_of_notMem isKnown, number, List.idxOf_append_of_notMem isKnown]
    simp

theorem texts_prefix_internAll (lexicon : Lexicon) (strings : List String) :
    lexicon.texts <+: (lexicon.internAll strings).2.texts := by
  induction strings generalizing lexicon with
  | nil => exact List.prefix_refl _
  | cons text rest ih => exact (lexicon.texts_prefix_intern text).trans (ih _)

theorem mem_texts_internAll (lexicon : Lexicon) {strings : List String} (isOne : text ∈ strings) :
    text ∈ (lexicon.internAll strings).2.texts := by
  induction strings generalizing lexicon with
  | nil => simp at isOne
  | cons first rest ih =>
      rcases List.mem_cons.mp isOne with rfl | inRest
      · exact (texts_prefix_internAll _ rest).subset (lexicon.mem_texts_intern text)
      · exact ih (lexicon.intern first).2 inRest

/-- Each text gets the number that it has in the end. -/
theorem numbers_internAll (lexicon : Lexicon) (strings : List String) :
    (lexicon.internAll strings).1 = strings.map (lexicon.internAll strings).2.number := by
  induction strings generalizing lexicon with
  | nil => rfl
  | cons text rest ih =>
      have same := number_of_prefix (texts_prefix_internAll (lexicon.intern text).2 rest)
        (lexicon.mem_texts_intern text)
      rw [internAll, List.map_cons]
      simp only
      rw [same, number_intern, ih]

theorem internAll_of_known {lexicon : Lexicon} {strings : List String}
    (known : ∀ text ∈ strings, text ∈ lexicon.texts) :
    lexicon.internAll strings = (strings.map lexicon.number, lexicon) := by
  induction strings with
  | nil => rfl
  | cons text rest ih =>
      rw [List.forall_mem_cons] at known
      rw [internAll, intern_of_mem known.1]
      simp only
      rw [ih known.2, List.map_cons]

/-- A text of a list of its own stands at its place, whether or not it stands there twice. -/
theorem text_mk {strings : List String} {id : LiteralId} (inside : id.val.toNat < strings.length) :
    strings[id.val.toNat]? = some ((⟨strings⟩ : Lexicon).text id) := by
  rw [text, resolve?, List.getElem?_eq_getElem inside, Option.getD_some]

end Lexicon

/-! ### Written-out literal texts -/

/-- A part of a symbolic text, with its literal text written out. -/
inductive SpelledSegment where
  | input (symbol length : UInt32)
  | literal (text : String)
  deriving DecidableEq

/-- A pattern with its literal texts written out. -/
inductive SpelledPattern where
  | literal (text : String)
  | symbolic (segments : List SpelledSegment)
  deriving DecidableEq

/-- A test with its literal texts written out. -/
structure SpelledTest where
  kind : TestKind
  subject : List SpelledSegment
  pattern : SpelledPattern
  deriving DecidableEq

def Segment.spelled (lexicon : Lexicon) : Segment → SpelledSegment
  | .input symbol length => .input symbol length
  | .literal id => .literal (lexicon.text id)

def SymText.spelled (lexicon : Lexicon) (text : SymText) : List SpelledSegment :=
  text.segments.map (Segment.spelled lexicon)

def Pattern.spelled (lexicon : Lexicon) : Pattern → SpelledPattern
  | .literal id => .literal (lexicon.text id)
  | .symbolic text => .symbolic (text.spelled lexicon)

def TextTest.spelled (lexicon : Lexicon) (test : TextTest) : SpelledTest where
  kind := test.kind
  subject := test.subject.spelled lexicon
  pattern := test.pattern.spelled lexicon

/-- The condition with its literal texts written out. -/
def PathCondition.spelled (lexicon : Lexicon) (condition : PathCondition) : Condition SpelledTest :=
  condition.mapTests (TextTest.spelled lexicon)

def SpelledSegment.numbered (lexicon : Lexicon) : SpelledSegment → Segment
  | .input symbol length => .input symbol length
  | .literal text => .literal (lexicon.number text)

def SpelledPattern.numbered (lexicon : Lexicon) : SpelledPattern → Pattern
  | .literal text => .literal (lexicon.number text)
  | .symbolic segments => .symbolic ⟨segments.map (SpelledSegment.numbered lexicon)⟩

/-- The test with the numbers of its literal texts. -/
def SpelledTest.numbered (lexicon : Lexicon) (test : SpelledTest) : TextTest where
  kind := test.kind
  subject := ⟨test.subject.map (SpelledSegment.numbered lexicon)⟩
  pattern := test.pattern.numbered lexicon

/-! ### What a test says depends on its written-out form -/

section Spelled

variable {lexicon other : Lexicon} {assignment : Assignment} {expected : Bool}

theorem Segment.cells?_of_spelled {first second : Segment}
    (same : first.spelled lexicon = second.spelled other) :
    first.cells? assignment lexicon = second.cells? assignment other := by
  cases first with
  | input symbol length =>
      cases second <;> simp_all [spelled, cells?]
  | literal id =>
      cases second <;> simp_all [spelled, cells?]

theorem Segment.addLength_of_spelled {first second : Segment} (sum : Linear)
    (same : first.spelled lexicon = second.spelled other) :
    first.addLength lexicon sum = second.addLength other sum := by
  cases first with
  | input symbol length =>
      cases second <;> simp_all [spelled, addLength]
  | literal id =>
      cases second <;> simp_all [spelled, addLength]

theorem SymText.forall₂_of_spelled {first second : SymText}
    (same : first.spelled lexicon = second.spelled other) :
    List.Forall₂ (fun segment segment' => segment.spelled lexicon = segment'.spelled other)
      first.segments second.segments := by
  rw [spelled, spelled, ← List.forall₂_eq_eq_eq, List.forall₂_map_left_iff,
    List.forall₂_map_right_iff] at same
  exact same

theorem SymText.cells?_of_spelled {first second : SymText}
    (same : first.spelled lexicon = second.spelled other) :
    first.cells? assignment lexicon = second.cells? assignment other := by
  rcases first with ⟨segments⟩
  rcases second with ⟨others⟩
  have related : List.Forall₂ _ segments others := forall₂_of_spelled same
  induction related with
  | nil => rfl
  | cons sameSegment _ ih =>
      rw [spelled, spelled, List.map_cons, List.map_cons, List.cons.injEq] at same
      rw [cells?_cons, cells?_cons, Segment.cells?_of_spelled sameSegment, ih same.2]

theorem SymText.length_of_spelled {first second : SymText}
    (same : first.spelled lexicon = second.spelled other) :
    first.length lexicon = second.length other := by
  rcases first with ⟨segments⟩
  rcases second with ⟨others⟩
  have related : List.Forall₂ _ segments others := forall₂_of_spelled same
  clear same
  rw [length, length]
  generalize Linear.ofConstant 0 = sum
  induction related generalizing sum with
  | nil => rfl
  | cons sameSegment _ ih =>
      rw [List.foldl_cons, List.foldl_cons, Segment.addLength_of_spelled sum sameSegment]
      exact ih _

theorem Pattern.toText_of_spelled {first second : Pattern}
    (same : first.spelled lexicon = second.spelled other) :
    first.toText.spelled lexicon = second.toText.spelled other := by
  cases first with
  | literal id =>
      cases second <;> simp_all [spelled, toText, SymText.literal, SymText.spelled, Segment.spelled]
  | symbolic text =>
      cases second <;> simp_all [spelled, toText]

namespace TextTest

variable {first second : TextTest} (same : first.spelled lexicon = second.spelled other)

include same

theorem outcome?_of_spelled :
    first.outcome? assignment lexicon = second.outcome? assignment other := by
  rw [spelled, spelled, SpelledTest.mk.injEq] at same
  rcases same with ⟨sameKind, sameSubject, samePattern⟩
  rw [outcome?, outcome?, SymText.concrete?, SymText.concrete?, SymText.concrete?,
    SymText.concrete?, SymText.cells?_of_spelled sameSubject,
    SymText.cells?_of_spelled (Pattern.toText_of_spelled samePattern), sameKind]

theorem lengthFormula_of_spelled :
    first.lengthFormula expected lexicon = second.lengthFormula expected other := by
  rw [spelled, spelled, SpelledTest.mk.injEq] at same
  rcases same with ⟨sameKind, sameSubject, samePattern⟩
  rw [lengthFormula, lengthFormula, SymText.length_of_spelled sameSubject,
    SymText.length_of_spelled (Pattern.toText_of_spelled samePattern), sameKind]

theorem characterFormula_of_spelled :
    first.characterFormula expected assignment lexicon =
      second.characterFormula expected assignment other := by
  rw [spelled, spelled, SpelledTest.mk.injEq] at same
  rcases same with ⟨sameKind, sameSubject, samePattern⟩
  rw [characterFormula, characterFormula, SymText.cells?_of_spelled sameSubject,
    SymText.cells?_of_spelled (Pattern.toText_of_spelled samePattern), sameKind]

end TextTest

end Spelled

/-! ### Changing the tests of a condition -/

namespace Condition

variable {Test Other Third : Type} {change : Test → Other}

theorem mem_testsEach {members : List (Condition Test)} {member : Condition Test} {question : Test}
    (isMember : member ∈ members) (isTest : question ∈ member.tests) :
    question ∈ testsEach members := by
  rw [testsEach_eq_flatMap]
  exact List.mem_flatMap.mpr ⟨member, isMember, isTest⟩

theorem mapTests_anyOf (change : Test → Other) (members : List (Condition Test)) :
    (anyOf members).mapTests change = .anyOf (members.map (mapTests change)) := by
  rw [mapTests, bindTests, bindTestsEach_eq_map]
  rfl

theorem mapTests_allOf (change : Test → Other) (members : List (Condition Test)) :
    (allOf members).mapTests change = .allOf (members.map (mapTests change)) := by
  rw [mapTests, bindTests, bindTestsEach_eq_map]
  rfl

theorem mapTests_ofBool (change : Test → Other) (value : Bool) :
    (ofBool value).mapTests change = ofBool value := by
  cases value <;> rfl

theorem tests_mapTests (change : Test → Other) (condition : Condition Test) :
    (condition.mapTests change).tests = condition.tests.map change := by
  induction condition using induction with
  | anyOf members ih | allOf members ih =>
      simp only [mapTests_anyOf, mapTests_allOf, tests, testsEach_eq_flatMap, List.flatMap_map,
        List.map_flatMap]
      exact List.flatMap_congr ih
  | _ => rfl

theorem mapTests_mapTests (change : Test → Other) (further : Other → Third)
    (condition : Condition Test) :
    (condition.mapTests change).mapTests further = condition.mapTests fun test =>
      further (change test) := by
  induction condition using induction with
  | anyOf members ih =>
      simp only [mapTests_anyOf, List.map_map]
      exact congrArg anyOf (List.map_congr_left ih)
  | allOf members ih =>
      simp only [mapTests_allOf, List.map_map]
      exact congrArg allOf (List.map_congr_left ih)
  | _ => rfl

theorem mapTests_congr {other : Test → Other} {condition : Condition Test}
    (same : ∀ question ∈ condition.tests, change question = other question) :
    condition.mapTests change = condition.mapTests other := by
  induction condition using induction with
  | anyOf members ih =>
      rw [mapTests_anyOf, mapTests_anyOf]
      exact congrArg anyOf (List.map_congr_left fun member isMember =>
        ih member isMember fun question isTest => same question (mem_testsEach isMember isTest))
  | allOf members ih =>
      rw [mapTests_allOf, mapTests_allOf]
      exact congrArg allOf (List.map_congr_left fun member isMember =>
        ih member isMember fun question isTest => same question (mem_testsEach isMember isTest))
  | test expected question =>
      rw [mapTests, mapTests, bindTests, bindTests, same question (by simp [tests])]
  | _ => rfl

theorem mapTests_negate (change : Test → Other) (condition : Condition Test) :
    condition.negate.mapTests change = (condition.mapTests change).negate := by
  induction condition using induction with
  | anyOf members ih =>
      simp only [mapTests_anyOf, mapTests_allOf, negate, negateEach_eq_map, List.map_map]
      exact congrArg allOf (List.map_congr_left ih)
  | allOf members ih =>
      simp only [mapTests_anyOf, mapTests_allOf, negate, negateEach_eq_map, List.map_map]
      exact congrArg anyOf (List.map_congr_left ih)
  | _ => rfl

theorem keptAny_mapTests (change : Test → Other) (members : List (Condition Test)) :
    keptAny (members.map (mapTests change)) =
      (keptAny members).map (List.map (mapTests change)) := by
  induction members with
  | nil => rfl
  | cons member rest ih =>
      have sameTruth : (member.mapTests change).isTruth = member.isTruth := by
        cases member <;> rfl
      have sameFalsity : (member.mapTests change).isFalsity = member.isFalsity := by
        cases member <;> rfl
      rw [List.map_cons, keptAny_cons, keptAny_cons, sameTruth, sameFalsity, ih]
      split
      · rfl
      · split
        · rfl
        · cases keptAny rest <;> rfl

theorem mapTests_disjunction (change : Test → Other) (members : List (Condition Test)) :
    (disjunction members).mapTests change = disjunction (members.map (mapTests change)) := by
  rw [disjunction, disjunction, keptAny_mapTests]
  rcases keptAny members with _ | _ | ⟨first, _ | ⟨second, rest⟩⟩
  · rfl
  · rfl
  · rfl
  · exact mapTests_anyOf change (first :: second :: rest)

theorem mapTests_conjunction (change : Test → Other) (members : List (Condition Test)) :
    (conjunction members).mapTests change = conjunction (members.map (mapTests change)) := by
  rw [conjunction_eq_negate_disjunction, mapTests_negate, mapTests_disjunction,
    conjunction_eq_negate_disjunction, List.map_map, List.map_map]
  congr 2
  apply List.map_congr_left
  intro member _
  exact mapTests_negate change member

/-- A change that no outcome sees may be made before or after substitution. -/
theorem resolve_mapTests {assignment : Assignment} {outcome : Test → Option Bool}
    {changed : Other → Option Bool} {condition : Condition Test}
    (same : ∀ question ∈ condition.tests, changed (change question) = outcome question) :
    (condition.mapTests change).resolve assignment changed =
      (condition.resolve assignment outcome).mapTests change := by
  induction condition using induction with
  | linear sum relation =>
      simp only [mapTests, bindTests, resolve, decideLinear]
      split
      · exact (mapTests_ofBool change _).symm
      · rfl
  | compare left right relation =>
      simp only [mapTests, bindTests, resolve, decideCompare]
      split
      · exact (mapTests_ofBool change _).symm
      · rfl
  | anyOf members ih =>
      rcases eq_or_ne members [] with rfl | nonempty
      · rfl
      · rw [mapTests_anyOf, resolve_anyOf _ _ (by simpa using nonempty), resolve_anyOf _ _ nonempty,
          mapTests_disjunction, List.map_map, List.map_map]
        exact congrArg disjunction (List.map_congr_left fun member isMember =>
          ih member isMember fun question isTest => same question (mem_testsEach isMember isTest))
  | allOf members ih =>
      rcases eq_or_ne members [] with rfl | nonempty
      · rfl
      · rw [mapTests_allOf, resolve_allOf _ _ (by simpa using nonempty), resolve_allOf _ _ nonempty,
          mapTests_conjunction, List.map_map, List.map_map]
        exact congrArg conjunction (List.map_congr_left fun member isMember =>
          ih member isMember fun question isTest => same question (mem_testsEach isMember isTest))
  | test expected question =>
      have sameOutcome := same question (by simp [tests])
      simp only [mapTests, bindTests, resolve, decideTest, sameOutcome]
      split
      · exact (mapTests_ofBool change _).symm
      · rfl
  | truth => rfl
  | falsity => rfl

/-- Folding brings nothing in, whatever is looked for in the members. -/
theorem disjunction_subset {α : Type} {view : Condition Test → List α} (ofTruth : view .truth = [])
    (ofFalsity : view .falsity = [])
    (ofAny : ∀ members, view (.anyOf members) = members.flatMap view)
    (members : List (Condition Test)) : view (disjunction members) ⊆ members.flatMap view := by
  rw [disjunction]
  cases folded : keptAny members with
  | none => simp [ofTruth]
  | some kept =>
      have fewer : kept.flatMap view ⊆ members.flatMap view :=
        ((keptAny_sublist folded).flatMap view).subset
      rcases kept with _ | ⟨first, _ | ⟨second, rest⟩⟩
      · simp [ofFalsity]
      · simpa using fewer
      · simpa only [ofAny] using fewer

theorem tests_disjunction_subset (members : List (Condition Test)) :
    (disjunction members).tests ⊆ members.flatMap tests :=
  disjunction_subset rfl rfl testsEach_eq_flatMap members

theorem tests_negate (condition : Condition Test) : condition.negate.tests = condition.tests := by
  induction condition using induction with
  | anyOf members ih | allOf members ih =>
      simp only [negate, negateEach_eq_map, tests, testsEach_eq_flatMap, List.flatMap_map]
      exact List.flatMap_congr ih
  | _ => rfl

theorem tests_conjunction_subset (members : List (Condition Test)) :
    (conjunction members).tests ⊆ members.flatMap tests := by
  rw [conjunction_eq_negate_disjunction, tests_negate]
  have fewer := tests_disjunction_subset (members.map negate)
  simpa only [List.flatMap_map, tests_negate] using fewer

/-- Substitution brings no test in. -/
theorem tests_resolve_subset (assignment : Assignment) (outcome : Test → Option Bool)
    (condition : Condition Test) :
    (condition.resolve assignment outcome).tests ⊆ condition.tests := by
  have noTests (value : Bool) : (ofBool value : Condition Test).tests = [] := by
    cases value <;> rfl
  induction condition using induction with
  | linear sum relation =>
      rw [resolve, decideLinear]
      split <;> simp [noTests, tests]
  | compare left right relation =>
      simp only [resolve, decideCompare]
      split <;> simp [noTests, tests]
  | anyOf members ih =>
      rcases eq_or_ne members [] with rfl | nonempty
      · exact List.Subset.refl _
      · rw [resolve_anyOf _ _ nonempty]
        intro question isTest
        have inMembers := tests_disjunction_subset _ isTest
        rw [List.flatMap_map, List.mem_flatMap] at inMembers
        rcases inMembers with ⟨member, isMember, inMember⟩
        exact mem_testsEach isMember (ih member isMember inMember)
  | allOf members ih =>
      rcases eq_or_ne members [] with rfl | nonempty
      · exact List.Subset.refl _
      · rw [resolve_allOf _ _ nonempty]
        intro question isTest
        have inMembers := tests_conjunction_subset _ isTest
        rw [List.flatMap_map, List.mem_flatMap] at inMembers
        rcases inMembers with ⟨member, isMember, inMember⟩
        exact mem_testsEach isMember (ih member isMember inMember)
  | test expected question =>
      rw [resolve, decideTest]
      split <;> simp [noTests, tests]
  | truth => exact List.Subset.refl _
  | falsity => exact List.Subset.refl _

end Condition

/-! ### Changing the numbers of literal texts -/

def Segment.mapLiterals (change : LiteralId → LiteralId) : Segment → Segment
  | .input symbol length => .input symbol length
  | .literal id => .literal (change id)

def SymText.mapLiterals (change : LiteralId → LiteralId) (text : SymText) : SymText where
  segments := text.segments.map (Segment.mapLiterals change)

def Pattern.mapLiterals (change : LiteralId → LiteralId) : Pattern → Pattern
  | .literal id => .literal (change id)
  | .symbolic text => .symbolic (text.mapLiterals change)

def TextTest.mapLiterals (change : LiteralId → LiteralId) (test : TextTest) : TextTest where
  kind := test.kind
  subject := test.subject.mapLiterals change
  pattern := test.pattern.mapLiterals change

section Renumber

variable {State : Type} {visit : LiteralId → StateM State LiteralId}
  {change : LiteralId → LiteralId} {note : State → LiteralId → State}
  (visits : ∀ id state, (visit id).run state = pure (change id, note state id))

include visits

theorem SymText.run_renumber (text : SymText) (state : State) :
    (text.renumber visit).run state =
      pure (text.mapLiterals change, text.literals.foldl note state) := by
  have each (segments : List Segment) (state : State) :
      (segments.mapM (Segment.renumber visit)).run state =
        pure (segments.map (Segment.mapLiterals change),
          (segments.flatMap Segment.literals).foldl note state) := by
    induction segments generalizing state with
    | nil => rfl
    | cons segment rest ih =>
        cases segment with
        | input symbol length =>
            simp [Segment.renumber, Segment.mapLiterals, Segment.literals, ih]
        | literal id =>
            simp [Segment.renumber, Segment.mapLiterals, Segment.literals, ih, visits]
  simp [renumber, each, mapLiterals, literals]

theorem TextTest.run_renumber (test : TextTest) (state : State) :
    (test.renumber visit).run state =
      pure (test.mapLiterals change, test.literals.foldl note state) := by
  have ofPattern (pattern : Pattern) (state : State) : (pattern.renumber visit).run state =
      pure (pattern.mapLiterals change, pattern.literals.foldl note state) := by
    cases pattern with
    | literal id =>
        simp [Pattern.renumber, Pattern.mapLiterals, Pattern.literals, Pattern.toText,
          SymText.literal, SymText.literals, Segment.literals, visits]
    | symbolic text =>
        simp [Pattern.renumber, Pattern.mapLiterals, Pattern.literals, Pattern.toText,
          SymText.run_renumber visits]
  simp [renumber, SymText.run_renumber visits, ofPattern, mapLiterals, literals]

/-- A traversal that keeps a record changes the numbers and records them as they are read. -/
theorem PathCondition.run_renumber (condition : PathCondition) (state : State) :
    (condition.renumber visit).run state =
      pure (condition.mapTests (TextTest.mapLiterals change),
        condition.literals.foldl note state) := by
  have ofEach {members : List PathCondition}
      (ih : ∀ member ∈ members, ∀ state,
        (Condition.traverseTests (TextTest.renumber visit) member).run state =
          pure (member.mapTests (TextTest.mapLiterals change),
            (member.tests.flatMap TextTest.literals).foldl note state)) (state : State) :
      (Condition.traverseTestsEach (TextTest.renumber visit) members).run state =
        pure (members.map (Condition.mapTests (TextTest.mapLiterals change)),
          ((Condition.testsEach members).flatMap TextTest.literals).foldl note state) := by
    induction members generalizing state with
    | nil => rfl
    | cons member rest ihRest =>
        rw [List.forall_mem_cons] at ih
        simp [Condition.traverseTestsEach, Condition.testsEach, ih.1, ihRest ih.2]
  rw [renumber, literals]
  induction condition using Condition.induction generalizing state with
  | anyOf members ih =>
      simp [Condition.traverseTests, Condition.tests, Condition.mapTests_anyOf, ofEach ih]
  | allOf members ih =>
      simp [Condition.traverseTests, Condition.tests, Condition.mapTests_allOf, ofEach ih]
  | test expected question =>
      simp [Condition.traverseTests, Condition.tests, Condition.mapTests, Condition.bindTests,
        TextTest.run_renumber visits]
  | _ => rfl

end Renumber

section MapLiterals

variable {earlier later : Lexicon} {change : LiteralId → LiteralId}

theorem SymText.spelled_mapLiterals {text : SymText}
    (same : ∀ id ∈ text.literals, later.text (change id) = earlier.text id) :
    (text.mapLiterals change).spelled later = text.spelled earlier := by
  rw [spelled, spelled, mapLiterals, List.map_map]
  apply List.map_congr_left
  intro segment isSegment
  cases segment with
  | input symbol length => rfl
  | literal id =>
      have isLiteral : id ∈ text.literals :=
        List.mem_flatMap.mpr ⟨.literal id, isSegment, List.mem_singleton_self id⟩
      exact congrArg SpelledSegment.literal (same id isLiteral)

/-- A test is written out as before if its new numbers stand for the same texts. -/
theorem TextTest.spelled_mapLiterals {test : TextTest}
    (same : ∀ id ∈ test.literals, later.text (change id) = earlier.text id) :
    (test.mapLiterals change).spelled later = test.spelled earlier := by
  rcases test with ⟨kind, subject, pattern⟩
  simp only [literals, List.mem_append] at same
  have sameSubject := SymText.spelled_mapLiterals fun id isLiteral => same id (.inl isLiteral)
  have samePattern : (pattern.mapLiterals change).spelled later = pattern.spelled earlier := by
    cases pattern with
    | literal id =>
        have isLiteral : id ∈ (Pattern.literal id).literals := List.mem_singleton_self id
        exact congrArg SpelledPattern.literal (same id (.inr isLiteral))
    | symbolic text =>
        exact congrArg SpelledPattern.symbolic
          (SymText.spelled_mapLiterals fun id isLiteral => same id (.inr isLiteral))
  rw [mapLiterals, spelled, spelled, sameSubject, samePattern]

theorem SymText.mapLiterals_eq_numbered {text : SymText}
    (same : ∀ id ∈ text.literals, change id = later.number (earlier.text id)) :
    text.mapLiterals change = ⟨(text.spelled earlier).map (SpelledSegment.numbered later)⟩ := by
  rw [mapLiterals, spelled, List.map_map]
  congr 1
  apply List.map_congr_left
  intro segment isSegment
  cases segment with
  | input symbol length => rfl
  | literal id =>
      have isLiteral : id ∈ text.literals :=
        List.mem_flatMap.mpr ⟨.literal id, isSegment, List.mem_singleton_self id⟩
      exact congrArg Segment.literal (same id isLiteral)

/-- To give each text the number that it has elsewhere is to write the texts out and number them
there. -/
theorem TextTest.mapLiterals_eq_numbered {test : TextTest}
    (same : ∀ id ∈ test.literals, change id = later.number (earlier.text id)) :
    test.mapLiterals change = (test.spelled earlier).numbered later := by
  rcases test with ⟨kind, subject, pattern⟩
  simp only [literals, List.mem_append] at same
  have sameSubject := SymText.mapLiterals_eq_numbered fun id isLiteral => same id (.inl isLiteral)
  have samePattern : pattern.mapLiterals change = (pattern.spelled earlier).numbered later := by
    cases pattern with
    | literal id =>
        have isLiteral : id ∈ (Pattern.literal id).literals := List.mem_singleton_self id
        exact congrArg Pattern.literal (same id (.inr isLiteral))
    | symbolic text =>
        exact congrArg Pattern.symbolic
          (SymText.mapLiterals_eq_numbered fun id isLiteral => same id (.inr isLiteral))
  rw [mapLiterals, sameSubject, samePattern]
  rfl

end MapLiterals

/-! ### Imported conditions -/

namespace LiteralId

/-- What is remembered after one more number was looked up. -/
def remember (ids : List LiteralId) (missing : Option LiteralId) (id : LiteralId) :
    Option LiteralId :=
  if ids.length ≤ id.val.toNat then missing.or (some id) else missing

theorem run_lookUp (ids : List LiteralId) (id : LiteralId) (missing : Option LiteralId) :
    (id.lookUp ids).run missing = pure (ids[id.val.toNat]?.getD id, remember ids missing id) := by
  by_cases isMissing : ids.length ≤ id.val.toNat
  · simp [lookUp, remember, isMissing]
  · simp [lookUp, remember, isMissing, Nat.not_le.mp isMissing]

theorem foldl_remember (ids literals : List LiteralId) (missing : Option LiteralId) :
    literals.foldl (remember ids) missing =
      missing.or (literals.find? fun id => ids.length ≤ id.val.toNat) := by
  induction literals generalizing missing with
  | nil => simp
  | cons id rest ih =>
      rw [List.foldl_cons, ih]
      by_cases isMissing : ids.length ≤ id.val.toNat
      · simp [remember, isMissing]
      · simp [remember, isMissing]

end LiteralId

/-- The test with the numbers that its literal texts have in another lexicon. -/
def TextTest.moved (own session : Lexicon) (test : TextTest) : TextTest :=
  (test.spelled own).numbered session

namespace PathCondition

variable {condition : PathCondition} {strings : List String} {session later : Lexicon}

/-- The literal texts that occur are among the first ones. -/
def Within (condition : PathCondition) (count : Nat) : Prop :=
  ∀ id ∈ condition.literals, id.val.toNat < count

theorem mapTests_moved (condition : PathCondition) (own session : Lexicon) :
    condition.mapTests (TextTest.moved own session) =
      (condition.spelled own).mapTests (SpelledTest.numbered session) := by
  rw [spelled, Condition.mapTests_mapTests]
  rfl

/-- An import changes the listed numbers and remembers the first one that is not listed. -/
theorem run_renumber_lookUp (condition : PathCondition) (ids : List LiteralId) :
    (condition.renumber (LiteralId.lookUp ids)).run none =
      pure (condition.mapTests (TextTest.mapLiterals fun id => ids[id.val.toNat]?.getD id),
        condition.literals.find? fun id => ids.length ≤ id.val.toNat) := by
  rw [run_renumber (LiteralId.run_lookUp ids), LiteralId.foldl_remember, Option.none_or]

theorem importLiterals_eq_ok (within : condition.Within strings.length) :
    condition.importLiterals (strings.map session.number) =
      .ok (condition.mapTests (TextTest.moved ⟨strings⟩ session)) := by
  have noFault : (condition.literals.find? fun id =>
      (strings.map session.number).length ≤ id.val.toNat) = none := by
    simpa [Within] using within
  rw [importLiterals, run_renumber_lookUp, noFault]
  apply congrArg Except.ok
  apply Condition.mapTests_congr
  intro test isTest
  apply TextTest.mapLiterals_eq_numbered
  intro id isLiteral
  have inside := within id (List.mem_flatMap.mpr ⟨test, isTest, isLiteral⟩)
  rw [List.getElem?_map, Lexicon.text_mk inside]
  rfl

/-- An import fails at the first number that is not listed. -/
theorem importLiterals_eq_error {ids : List LiteralId} {id : LiteralId}
    (isLiteral : id ∈ condition.literals) (notListed : ids.length ≤ id.val.toNat) :
    ∃ before first after, condition.literals = before ++ first :: after ∧
      (∀ known ∈ before, known.val.toNat < ids.length) ∧ ids.length ≤ first.val.toNat ∧
      condition.importLiterals ids = .error (.unknownString first.val) := by
  cases found : condition.literals.find? fun id => ids.length ≤ id.val.toNat with
  | none =>
      have allListed := List.find?_eq_none.mp found id isLiteral
      exact absurd notListed (by simpa using allListed)
  | some first =>
      rcases List.find?_eq_some_iff_append.mp found with ⟨isFirst, before, after, isSplit, listed⟩
      refine ⟨before, first, after, isSplit, ?_, by simpa using isFirst, ?_⟩
      · intro known isBefore
        simpa using listed known isBefore
      · rw [importLiterals, run_renumber_lookUp, found]
        rfl

theorem within_of_importLiterals {ids : List LiteralId} {imported : PathCondition}
    (isImported : condition.importLiterals ids = .ok imported) : condition.Within ids.length := by
  intro id isLiteral
  by_contra notListed
  rcases importLiterals_eq_error isLiteral (Nat.not_lt.mp notListed) with ⟨_, _, _, _, _, _, fails⟩
  rw [fails] at isImported
  exact absurd isImported nofun

theorem within_substitute (assignment : Assignment) (lexicon : Lexicon) {count : Nat}
    (within : condition.Within count) : (condition.substitute assignment lexicon).Within count := by
  intro id isLiteral
  rcases List.mem_flatMap.mp isLiteral with ⟨test, isTest, inTest⟩
  apply within id
  exact List.mem_flatMap.mpr ⟨test, Condition.tests_resolve_subset _ _ condition isTest, inTest⟩

section Moved

variable (room : session.texts.length ≤ 2 ^ 32) (listed : ∀ text ∈ strings, text ∈ session.texts)
  (grown : session.texts <+: later.texts) (within : condition.Within strings.length)

include room listed grown within

/-- Moving a test keeps its written-out form. -/
theorem spelled_moved {test : TextTest} (isTest : test ∈ condition.tests) :
    (test.moved ⟨strings⟩ session).spelled later = test.spelled ⟨strings⟩ := by
  -- As a change of numbers, the move can be looked at one literal text at a time.
  rw [TextTest.moved, ← TextTest.mapLiterals_eq_numbered fun _ _ => rfl]
  apply TextTest.spelled_mapLiterals
  intro id isLiteral
  apply Lexicon.text_number room grown
  apply listed
  have inside := within id (List.mem_flatMap.mpr ⟨test, isTest, isLiteral⟩)
  exact List.mem_of_getElem? (Lexicon.text_mk inside)

theorem spelled_mapTests_moved :
    spelled later (condition.mapTests (TextTest.moved ⟨strings⟩ session)) =
      condition.spelled ⟨strings⟩ := by
  rw [spelled, Condition.mapTests_mapTests]
  apply Condition.mapTests_congr
  intro test isTest
  exact spelled_moved room listed grown within isTest

/-- Whatever depends on the written-out form of a test is the same of the imported ones. -/
theorem map_tests_moved {α : Type} {view : TextTest → Lexicon → α}
    (ofSpelled : ∀ {first second : TextTest} {lexicon other : Lexicon},
      first.spelled lexicon = second.spelled other → view first lexicon = view second other) :
    (Condition.tests (condition.mapTests (TextTest.moved ⟨strings⟩ session))).map (view · later) =
      condition.tests.map (view · ⟨strings⟩) := by
  rw [Condition.tests_mapTests, List.map_map]
  apply List.map_congr_left
  intro test isTest
  exact ofSpelled (spelled_moved room listed grown within isTest)

theorem substitute_moved (assignment : Assignment) :
    substitute (condition.mapTests (TextTest.moved ⟨strings⟩ session)) assignment later =
      (condition.substitute assignment ⟨strings⟩).mapTests (TextTest.moved ⟨strings⟩ session) := by
  apply Condition.resolve_mapTests
  intro test isTest
  exact TextTest.outcome?_of_spelled (spelled_moved room listed grown within isTest)

end Moved

/-- Importing literal texts keeps what a condition says. If every number is listed, the import
succeeds, and from then on, whatever else is interned: the texts keep their numbers, substitution
gives the imported result of substitution by the list, and each test has the same formulas. Two
imported conditions are one exactly if they were one with the texts written out. If a number is not
listed, the import fails at the first such number. -/
theorem importLiterals_internAll (lexicon : Lexicon) (strings : List String)
    (room : (lexicon.internAll strings).2.texts.length ≤ 2 ^ 32) (condition : PathCondition) :
    let ids := (lexicon.internAll strings).1
    let own : Lexicon := ⟨strings⟩
    ((∀ id ∈ condition.literals, id.val.toNat < strings.length) →
      ∃ imported : PathCondition, condition.importLiterals ids = .ok imported ∧
        (∀ other otherImported : PathCondition, other.importLiterals ids = .ok otherImported →
          (imported = otherImported ↔ condition.spelled own = other.spelled own)) ∧
        ∀ further, let later := ((lexicon.internAll strings).2.internAll further).2
          later.internAll strings = (ids, later) ∧
          imported.spelled later = condition.spelled own ∧
          (∀ assignment, (condition.substitute assignment own).importLiterals ids =
            .ok (imported.substitute assignment later)) ∧
          (∀ expected, (imported.tests.map fun test => test.lengthFormula expected later) =
            condition.tests.map fun test => test.lengthFormula expected own) ∧
          ∀ expected assignment,
            (imported.tests.map fun test => test.characterFormula expected assignment later) =
              condition.tests.map fun test => test.characterFormula expected assignment own) ∧
    ((∃ id ∈ condition.literals, strings.length ≤ id.val.toNat) →
      ∃ before id after, condition.literals = before ++ id :: after ∧
        (∀ known ∈ before, known.val.toNat < strings.length) ∧ strings.length ≤ id.val.toNat ∧
        condition.importLiterals ids = .error (.unknownString id.val)) := by
  intro ids own
  have areNumbers : ids = strings.map (lexicon.internAll strings).2.number :=
    lexicon.numbers_internAll strings
  have sameLength : ids.length = strings.length := by rw [areNumbers, List.length_map]
  have listed : ∀ text ∈ strings, text ∈ (lexicon.internAll strings).2.texts :=
    fun _ => lexicon.mem_texts_internAll
  constructor
  · intro within
    refine ⟨_, areNumbers ▸ importLiterals_eq_ok within, ?_, ?_⟩
    · intro other otherImported isOther
      have otherWithin : other.Within strings.length :=
        sameLength ▸ within_of_importLiterals isOther
      rw [areNumbers, importLiterals_eq_ok otherWithin, Except.ok.injEq] at isOther
      subst isOther
      -- Imported conditions are written out as before, and what is written out can be numbered.
      constructor
      · intro same
        have grown := List.prefix_refl (lexicon.internAll strings).2.texts
        rw [← spelled_mapTests_moved room listed grown within, same,
          spelled_mapTests_moved room listed grown otherWithin]
      · intro same
        rw [mapTests_moved, mapTests_moved, same]
    · intro further later
      have grown : (lexicon.internAll strings).2.texts <+: later.texts :=
        Lexicon.texts_prefix_internAll _ further
      refine ⟨?_, spelled_mapTests_moved room listed grown within, ?_, ?_, ?_⟩
      · have known : ∀ text ∈ strings, text ∈ later.texts :=
          fun text isOne => grown.subset (listed text isOne)
        rw [Lexicon.internAll_of_known known, areNumbers]
        apply congrArg (·, later)
        apply List.map_congr_left
        intro text isOne
        exact Lexicon.number_of_prefix grown (listed text isOne)
      · intro assignment
        rw [areNumbers, importLiterals_eq_ok (within_substitute assignment own within),
          substitute_moved room listed grown within]
      · intro expected
        exact map_tests_moved room listed grown within TextTest.lengthFormula_of_spelled
      · intro expected assignment
        exact map_tests_moved room listed grown within TextTest.characterFormula_of_spelled
  · rintro ⟨id, isLiteral, notListed⟩
    rw [← sameLength] at notListed ⊢
    exact importLiterals_eq_error isLiteral notListed

/-- An input that is followed by a literal text contains another one. -/
def followedContains (id : LiteralId) : PathCondition :=
  .test true { kind := .contains, subject := ⟨[.input 0 1, .literal id]⟩, pattern := .literal ⟨1⟩ }

/-- Two numbers of one text become one number, and a number beyond the list is a fault. -/
theorem followedContains_importLiterals :
    ((Lexicon.ofTexts ["c"]).internAll ["ab", "c", "ab"]).1 = [⟨1⟩, ⟨0⟩, ⟨1⟩] ∧
      (∃ imported : PathCondition,
        (followedContains ⟨0⟩).importLiterals [⟨1⟩, ⟨0⟩, ⟨1⟩] = .ok imported ∧
        (followedContains ⟨2⟩).importLiterals [⟨1⟩, ⟨0⟩, ⟨1⟩] = .ok imported ∧
        ∀ assignment,
          ((followedContains ⟨0⟩).substitute assignment ⟨["ab", "c", "ab"]⟩).importLiterals
            [⟨1⟩, ⟨0⟩, ⟨1⟩] = .ok (imported.substitute assignment ⟨["c", "ab", "abc"]⟩)) ∧
      (followedContains ⟨3⟩).importLiterals [⟨1⟩, ⟨0⟩, ⟨1⟩] = .error (.unknownString 3) := by
  have ids : ((Lexicon.ofTexts ["c"]).internAll ["ab", "c", "ab"]).1 = [⟨1⟩, ⟨0⟩, ⟨1⟩] := by
    decide +kernel
  have later : (((Lexicon.ofTexts ["c"]).internAll ["ab", "c", "ab"]).2.internAll ["ab", "abc"]).2 =
      ⟨["c", "ab", "abc"]⟩ := by
    decide +kernel
  have imports (id : LiteralId) := importLiterals_internAll (.ofTexts ["c"]) ["ab", "c", "ab"]
    (by decide +kernel) (followedContains id)
  simp only [ids] at imports
  refine ⟨ids, ?_, ?_⟩
  · rcases (imports ⟨0⟩).1 (by decide) with ⟨imported, isImported, sameIff, afterwards⟩
    rcases (imports ⟨2⟩).1 (by decide) with ⟨other, isOther, _, _⟩
    have same : imported = other := (sameIff _ other isOther).mpr (by decide +kernel)
    refine ⟨imported, isImported, same ▸ isOther, ?_⟩
    intro assignment
    rw [(afterwards ["ab", "abc"]).2.2.1 assignment, later]
  · rcases (imports ⟨3⟩).2 ⟨⟨3⟩, by decide, by decide⟩ with
      ⟨before, id, after, isSplit, listed, notListed, fails⟩
    have isLast : id = ⟨3⟩ := by
      have isLiteral : id ∈ (followedContains ⟨3⟩).literals := by simp [isSplit]
      have isOne : id = ⟨3⟩ ∨ id = ⟨1⟩ := by
        simpa [followedContains, literals, Condition.tests, TextTest.literals, SymText.literals,
          Segment.literals, Pattern.literals, Pattern.toText, SymText.literal] using isLiteral
      rcases isOne with isThree | rfl
      · exact isThree
      · exact absurd notListed (by decide)
    rw [fails, isLast]

end PathCondition

end Concolic
