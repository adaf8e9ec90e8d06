import Mathlib
import Concolic.Formula
import Concolic.Proofs.Linear

/-!
# Substitution and negation of conditions

Substitution folds a condition as far as the bound variables determine it. The facts here are about
the shape of the result: substituting in two stages is substituting at once, and negation commutes
with substitution. Conjunctions are negated disjunctions of negations, so each fact is proved for
disjunctions and carried over.

Members of a condition are lists of conditions, so the induction principle that the definition
generates speaks about two types at once. `Condition.induction` is the form that every proof below
uses: a property of a disjunction or conjunction may assume it of every member.
-/

namespace Concolic

namespace Arith

/-- Substituting into a node is building the node from the substituted sides. -/
theorem substitute_fold {compute : Int64 → Int64 → Int64} {build : Arith → Arith → Arith}
    {assignment : Assignment}
    (substituted : ∀ left right, (build left right).substitute assignment =
      fold compute build (left.substitute assignment) (right.substitute assignment))
    (left right : Arith) :
    (fold compute build left right).substitute assignment =
      fold compute build (left.substitute assignment) (right.substitute assignment) := by
  cases left with
  | const first =>
      cases right with
      | const second => rfl
      | _ => exact substituted _ _
  | _ => exact substituted _ _

/-- Substituting in two stages is the same as substituting at once. -/
theorem substitute_substitute (term : Arith) {small large : Assignment}
    (extension : large.Extends small) :
    (term.substitute small).substitute large = term.substitute large := by
  induction term with
  | const value => rfl
  | var key =>
      simp only [substitute]
      cases bound : small.get? key with
      | none => rfl
      | some value => simp [substitute, extension key value bound]
  | add left right ihLeft ihRight =>
      simp only [substitute]
      rw [substitute_fold (fun _ _ => rfl), ihLeft, ihRight]
  | sub left right ihLeft ihRight =>
      simp only [substitute]
      rw [substitute_fold (fun _ _ => rfl), ihLeft, ihRight]
  | mul left right ihLeft ihRight =>
      simp only [substitute]
      rw [substitute_fold (fun _ _ => rfl), ihLeft, ihRight]

end Arith

namespace Condition

variable {Test Other : Type}

/-- Induction over conditions, with one hypothesis for every member of a combination. -/
@[elab_as_elim]
theorem induction {motive : Condition Test → Prop}
    (linear : ∀ sum relation, motive (.linear sum relation))
    (compare : ∀ left right relation, motive (.compare left right relation))
    (anyOf : ∀ members, (∀ member ∈ members, motive member) → motive (.anyOf members))
    (allOf : ∀ members, (∀ member ∈ members, motive member) → motive (.allOf members))
    (test : ∀ expected question, motive (.test expected question))
    (truth : motive .truth) (falsity : motive .falsity) (condition : Condition Test) :
    motive condition := by
  refine @Condition.rec Test motive (fun members => ∀ member ∈ members, motive member)
    linear compare anyOf allOf test truth falsity ?_ ?_ condition
  · simp
  · intro head rest headHolds restHolds member isMember
    rcases List.mem_cons.mp isMember with same | inRest
    · exact same ▸ headHolds
    · exact restHolds member inRest

@[simp]
theorem negateEach_eq_map (members : List (Condition Test)) :
    negateEach members = members.map negate := by
  induction members with
  | nil => rfl
  | cons member rest ih => simp [negateEach, ih]

@[simp]
theorem resolveEach_eq_map (assignment : Assignment) (outcome : Test → Option Bool)
    (members : List (Condition Test)) :
    resolveEach assignment outcome members = members.map (resolve assignment outcome) := by
  induction members with
  | nil => rfl
  | cons member rest ih => simp [resolveEach, ih]

@[simp]
theorem varsEach_eq_flatMap (ofTest : Test → List Variable) (members : List (Condition Test)) :
    varsEach ofTest members = members.flatMap (vars ofTest) := by
  induction members with
  | nil => rfl
  | cons member rest ih => simp [varsEach, ih]

@[simp]
theorem bindTestsEach_eq_map (replace : Bool → Test → Condition Other)
    (members : List (Condition Test)) :
    bindTestsEach replace members = members.map (bindTests replace) := by
  induction members with
  | nil => rfl
  | cons member rest ih => simp [bindTestsEach, ih]

@[simp]
theorem testsEach_eq_flatMap (members : List (Condition Test)) :
    testsEach members = members.flatMap tests := by
  induction members with
  | nil => rfl
  | cons member rest ih => simp [testsEach, ih]

theorem resolve_anyOf (assignment : Assignment) (outcome : Test → Option Bool)
    {members : List (Condition Test)} (nonempty : members ≠ []) :
    (anyOf members).resolve assignment outcome =
      disjunction (members.map (resolve assignment outcome)) := by
  cases members with
  | nil => exact absurd rfl nonempty
  | cons member rest => simp [resolve]

theorem resolve_allOf (assignment : Assignment) (outcome : Test → Option Bool)
    {members : List (Condition Test)} (nonempty : members ≠ []) :
    (allOf members).resolve assignment outcome =
      conjunction (members.map (resolve assignment outcome)) := by
  cases members with
  | nil => exact absurd rfl nonempty
  | cons member rest => simp [resolve]

@[simp]
theorem negate_negate (condition : Condition Test) : condition.negate.negate = condition := by
  induction condition using induction with
  | linear sum relation => simp [negate]
  | compare left right relation => simp [negate]
  | anyOf members ih =>
      simp only [negate, negateEach_eq_map, List.map_map]
      exact congrArg anyOf ((List.map_congr_left ih).trans (List.map_id _))
  | allOf members ih =>
      simp only [negate, negateEach_eq_map, List.map_map]
      exact congrArg allOf ((List.map_congr_left ih).trans (List.map_id _))
  | test expected question => simp [negate]
  | truth => rfl
  | falsity => rfl

@[simp]
theorem negate_ofBool (value : Bool) : (ofBool value : Condition Test).negate = ofBool (!value) := by
  cases value <;> rfl

theorem ofBool_eq_truth_iff {value : Bool} :
    (ofBool value : Condition Test) = .truth ↔ value = true := by
  cases value <;> simp [ofBool]

theorem ofBool_eq_falsity_iff {value : Bool} :
    (ofBool value : Condition Test) = .falsity ↔ value = false := by
  cases value <;> simp [ofBool]

/-! ### Folding of combinations -/

/-- A disjunction is folded to its members other than `falsity`, unless one is `truth`. -/
theorem keptAny_cons (member : Condition Test) (rest : List (Condition Test)) :
    keptAny (member :: rest) =
      if member.isTruth then none
      else if member.isFalsity then keptAny rest
      else (keptAny rest).map (member :: ·) := by
  cases member <;> rfl

theorem keptAll_cons (member : Condition Test) (rest : List (Condition Test)) :
    keptAll (member :: rest) =
      if member.isFalsity then none
      else if member.isTruth then keptAll rest
      else (keptAll rest).map (member :: ·) := by
  cases member <;> rfl

@[simp]
theorem isTruth_negate (condition : Condition Test) :
    condition.negate.isTruth = condition.isFalsity := by
  cases condition <;> rfl

@[simp]
theorem isFalsity_negate (condition : Condition Test) :
    condition.negate.isFalsity = condition.isTruth := by
  cases condition <;> rfl

theorem keptAll_eq_map_keptAny (members : List (Condition Test)) :
    keptAll members = (keptAny (members.map negate)).map (List.map negate) := by
  induction members with
  | nil => rfl
  | cons member rest ih =>
      rw [List.map_cons, keptAll_cons, keptAny_cons, isTruth_negate, isFalsity_negate, ih]
      split
      · rfl
      · split
        · rfl
        · cases keptAny (rest.map negate) <;> simp

/-- Conjunctions are negated disjunctions of negations. -/
theorem conjunction_eq_negate_disjunction (members : List (Condition Test)) :
    conjunction members = (disjunction (members.map negate)).negate := by
  simp only [conjunction, disjunction, keptAll_eq_map_keptAny]
  rcases keptAny (members.map negate) with _ | _ | ⟨first, _ | ⟨second, rest⟩⟩ <;>
    simp [negate]

theorem disjunction_eq_negate_conjunction (members : List (Condition Test)) :
    disjunction members = (conjunction (members.map negate)).negate := by
  simp [conjunction_eq_negate_disjunction, List.map_map, Function.comp_def]

@[simp]
theorem disjunction_singleton (member : Condition Test) : disjunction [member] = member := by
  cases member <;> rfl

/-- A disjunction only depends on the members that folding keeps. -/
theorem disjunction_congr {first second : List (Condition Test)}
    (same : keptAny first = keptAny second) : disjunction first = disjunction second := by
  simp only [disjunction, same]

/-- Members that folding drops stay without effect after a change that keeps `falsity`. -/
theorem keptAny_map_of_keptAny {change : Condition Test → Condition Test}
    (falsityKept : change .falsity = .falsity) {members kept : List (Condition Test)}
    (folded : keptAny members = some kept) :
    keptAny (members.map change) = keptAny (kept.map change) := by
  induction members generalizing kept with
  | nil =>
      cases folded
      rfl
  | cons member rest ih =>
      rw [keptAny_cons] at folded
      split at folded
      · simp at folded
      · split at folded
        · rename_i isFalse
          have same : member = .falsity := by cases member <;> simp_all [isFalsity]
          rw [List.map_cons, keptAny_cons, same, falsityKept, ih folded]
          rfl
        · obtain ⟨keptRest, foldedRest, rfl⟩ := Option.map_eq_some_iff.mp folded
          rw [List.map_cons, List.map_cons, keptAny_cons, keptAny_cons, ih foldedRest]

theorem keptAny_eq_none_iff {members : List (Condition Test)} :
    keptAny members = none ↔ .truth ∈ members := by
  induction members with
  | nil => simp [keptAny]
  | cons member rest ih =>
      rw [keptAny_cons]
      cases member <;> simp [isTruth, isFalsity, ih]

/-- Folding keeps no constants. -/
theorem constant_notMem_keptAny {members kept : List (Condition Test)}
    (folded : keptAny members = some kept) (value : Bool) : ofBool value ∉ kept := by
  induction members generalizing kept with
  | nil =>
      cases folded
      simp
  | cons member rest ih =>
      rw [keptAny_cons] at folded
      split at folded
      · simp at folded
      · split at folded
        · exact ih folded
        · obtain ⟨keptRest, foldedRest, rfl⟩ := Option.map_eq_some_iff.mp folded
          rw [List.mem_cons, not_or]
          refine ⟨?_, ih foldedRest⟩
          rintro rfl
          cases value <;> contradiction

/-- A disjunction folds to `truth` exactly if a member is `truth`. -/
theorem disjunction_eq_truth_iff {members : List (Condition Test)} :
    disjunction members = .truth ↔ .truth ∈ members := by
  rw [← keptAny_eq_none_iff]
  cases folded : keptAny members with
  | none => simp [disjunction, folded]
  | some kept =>
      have noTruth := constant_notMem_keptAny folded true
      rcases kept with _ | ⟨first, _ | ⟨second, rest⟩⟩
      · simp [disjunction, folded]
      · simpa [disjunction, folded, ofBool, eq_comm] using noTruth
      · simp [disjunction, folded]

theorem keptAny_eq_some_nil_iff {members : List (Condition Test)} :
    keptAny members = some [] ↔ ∀ member ∈ members, member = .falsity := by
  induction members with
  | nil => simp [keptAny]
  | cons member rest ih =>
      rw [keptAny_cons]
      cases member <;> simp [isTruth, isFalsity, ih]

theorem disjunction_eq_falsity_iff {members : List (Condition Test)} :
    disjunction members = .falsity ↔ ∀ member ∈ members, member = .falsity := by
  rw [← keptAny_eq_some_nil_iff]
  cases folded : keptAny members with
  | none => simp [disjunction, folded]
  | some kept =>
      have noFalsity := constant_notMem_keptAny folded false
      rcases kept with _ | ⟨first, _ | ⟨second, rest⟩⟩
      · simp [disjunction, folded]
      · simpa [disjunction, folded, ofBool, eq_comm] using noFalsity
      · simp [disjunction, folded]

theorem negate_eq_iff {first second : Condition Test} :
    first.negate = second ↔ first = second.negate :=
  ⟨fun same => by rw [← same, negate_negate], fun same => by rw [same, negate_negate]⟩

/-- A conjunction folds to `truth` exactly if every member is `truth`. -/
theorem conjunction_eq_truth_iff {members : List (Condition Test)} :
    conjunction members = .truth ↔ ∀ member ∈ members, member = .truth := by
  rw [conjunction_eq_negate_disjunction, negate_eq_iff, negate, disjunction_eq_falsity_iff,
    List.forall_mem_map]
  exact forall₂_congr fun member _ => negate_eq_iff

/-! ### Substitution -/

section Resolve

variable {assignment : Assignment} {outcome : Test → Option Bool}

@[simp]
theorem resolve_ofBool (value : Bool) :
    (ofBool value : Condition Test).resolve assignment outcome = ofBool value := by
  cases value <;> rfl

theorem resolve_decideLinear (sum : Linear) (relation : Relation) :
    (decideLinear sum relation : Condition Test).resolve assignment outcome =
      decideLinear (sum.substitute assignment) relation := by
  by_cases decided : sum.isConstant = true
  · rw [Linear.substitute_of_isConstant decided]
    simp [decideLinear, decided]
  · simp [decideLinear, decided, resolve]

/-- A comparison whose variables are bound is decided by its value in words. -/
theorem decideLinear_of_binds {sum : Linear} (binds : assignment.Binds sum.vars)
    (relation : Relation) :
    (decideLinear (sum.substitute assignment) relation : Condition Test) =
      ofBool (relation.holds (Int64.ofInt (sum.valueAt assignment.valuation)).toInt) := by
  rw [decideLinear, if_pos (Linear.isConstant_of_binds binds), Linear.constant_substitute]

theorem resolve_decideCompare (left right : Arith) (relation : Relation) :
    (decideCompare left right relation : Condition Test).resolve assignment outcome =
      decideCompare (left.substitute assignment) (right.substitute assignment) relation := by
  cases left with
  | const first =>
      cases right with
      | const second => simp [decideCompare, Arith.substitute]
      | _ => rfl
  | _ => rfl

/-- Substituting into a folded disjunction is folding the substituted members. -/
theorem resolve_disjunction (members : List (Condition Test)) :
    (disjunction members).resolve assignment outcome =
      disjunction (members.map (resolve assignment outcome)) := by
  cases folded : keptAny members with
  | none =>
      have holds : Condition.truth ∈ members := keptAny_eq_none_iff.mp folded
      have stillHolds : Condition.truth ∈ members.map (resolve assignment outcome) :=
        List.mem_map.mpr ⟨.truth, holds, rfl⟩
      simp only [disjunction, folded, keptAny_eq_none_iff.mpr stillHolds]
      rfl
  | some kept =>
      rw [disjunction_congr (keptAny_map_of_keptAny rfl folded)]
      simp only [disjunction, folded]
      rcases kept with _ | ⟨first, _ | ⟨second, rest⟩⟩
      · rfl
      · exact (disjunction_singleton _).symm
      · exact resolve_anyOf assignment outcome (by simp)

/-- Negation commutes with substitution. -/
theorem resolve_negate (condition : Condition Test) :
    condition.negate.resolve assignment outcome =
      (condition.resolve assignment outcome).negate := by
  induction condition using induction with
  | linear sum relation =>
      simp only [negate, resolve, decideLinear]
      split <;> simp [negate]
  | compare left right relation =>
      simp only [negate, resolve, decideCompare]
      split <;> simp [negate]
  | anyOf members ih =>
      rcases eq_or_ne members [] with rfl | nonempty
      · rfl
      · rw [resolve_anyOf _ _ nonempty, disjunction_eq_negate_conjunction, negate_negate, negate,
          negateEach_eq_map, resolve_allOf _ _ (by simpa using nonempty), List.map_map,
          List.map_map]
        exact congrArg conjunction (List.map_congr_left ih)
  | allOf members ih =>
      rcases eq_or_ne members [] with rfl | nonempty
      · rfl
      · rw [resolve_allOf _ _ nonempty, conjunction_eq_negate_disjunction, negate_negate, negate,
          negateEach_eq_map, resolve_anyOf _ _ (by simpa using nonempty), List.map_map,
          List.map_map]
        exact congrArg disjunction (List.map_congr_left ih)
  | test expected question =>
      simp only [negate, resolve, decideTest]
      split
      · rename_i actual _
        cases actual <;> cases expected <;> rfl
      · rfl
  | truth => rfl
  | falsity => rfl

theorem resolve_conjunction (members : List (Condition Test)) :
    (conjunction members).resolve assignment outcome =
      conjunction (members.map (resolve assignment outcome)) := by
  rw [conjunction_eq_negate_disjunction, resolve_negate, resolve_disjunction,
    conjunction_eq_negate_disjunction, List.map_map, List.map_map]
  congr 2
  apply List.map_congr_left
  intro member _
  exact resolve_negate member

end Resolve

/-- Substituting in two stages is the same as substituting at once, if the second stage decides
every test that the first one decides, in the same way. -/
theorem resolve_resolve {small large : Assignment} {smallOutcome largeOutcome : Test → Option Bool}
    (extension : large.Extends small)
    (persistent : ∀ question actual, smallOutcome question = some actual →
      largeOutcome question = some actual)
    (condition : Condition Test) :
    (condition.resolve small smallOutcome).resolve large largeOutcome =
      condition.resolve large largeOutcome := by
  induction condition using induction with
  | linear sum relation =>
      rw [resolve, resolve_decideLinear, sum.substitute_substitute extension, resolve]
  | compare left right relation =>
      rw [resolve, resolve_decideCompare, left.substitute_substitute extension,
        right.substitute_substitute extension, resolve]
  | anyOf members ih =>
      rcases eq_or_ne members [] with rfl | nonempty
      · rfl
      · rw [resolve_anyOf _ _ nonempty, resolve_anyOf _ _ nonempty, resolve_disjunction,
          List.map_map]
        exact congrArg disjunction (List.map_congr_left ih)
  | allOf members ih =>
      rcases eq_or_ne members [] with rfl | nonempty
      · rfl
      · rw [resolve_allOf _ _ nonempty, resolve_allOf _ _ nonempty, resolve_conjunction,
          List.map_map]
        exact congrArg conjunction (List.map_congr_left ih)
  | test expected question =>
      simp only [resolve, decideTest]
      cases decided : smallOutcome question with
      | some actual =>
          rw [persistent question actual decided]
          cases actual <;> cases expected <;> rfl
      | none => rfl
  | truth => rfl
  | falsity => rfl

/-- Substitution depends on the outcomes of the tests that occur. -/
theorem resolve_congr {assignment : Assignment} {outcome other : Test → Option Bool}
    {condition : Condition Test}
    (same : ∀ question ∈ condition.tests, outcome question = other question) :
    condition.resolve assignment outcome = condition.resolve assignment other := by
  induction condition using induction with
  | linear sum relation => rfl
  | compare left right relation => rfl
  | anyOf members ih =>
      simp only [tests, testsEach_eq_flatMap, List.mem_flatMap, forall_exists_index, and_imp] at same
      rcases eq_or_ne members [] with rfl | nonempty
      · rfl
      · rw [resolve_anyOf _ _ nonempty, resolve_anyOf _ _ nonempty]
        exact congrArg disjunction (List.map_congr_left fun member isMember =>
          ih member isMember fun question => same question member isMember)
  | allOf members ih =>
      simp only [tests, testsEach_eq_flatMap, List.mem_flatMap, forall_exists_index, and_imp] at same
      rcases eq_or_ne members [] with rfl | nonempty
      · rfl
      · rw [resolve_allOf _ _ nonempty, resolve_allOf _ _ nonempty]
        exact congrArg conjunction (List.map_congr_left fun member isMember =>
          ih member isMember fun question => same question member isMember)
  | test expected question =>
      rw [resolve, resolve, decideTest, decideTest, same question (by simp [tests])]
  | truth => rfl
  | falsity => rfl

/-- A combination without members is not decided, and the other ones come out true as their members
do. -/
theorem resolve_anyOf_eq_truth_iff {assignment : Assignment} {outcome : Test → Option Bool}
    {members : List (Condition Test)} :
    (anyOf members).resolve assignment outcome = .truth ↔
      ∃ member ∈ members, member.resolve assignment outcome = .truth := by
  rcases eq_or_ne members [] with rfl | nonempty
  · simp [resolve]
  · rw [resolve_anyOf _ _ nonempty, disjunction_eq_truth_iff, List.mem_map]

theorem resolve_allOf_eq_truth_iff {assignment : Assignment} {outcome : Test → Option Bool}
    {members : List (Condition Test)} :
    (allOf members).resolve assignment outcome = .truth ↔
      members ≠ [] ∧ ∀ member ∈ members, member.resolve assignment outcome = .truth := by
  rcases eq_or_ne members [] with rfl | nonempty
  · simp [resolve]
  · rw [resolve_allOf _ _ nonempty, conjunction_eq_truth_iff]
    simp [nonempty]

/-- Replacing the tests of a true condition by conditions that are true wherever the test is decided
as expected leaves a true condition. Negation stands at the tests only, so this holds under any
nesting. -/
theorem resolve_bindTests_eq_truth {assignment : Assignment} {outcome : Test → Option Bool}
    {outcomeOther : Other → Option Bool} {replace : Bool → Test → Condition Other}
    {condition : Condition Test}
    (weaker : ∀ question ∈ condition.tests, ∀ expected, outcome question = some expected →
      (replace expected question).resolve assignment outcomeOther = .truth)
    (holds : condition.resolve assignment outcome = .truth) :
    (condition.bindTests replace).resolve assignment outcomeOther = .truth := by
  induction condition using induction with
  | linear sum relation =>
      simp only [resolve, bindTests, decideLinear] at holds ⊢
      split at holds
      · rw [if_pos ‹_›, ofBool_eq_truth_iff]
        exact ofBool_eq_truth_iff.mp holds
      · simp at holds
  | compare left right relation =>
      simp only [resolve, bindTests, decideCompare] at holds ⊢
      split at holds
      · exact ofBool_eq_truth_iff.mpr (ofBool_eq_truth_iff.mp holds)
      · simp at holds
  | anyOf members ih =>
      simp only [tests, testsEach_eq_flatMap, List.mem_flatMap, forall_exists_index, and_imp]
        at weaker
      obtain ⟨member, isMember, memberHolds⟩ := resolve_anyOf_eq_truth_iff.mp holds
      rw [bindTests, bindTestsEach_eq_map]
      exact resolve_anyOf_eq_truth_iff.mpr ⟨_, List.mem_map_of_mem isMember,
        ih member isMember (fun question => weaker question member isMember) memberHolds⟩
  | allOf members ih =>
      simp only [tests, testsEach_eq_flatMap, List.mem_flatMap, forall_exists_index, and_imp]
        at weaker
      obtain ⟨nonempty, eachHolds⟩ := resolve_allOf_eq_truth_iff.mp holds
      rw [bindTests, bindTestsEach_eq_map]
      refine resolve_allOf_eq_truth_iff.mpr ⟨by simpa using nonempty, ?_⟩
      intro replaced isReplaced
      obtain ⟨member, isMember, rfl⟩ := List.mem_map.mp isReplaced
      exact ih member isMember (fun question => weaker question member isMember)
        (eachHolds member isMember)
  | test expected question =>
      apply weaker question (by simp [tests]) expected
      simp only [resolve, decideTest] at holds
      split at holds
      · rename_i actual decided
        rw [decided, beq_iff_eq.mp (ofBool_eq_truth_iff.mp holds)]
      · simp at holds
  | truth => rfl
  | falsity => simp [resolve] at holds

end Condition

end Concolic
