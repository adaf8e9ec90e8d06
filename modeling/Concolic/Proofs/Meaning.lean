import Mathlib
import Concolic.Proofs.Substitution

/-!
# What conditions say over the integers

A solver reads a formula over all integers, while the program under test computes in 64-bit words.
`Condition.holdsAt` is the solver's reading, with the outcomes of tests given from outside. It
follows the printed form, in which a disjunction without members is true and a conjunction without
members is false.

`Condition.Every` states a property of all leaves of a condition and, with it, that no combination
is without members. The scope of a condition, the absence of overflow and the absence of open
comparisons are all properties of this form, so negation and folding are followed once for all of
them.
-/

namespace Concolic

namespace Arith

/-- The exact value of a term under a valuation of its variables. -/
def valueAt (valuation : Variable → Int) : Arith → Int
  | .const value => value.toInt
  | .var key => valuation key
  | .add left right => left.valueAt valuation + right.valueAt valuation
  | .sub left right => left.valueAt valuation - right.valueAt valuation
  | .mul left right => left.valueAt valuation * right.valueAt valuation

/-- The exact values of a term and of all its parts are values of words. -/
def Exact (valuation : Variable → Int) : Arith → Prop
  | .const _ => True
  | .var key => FitsWord (valuation key)
  | .add left right =>
      left.Exact valuation ∧ right.Exact valuation ∧
        FitsWord (left.valueAt valuation + right.valueAt valuation)
  | .sub left right =>
      left.Exact valuation ∧ right.Exact valuation ∧
        FitsWord (left.valueAt valuation - right.valueAt valuation)
  | .mul left right =>
      left.Exact valuation ∧ right.Exact valuation ∧
        FitsWord (left.valueAt valuation * right.valueAt valuation)

theorem valueAt_congr {first second : Variable → Int} {term : Arith}
    (agree : ∀ var ∈ term.vars, first var = second var) :
    term.valueAt first = term.valueAt second := by
  induction term with
  | const value => rfl
  | var key => exact agree key (by simp [vars])
  | add left right ihLeft ihRight | sub left right ihLeft ihRight | mul left right ihLeft ihRight =>
      simp only [vars, List.mem_append] at agree
      rw [valueAt, valueAt, ihLeft fun var member => agree var (.inl member),
        ihRight fun var member => agree var (.inr member)]

/-- Computing a node with constant sides keeps the exact value, if that value fits. -/
theorem valueAt_fold (exact : Int → Int → Int) {valuation : Variable → Int}
    {compute : Int64 → Int64 → Int64} {build : Arith → Arith → Arith}
    (built : ∀ left right, (build left right).valueAt valuation =
      exact (left.valueAt valuation) (right.valueAt valuation))
    (computed : ∀ first second, compute first second =
      Int64.ofInt (exact first.toInt second.toInt))
    {left right : Arith}
    (fits : FitsWord (exact (left.valueAt valuation) (right.valueAt valuation))) :
    (fold compute build left right).valueAt valuation =
      exact (left.valueAt valuation) (right.valueAt valuation) := by
  cases left with
  | const first =>
      cases right with
      | const second =>
          simp only [fold, valueAt] at fits ⊢
          rw [computed, toInt_ofInt_of_fitsWord fits]
      | _ => exact built _ _
  | _ => exact built _ _

/-- Substituting values that the valuation agrees with keeps the exact value. -/
theorem valueAt_substitute {assignment : Assignment} {valuation : Variable → Int}
    (agrees : assignment.AgreesWith valuation) {term : Arith} (exact : term.Exact valuation) :
    (term.substitute assignment).valueAt valuation = term.valueAt valuation := by
  induction term with
  | const value => rfl
  | var key =>
      simp only [substitute]
      cases bound : assignment.get? key with
      | none => rfl
      | some value => simp [valueAt, agrees key value bound]
  | add left right ihLeft ihRight =>
      obtain ⟨leftExact, rightExact, fits⟩ := exact
      rw [substitute, valueAt_fold (· + ·) (fun _ _ => rfl) (by simp)]
      all_goals rw [ihLeft leftExact, ihRight rightExact]
      · rfl
      · exact fits
  | sub left right ihLeft ihRight =>
      obtain ⟨leftExact, rightExact, fits⟩ := exact
      rw [substitute, valueAt_fold (· - ·) (fun _ _ => rfl) (by simp)]
      all_goals rw [ihLeft leftExact, ihRight rightExact]
      · rfl
      · exact fits
  | mul left right ihLeft ihRight =>
      obtain ⟨leftExact, rightExact, fits⟩ := exact
      rw [substitute, valueAt_fold (· * ·) (fun _ _ => rfl) (by simp)]
      all_goals rw [ihLeft leftExact, ihRight rightExact]
      · rfl
      · exact fits

theorem vars_fold (compute : Int64 → Int64 → Int64) {build : Arith → Arith → Arith}
    (built : ∀ left right, (build left right).vars = left.vars ++ right.vars)
    (left right : Arith) : (fold compute build left right).vars = left.vars ++ right.vars := by
  cases left with
  | const first =>
      cases right with
      | const second => rfl
      | _ => exact built _ _
  | _ => exact built _ _

/-- Substitution leaves the unbound variables, each as often as it occurs. -/
theorem vars_substitute (assignment : Assignment) (term : Arith) :
    (term.substitute assignment).vars =
      term.vars.filter fun var => (assignment.get? var).isNone := by
  induction term with
  | const value => rfl
  | var key => cases bound : assignment.get? key <;> simp [substitute, vars, bound]
  | add left right ihLeft ihRight | sub left right ihLeft ihRight | mul left right ihLeft ihRight =>
      rw [substitute, vars_fold _ fun _ _ => rfl, ihLeft, ihRight, vars, List.filter_append]

theorem mem_vars_substitute {assignment : Assignment} {term : Arith} {var : Variable} :
    var ∈ (term.substitute assignment).vars ↔ var ∈ term.vars ∧ assignment.get? var = none := by
  rw [vars_substitute, List.mem_filter, Option.isNone_iff_eq_none]

/-- Once every variable is bound, substitution computes the exact value, reduced to 64 bits. -/
theorem substitute_eq_const {assignment : Assignment} {term : Arith}
    (binds : assignment.Binds term.vars) :
    term.substitute assignment = .const (Int64.ofInt (term.valueAt assignment.valuation)) := by
  induction term with
  | const value => simp [substitute, valueAt]
  | var key =>
      obtain ⟨value, found⟩ := binds key (by simp [vars])
      simp [substitute, found, valueAt, Assignment.valuation]
  | add left right ihLeft ihRight | sub left right ihLeft ihRight | mul left right ihLeft ihRight =>
      simp only [Assignment.Binds, vars, List.mem_append] at binds
      rw [substitute, ihLeft fun var member => binds var (.inl member),
        ihRight fun var member => binds var (.inr member), fold, valueAt]
      simp

end Arith

/-- Readings that agree on the members agree on whether some member holds. -/
theorem any_congr_of_mem {α : Type} {first second : α → Bool} {members : List α}
    (same : ∀ member ∈ members, first member = second member) :
    members.any first = members.any second := by
  simpa [List.any_map] using congrArg (List.any · id) (List.map_congr_left same)

theorem all_congr_of_mem {α : Type} {first second : α → Bool} {members : List α}
    (same : ∀ member ∈ members, first member = second member) :
    members.all first = members.all second := by
  simpa [List.all_map] using congrArg (List.all · id) (List.map_congr_left same)

/-- Properties of the leaves of a condition. They leave out the relation and the expected outcome,
which are all that negation changes. -/
structure LeafRule (Test : Type) where
  linear : Linear → Prop
  compare : Arith → Arith → Prop
  test : Test → Prop

/-- The comparisons mention variables of a scope only, and the tests have a property. -/
def LeafRule.scoped {Test : Type} (scope : Variable → Prop) (test : Test → Prop) :
    LeafRule Test where
  linear sum := ∀ var ∈ sum.vars, scope var
  compare left right := (∀ var ∈ left.vars, scope var) ∧ ∀ var ∈ right.vars, scope var
  test := test

/-- Two rules together. -/
def LeafRule.and {Test : Type} (first second : LeafRule Test) : LeafRule Test where
  linear sum := first.linear sum ∧ second.linear sum
  compare left right := first.compare left right ∧ second.compare left right
  test question := first.test question ∧ second.test question

namespace Condition

variable {Test Other : Type}

mutual

/-- Every leaf obeys the rule, and no combination is without members. -/
def Every (rule : LeafRule Test) : Condition Test → Prop
  | .linear sum _ => rule.linear sum
  | .compare left right _ => rule.compare left right
  | .anyOf members | .allOf members => members ≠ [] ∧ EveryEach rule members
  | .test _ question => rule.test question
  | .truth | .falsity => True

/-- Every member obeys the rule. -/
def EveryEach (rule : LeafRule Test) : List (Condition Test) → Prop
  | [] => True
  | member :: rest => member.Every rule ∧ EveryEach rule rest

end

section Every

variable {rule other : LeafRule Test}

@[simp]
theorem everyEach_iff {members : List (Condition Test)} :
    EveryEach rule members ↔ ∀ member ∈ members, member.Every rule := by
  induction members with
  | nil => simp [EveryEach]
  | cons member rest ih => simp [EveryEach, ih]

theorem every_anyOf {members : List (Condition Test)} :
    (anyOf members).Every rule ↔ members ≠ [] ∧ ∀ member ∈ members, member.Every rule := by
  simp [Every]

theorem every_allOf {members : List (Condition Test)} :
    (allOf members).Every rule ↔ members ≠ [] ∧ ∀ member ∈ members, member.Every rule := by
  simp [Every]

@[simp]
theorem every_ofBool (value : Bool) : (ofBool value : Condition Test).Every rule := by
  cases value <;> trivial

theorem Every.mono {condition : Condition Test} (every : condition.Every rule)
    (linear : ∀ sum, rule.linear sum → other.linear sum)
    (compare : ∀ left right, rule.compare left right → other.compare left right)
    (test : ∀ question, rule.test question → other.test question) : condition.Every other := by
  induction condition using induction with
  | linear sum relation => exact linear sum every
  | compare left right relation => exact compare left right every
  | anyOf members ih =>
      obtain ⟨nonempty, each⟩ := every_anyOf.mp every
      exact every_anyOf.mpr ⟨nonempty, fun member isMember => ih member isMember (each _ isMember)⟩
  | allOf members ih =>
      obtain ⟨nonempty, each⟩ := every_allOf.mp every
      exact every_allOf.mpr ⟨nonempty, fun member isMember => ih member isMember (each _ isMember)⟩
  | test expected question => exact test question every
  | truth => trivial
  | falsity => trivial

theorem Every.and {condition : Condition Test} (first : condition.Every rule)
    (second : condition.Every other) : condition.Every (rule.and other) := by
  induction condition using induction with
  | linear sum relation => exact ⟨first, second⟩
  | compare left right relation => exact ⟨first, second⟩
  | anyOf members ih =>
      obtain ⟨nonempty, eachFirst⟩ := every_anyOf.mp first
      obtain ⟨_, eachSecond⟩ := every_anyOf.mp second
      exact every_anyOf.mpr ⟨nonempty, fun member isMember =>
        ih member isMember (eachFirst member isMember) (eachSecond member isMember)⟩
  | allOf members ih =>
      obtain ⟨nonempty, eachFirst⟩ := every_allOf.mp first
      obtain ⟨_, eachSecond⟩ := every_allOf.mp second
      exact every_allOf.mpr ⟨nonempty, fun member isMember =>
        ih member isMember (eachFirst member isMember) (eachSecond member isMember)⟩
  | test expected question => exact ⟨first, second⟩
  | truth => trivial
  | falsity => trivial

@[simp]
theorem every_negate {condition : Condition Test} :
    condition.negate.Every rule ↔ condition.Every rule := by
  induction condition using induction with
  | linear sum relation => rfl
  | compare left right relation => rfl
  | anyOf members ih =>
      simp only [negate, negateEach_eq_map, every_allOf, every_anyOf, List.mem_map, ne_eq,
        List.map_eq_nil_iff, forall_exists_index, and_imp, forall_apply_eq_imp_iff₂]
      exact and_congr_right fun _ => forall₂_congr ih
  | allOf members ih =>
      simp only [negate, negateEach_eq_map, every_allOf, every_anyOf, List.mem_map, ne_eq,
        List.map_eq_nil_iff, forall_exists_index, and_imp, forall_apply_eq_imp_iff₂]
      exact and_congr_right fun _ => forall₂_congr ih
  | test expected question => rfl
  | truth => rfl
  | falsity => rfl

theorem keptAny_sublist {members kept : List (Condition Test)}
    (folded : keptAny members = some kept) : kept.Sublist members := by
  induction members generalizing kept with
  | nil =>
      cases folded
      exact .slnil
  | cons member rest ih =>
      rw [keptAny_cons] at folded
      split at folded
      · simp at folded
      · split at folded
        · exact (ih folded).cons member
        · rcases Option.map_eq_some_iff.mp folded with ⟨keptRest, foldedRest, rfl⟩
          exact (ih foldedRest).cons_cons member

theorem every_disjunction {members : List (Condition Test)}
    (each : ∀ member ∈ members, member.Every rule) : (disjunction members).Every rule := by
  cases folded : keptAny members with
  | none => simp [disjunction, folded, Every]
  | some kept =>
      have eachKept : ∀ member ∈ kept, member.Every rule :=
        fun member isKept => each member ((keptAny_sublist folded).subset isKept)
      simp only [disjunction, folded]
      rcases kept with _ | ⟨first, _ | ⟨second, rest⟩⟩
      · trivial
      · exact eachKept first List.mem_cons_self
      · exact every_anyOf.mpr ⟨by simp, eachKept⟩

theorem every_conjunction {members : List (Condition Test)}
    (each : ∀ member ∈ members, member.Every rule) : (conjunction members).Every rule := by
  rw [conjunction_eq_negate_disjunction, every_negate]
  apply every_disjunction
  intro member isMember
  obtain ⟨positive, isPositive, rfl⟩ := List.mem_map.mp isMember
  exact every_negate.mpr (each positive isPositive)

/-- What substitution makes of the leaves is all that has to be checked for a rule to hold
afterwards. -/
theorem Every.resolve {condition : Condition Test} {assignment : Assignment}
    {outcome : Test → Option Bool} (every : condition.Every rule)
    (linear : ∀ sum relation, rule.linear sum →
      (decideLinear (sum.substitute assignment) relation : Condition Test).Every other)
    (compare : ∀ left right relation, rule.compare left right →
      (decideCompare (left.substitute assignment) (right.substitute assignment) relation :
        Condition Test).Every other)
    (test : ∀ question, rule.test question → outcome question = none → other.test question) :
    (condition.resolve assignment outcome).Every other := by
  induction condition using induction with
  | linear sum relation => exact linear sum relation every
  | compare left right relation => exact compare left right relation every
  | anyOf members ih =>
      obtain ⟨nonempty, each⟩ := every_anyOf.mp every
      rw [resolve_anyOf _ _ nonempty]
      apply every_disjunction
      intro member isMember
      obtain ⟨original, isOriginal, rfl⟩ := List.mem_map.mp isMember
      exact ih original isOriginal (each original isOriginal)
  | allOf members ih =>
      obtain ⟨nonempty, each⟩ := every_allOf.mp every
      rw [resolve_allOf _ _ nonempty]
      apply every_conjunction
      intro member isMember
      obtain ⟨original, isOriginal, rfl⟩ := List.mem_map.mp isMember
      exact ih original isOriginal (each original isOriginal)
  | test expected question =>
      simp only [Condition.resolve, decideTest]
      cases decided : outcome question with
      | some actual => exact every_ofBool _
      | none => exact test question every decided
  | truth => trivial
  | falsity => trivial

/-- All variables of a condition are in its scope, if those of its tests are. -/
theorem Every.scope_of_mem_vars {scope : Variable → Prop} {test : Test → Prop}
    {ofTest : Test → List Variable} {condition : Condition Test}
    (every : condition.Every (.scoped scope test))
    (ofTests : ∀ question, test question → ∀ var ∈ ofTest question, scope var)
    {var : Variable} (occurs : var ∈ condition.vars ofTest) : scope var := by
  induction condition using induction with
  | linear sum relation => exact every var occurs
  | compare left right relation =>
      rcases List.mem_append.mp occurs with inLeft | inRight
      · exact every.1 var inLeft
      · exact every.2 var inRight
  | anyOf members ih =>
      simp only [vars, varsEach_eq_flatMap, List.mem_flatMap] at occurs
      obtain ⟨member, isMember, occursThere⟩ := occurs
      exact ih member isMember ((every_anyOf.mp every).2 member isMember) occursThere
  | allOf members ih =>
      simp only [vars, varsEach_eq_flatMap, List.mem_flatMap] at occurs
      obtain ⟨member, isMember, occursThere⟩ := occurs
      exact ih member isMember ((every_allOf.mp every).2 member isMember) occursThere
  | test expected question => exact ofTests question every var occurs
  | truth => simp [vars] at occurs
  | falsity => simp [vars] at occurs

/-- The comparisons of a condition mention no other variables than what replaces its tests leaves
in it. -/
theorem Every.scoped_of_bindTests {scope : Variable → Prop}
    {replace : Bool → Test → Condition Other} {ofOther : Other → List Variable}
    {condition : Condition Test} (every : condition.Every rule)
    (inScope : ∀ var ∈ (condition.bindTests replace).vars ofOther, scope var) :
    condition.Every (.scoped scope rule.test) := by
  induction condition using induction with
  | linear sum relation => exact inScope
  | compare left right relation =>
      exact ⟨fun var occurs => inScope var (List.mem_append_left _ occurs),
        fun var occurs => inScope var (List.mem_append_right _ occurs)⟩
  | anyOf members ih =>
      obtain ⟨nonempty, each⟩ := every_anyOf.mp every
      refine every_anyOf.mpr ⟨nonempty, fun member isMember =>
        ih member isMember (each member isMember) fun var occurs => inScope var ?_⟩
      simp only [Condition.bindTests, bindTestsEach_eq_map, vars, varsEach_eq_flatMap,
        List.mem_flatMap]
      exact ⟨_, List.mem_map_of_mem isMember, occurs⟩
  | allOf members ih =>
      obtain ⟨nonempty, each⟩ := every_allOf.mp every
      refine every_allOf.mpr ⟨nonempty, fun member isMember =>
        ih member isMember (each member isMember) fun var occurs => inScope var ?_⟩
      simp only [Condition.bindTests, bindTestsEach_eq_map, vars, varsEach_eq_flatMap,
        List.mem_flatMap]
      exact ⟨_, List.mem_map_of_mem isMember, occurs⟩
  | test expected question => exact every
  | truth => trivial
  | falsity => trivial

/-- Replacing tests keeps what the comparisons obey. -/
theorem Every.bindTests {ruleOther : LeafRule Other} {replace : Bool → Test → Condition Other}
    {condition : Condition Test} (every : condition.Every rule)
    (linear : ∀ sum, rule.linear sum → ruleOther.linear sum)
    (compare : ∀ left right, rule.compare left right → ruleOther.compare left right)
    (test : ∀ question, rule.test question → ∀ expected,
      (replace expected question).Every ruleOther) :
    (condition.bindTests replace).Every ruleOther := by
  induction condition using induction with
  | linear sum relation => exact linear sum every
  | compare left right relation => exact compare left right every
  | anyOf members ih =>
      obtain ⟨nonempty, each⟩ := every_anyOf.mp every
      rw [Condition.bindTests, bindTestsEach_eq_map]
      refine every_anyOf.mpr ⟨by simpa using nonempty, ?_⟩
      intro member isMember
      obtain ⟨original, isOriginal, rfl⟩ := List.mem_map.mp isMember
      exact ih original isOriginal (each original isOriginal)
  | allOf members ih =>
      obtain ⟨nonempty, each⟩ := every_allOf.mp every
      rw [Condition.bindTests, bindTestsEach_eq_map]
      refine every_allOf.mpr ⟨by simpa using nonempty, ?_⟩
      intro member isMember
      obtain ⟨original, isOriginal, rfl⟩ := List.mem_map.mp isMember
      exact ih original isOriginal (each original isOriginal)
  | test expected question => exact test question every expected
  | truth => trivial
  | falsity => trivial

end Every

/-! ### The reading of a solver -/

mutual

/-- Whether a condition holds over the integers under a valuation, given the outcomes of tests. -/
def holdsAt (valuation : Variable → Int) (answer : Test → Bool) : Condition Test → Bool
  | .linear sum relation => relation.holds (sum.valueAt valuation)
  | .compare left right relation =>
      relation.holds (left.valueAt valuation - right.valueAt valuation)
  | .anyOf members => members.isEmpty || someHoldsAt valuation answer members
  | .allOf members => !members.isEmpty && eachHoldsAt valuation answer members
  | .test expected question => answer question == expected
  | .truth => true
  | .falsity => false

/-- Whether some member holds. -/
def someHoldsAt (valuation : Variable → Int) (answer : Test → Bool) :
    List (Condition Test) → Bool
  | [] => false
  | member :: rest => member.holdsAt valuation answer || someHoldsAt valuation answer rest

/-- Whether every member holds. -/
def eachHoldsAt (valuation : Variable → Int) (answer : Test → Bool) :
    List (Condition Test) → Bool
  | [] => true
  | member :: rest => member.holdsAt valuation answer && eachHoldsAt valuation answer rest

end

section HoldsAt

variable {valuation : Variable → Int} {answer : Test → Bool}

@[simp]
theorem someHoldsAt_eq_any (members : List (Condition Test)) :
    someHoldsAt valuation answer members = members.any (holdsAt valuation answer) := by
  induction members with
  | nil => rfl
  | cons member rest ih => simp [someHoldsAt, ih]

@[simp]
theorem eachHoldsAt_eq_all (members : List (Condition Test)) :
    eachHoldsAt valuation answer members = members.all (holdsAt valuation answer) := by
  induction members with
  | nil => rfl
  | cons member rest ih => simp [eachHoldsAt, ih]

@[simp]
theorem holdsAt_ofBool (value : Bool) :
    (ofBool value : Condition Test).holdsAt valuation answer = value := by
  cases value <;> rfl

theorem holdsAt_anyOf {members : List (Condition Test)} (nonempty : members ≠ []) :
    (anyOf members).holdsAt valuation answer = members.any (holdsAt valuation answer) := by
  simp [holdsAt, nonempty]

theorem holdsAt_allOf {members : List (Condition Test)} (nonempty : members ≠ []) :
    (allOf members).holdsAt valuation answer = members.all (holdsAt valuation answer) := by
  simp [holdsAt, nonempty]

theorem any_of_keptAny {members kept : List (Condition Test)}
    (folded : keptAny members = some kept) :
    members.any (holdsAt valuation answer) = kept.any (holdsAt valuation answer) := by
  induction members generalizing kept with
  | nil =>
      cases folded
      rfl
  | cons head rest ih =>
      rw [keptAny_cons] at folded
      split at folded
      · simp at folded
      · split at folded
        · rename_i isFalse
          have same : head = .falsity := by cases head <;> simp_all [isFalsity]
          rw [List.any_cons, ih folded, same, holdsAt, Bool.false_or]
        · obtain ⟨keptRest, foldedRest, rfl⟩ := Option.map_eq_some_iff.mp folded
          rw [List.any_cons, List.any_cons, ih foldedRest]

/-- Folding a disjunction keeps its meaning. -/
@[simp]
theorem holdsAt_disjunction (members : List (Condition Test)) :
    (disjunction members).holdsAt valuation answer = members.any (holdsAt valuation answer) := by
  cases folded : keptAny members with
  | none =>
      have holds := keptAny_eq_none_iff.mp folded
      simp only [disjunction, folded, holdsAt]
      exact (List.any_eq_true.mpr ⟨.truth, holds, rfl⟩).symm
  | some kept =>
      rw [any_of_keptAny folded]
      simp only [disjunction, folded]
      rcases kept with _ | ⟨first, _ | ⟨second, rest⟩⟩
      · rfl
      · simp
      · exact holdsAt_anyOf (by simp)

@[simp]
theorem holdsAt_negate (condition : Condition Test) :
    condition.negate.holdsAt valuation answer = !condition.holdsAt valuation answer := by
  induction condition using induction with
  | linear sum relation => simp [negate, holdsAt]
  | compare left right relation => simp [negate, holdsAt]
  | anyOf members ih =>
      simp only [negate, holdsAt, negateEach_eq_map, eachHoldsAt_eq_all, someHoldsAt_eq_any,
        List.isEmpty_map, List.all_map, Bool.not_or, List.not_any_eq_all_not]
      congr 1
      exact all_congr_of_mem ih
  | allOf members ih =>
      simp only [negate, holdsAt, negateEach_eq_map, eachHoldsAt_eq_all, someHoldsAt_eq_any,
        List.isEmpty_map, List.any_map, Bool.not_and, Bool.not_not, List.not_all_eq_any_not]
      congr 1
      exact any_congr_of_mem ih
  | test expected question =>
      simp only [negate, holdsAt]
      cases answer question <;> cases expected <;> rfl
  | truth => rfl
  | falsity => rfl

@[simp]
theorem holdsAt_conjunction (members : List (Condition Test)) :
    (conjunction members).holdsAt valuation answer = members.all (holdsAt valuation answer) := by
  rw [conjunction_eq_negate_disjunction, holdsAt_negate, holdsAt_disjunction, List.any_map,
    List.not_any_eq_all_not]
  apply List.all_congr rfl
  intro member
  simp

/-- The reading of a condition depends on its own variables only. -/
theorem holdsAt_congr {first second : Variable → Int} {ofTest : Test → List Variable}
    {condition : Condition Test}
    (agree : ∀ var ∈ condition.vars ofTest, first var = second var) :
    condition.holdsAt first answer = condition.holdsAt second answer := by
  induction condition using induction with
  | linear sum relation => rw [holdsAt, holdsAt, Linear.valueAt_congr agree]
  | compare left right relation =>
      simp only [vars, List.mem_append] at agree
      rw [holdsAt, holdsAt, Arith.valueAt_congr fun var member => agree var (.inl member),
        Arith.valueAt_congr fun var member => agree var (.inr member)]
  | anyOf members ih =>
      simp only [vars, varsEach_eq_flatMap, List.mem_flatMap, forall_exists_index, and_imp] at agree
      simp only [holdsAt, someHoldsAt_eq_any]
      congr 1
      exact any_congr_of_mem fun member isMember =>
        ih member isMember fun var occurs => agree var member isMember occurs
  | allOf members ih =>
      simp only [vars, varsEach_eq_flatMap, List.mem_flatMap, forall_exists_index, and_imp] at agree
      simp only [holdsAt, eachHoldsAt_eq_all]
      congr 1
      exact all_congr_of_mem fun member isMember =>
        ih member isMember fun var occurs => agree var member isMember occurs
  | test expected question => rfl
  | truth => rfl
  | falsity => rfl

/-- Replacing tests by conditions that say the same keeps the meaning. -/
theorem holdsAt_bindTests {replace : Bool → Test → Condition Other} {answerOther : Other → Bool}
    {rule : LeafRule Test} {condition : Condition Test} (every : condition.Every rule)
    (same : ∀ question, rule.test question → ∀ expected,
      (replace expected question).holdsAt valuation answerOther = (answer question == expected)) :
    (condition.bindTests replace).holdsAt valuation answerOther =
      condition.holdsAt valuation answer := by
  induction condition using induction with
  | linear sum relation => rfl
  | compare left right relation => rfl
  | anyOf members ih =>
      obtain ⟨nonempty, each⟩ := every_anyOf.mp every
      rw [bindTests, bindTestsEach_eq_map, holdsAt_anyOf (by simpa using nonempty),
        holdsAt_anyOf nonempty, List.any_map]
      exact any_congr_of_mem fun member isMember => ih member isMember (each member isMember)
  | allOf members ih =>
      obtain ⟨nonempty, each⟩ := every_allOf.mp every
      rw [bindTests, bindTestsEach_eq_map, holdsAt_allOf (by simpa using nonempty),
        holdsAt_allOf nonempty, List.all_map]
      exact all_congr_of_mem fun member isMember => ih member isMember (each member isMember)
  | test expected question => exact same question every expected
  | truth => rfl
  | falsity => rfl

/-- Replacing tests by weaker conditions keeps what is true. Negation stands at the tests only, so
this holds under any nesting. -/
theorem holdsAt_bindTests_of_holdsAt {replace : Bool → Test → Condition Other}
    {answerOther : Other → Bool} {rule : LeafRule Test} {condition : Condition Test}
    (every : condition.Every rule)
    (weaker : ∀ question, rule.test question →
      (replace (answer question) question).holdsAt valuation answerOther = true)
    (holds : condition.holdsAt valuation answer = true) :
    (condition.bindTests replace).holdsAt valuation answerOther = true := by
  induction condition using induction with
  | linear sum relation => exact holds
  | compare left right relation => exact holds
  | anyOf members ih =>
      obtain ⟨nonempty, each⟩ := every_anyOf.mp every
      rw [holdsAt_anyOf nonempty, List.any_eq_true] at holds
      obtain ⟨member, isMember, memberHolds⟩ := holds
      rw [bindTests, bindTestsEach_eq_map, holdsAt_anyOf (by simpa using nonempty), List.any_map,
        List.any_eq_true]
      exact ⟨member, isMember, ih member isMember (each member isMember) memberHolds⟩
  | allOf members ih =>
      obtain ⟨nonempty, each⟩ := every_allOf.mp every
      rw [holdsAt_allOf nonempty, List.all_eq_true] at holds
      rw [bindTests, bindTestsEach_eq_map, holdsAt_allOf (by simpa using nonempty), List.all_map,
        List.all_eq_true]
      exact fun member isMember =>
        ih member isMember (each member isMember) (holds member isMember)
  | test expected question =>
      have same : answer question = expected := by simpa [holdsAt] using holds
      rw [bindTests, ← same]
      exact weaker question every
  | truth => rfl
  | falsity => simp [holdsAt] at holds

theorem disjunction_map_ofBool (values : List Bool) :
    disjunction (values.map ofBool : List (Condition Test)) = ofBool (values.any id) := by
  induction values with
  | nil => rfl
  | cons value rest ih =>
      cases value with
      | true => rfl
      | false =>
          rw [List.map_cons, List.any_cons, id, Bool.false_or, ← ih]
          exact disjunction_congr rfl

theorem conjunction_map_ofBool (values : List Bool) :
    conjunction (values.map ofBool : List (Condition Test)) = ofBool (values.all id) := by
  have negated : (values.map ofBool : List (Condition Test)).map negate =
      (values.map (!·)).map ofBool := by
    simp [Function.comp_def]
  rw [conjunction_eq_negate_disjunction, negated, disjunction_map_ofBool, negate_ofBool,
    List.any_map, List.not_any_eq_all_not]
  congr 1
  apply List.all_congr rfl
  simp

/-- If substitution decides every leaf as it reads over the integers, then it decides the condition
in the same way. -/
theorem resolve_eq_ofBool_holdsAt {assignment : Assignment} {outcome : Test → Option Bool}
    {rule : LeafRule Test} {condition : Condition Test} (every : condition.Every rule)
    (linear : ∀ sum relation, rule.linear sum →
      (decideLinear (sum.substitute assignment) relation : Condition Test) =
        ofBool (relation.holds (sum.valueAt valuation)))
    (compare : ∀ left right relation, rule.compare left right →
      (decideCompare (left.substitute assignment) (right.substitute assignment) relation :
        Condition Test) =
        ofBool (relation.holds (left.valueAt valuation - right.valueAt valuation)))
    (test : ∀ question, rule.test question → outcome question = some (answer question)) :
    condition.resolve assignment outcome = ofBool (condition.holdsAt valuation answer) := by
  induction condition using induction with
  | linear sum relation => exact linear sum relation every
  | compare left right relation => exact compare left right relation every
  | anyOf members ih =>
      obtain ⟨nonempty, each⟩ := every_anyOf.mp every
      have decided : members.map (resolve assignment outcome) =
          (members.map (holdsAt valuation answer)).map ofBool := by
        rw [List.map_map]
        exact List.map_congr_left fun member isMember =>
          ih member isMember (each member isMember)
      rw [resolve_anyOf _ _ nonempty, decided, disjunction_map_ofBool, holdsAt_anyOf nonempty,
        List.any_map]
      rfl
  | allOf members ih =>
      obtain ⟨nonempty, each⟩ := every_allOf.mp every
      have decided : members.map (resolve assignment outcome) =
          (members.map (holdsAt valuation answer)).map ofBool := by
        rw [List.map_map]
        exact List.map_congr_left fun member isMember =>
          ih member isMember (each member isMember)
      rw [resolve_allOf _ _ nonempty, decided, conjunction_map_ofBool, holdsAt_allOf nonempty,
        List.all_map]
      rfl
  | test expected question => simp [resolve, decideTest, test question every, holdsAt]
  | truth => rfl
  | falsity => rfl

/-- If substitution keeps the reading of every leaf, then it keeps that of the condition. -/
theorem holdsAt_resolve {assignment : Assignment} {outcome : Test → Option Bool}
    {rule : LeafRule Test} {condition : Condition Test} (every : condition.Every rule)
    (linear : ∀ sum relation, rule.linear sum →
      (decideLinear (sum.substitute assignment) relation : Condition Test).holdsAt valuation answer =
        relation.holds (sum.valueAt valuation))
    (compare : ∀ left right relation, rule.compare left right →
      (decideCompare (left.substitute assignment) (right.substitute assignment) relation :
        Condition Test).holdsAt valuation answer =
        relation.holds (left.valueAt valuation - right.valueAt valuation))
    (test : ∀ question actual, rule.test question → outcome question = some actual →
      actual = answer question) :
    (condition.resolve assignment outcome).holdsAt valuation answer =
      condition.holdsAt valuation answer := by
  induction condition using induction with
  | linear sum relation => exact linear sum relation every
  | compare left right relation => exact compare left right relation every
  | anyOf members ih =>
      obtain ⟨nonempty, each⟩ := every_anyOf.mp every
      rw [resolve_anyOf _ _ nonempty, holdsAt_disjunction, holdsAt_anyOf nonempty, List.any_map]
      exact any_congr_of_mem fun member isMember => ih member isMember (each member isMember)
  | allOf members ih =>
      obtain ⟨nonempty, each⟩ := every_allOf.mp every
      rw [resolve_allOf _ _ nonempty, holdsAt_conjunction, holdsAt_allOf nonempty, List.all_map]
      exact all_congr_of_mem fun member isMember => ih member isMember (each member isMember)
  | test expected question =>
      simp only [resolve, decideTest]
      cases decided : outcome question with
      | some actual => simp [holdsAt, test question actual every decided]
      | none => rfl
  | truth => rfl
  | falsity => rfl

theorem holdsAt_decideLinear (sum : Linear) (relation : Relation) :
    (decideLinear sum relation : Condition Test).holdsAt valuation answer =
      relation.holds (sum.valueAt valuation) := by
  by_cases decided : sum.isConstant = true
  · have noEntries : sum.coefficients.entries = [] := by
      simpa [Linear.isConstant, VarMap.isEmpty] using decided
    simp [decideLinear, decided, Linear.valueAt, noEntries]
  · simp [decideLinear, decided, holdsAt]

theorem holdsAt_decideCompare {left right : Arith} (relation : Relation)
    (fits : FitsWord (left.valueAt valuation - right.valueAt valuation)) :
    (decideCompare left right relation : Condition Test).holdsAt valuation answer =
      relation.holds (left.valueAt valuation - right.valueAt valuation) := by
  cases left with
  | const first =>
      cases right with
      | const second =>
          have exact : (first - second).toInt = first.toInt - second.toInt := by
            simp only [Arith.valueAt] at fits
            rw [← toInt_ofInt_of_fitsWord fits]
            simp
          simp only [decideCompare, holdsAt_ofBool, exact, Arith.valueAt]
      | _ => rfl
  | _ => rfl

end HoldsAt

end Condition

end Concolic
