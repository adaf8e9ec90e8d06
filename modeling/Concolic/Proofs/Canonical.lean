import Mathlib
import Concolic.Proofs.Linear

/-!
# Sums modulo the word size

The operations on linear sums work on the stored coefficients, each in 64-bit words. What they do to
the value of a sum is what the same operation does to words: values are exact integers modulo 2^64,
and reduction commutes with addition and multiplication.

A sum that stores no zero is a canonical form. The constant is the value where every variable is
zero, and a coefficient is the difference that one variable makes, so the values determine both.
-/

namespace Concolic

namespace Assignment

/-- The values of a function for the variables of a list. -/
def tabulate (vars : List Variable) (value : Variable → Int64) : Assignment :=
  VarMap.ofList (vars.map fun var => (var, value var))

theorem get?_tabulate (vars : List Variable) (value : Variable → Int64) (var : Variable) :
    (tabulate vars value).get? var = if var ∈ vars then some (value var) else none := by
  induction vars with
  | nil => rfl
  | cons first rest ih =>
      have step : (tabulate (first :: rest) value).get? var =
          ((tabulate rest value).get? var).or
            (if first = var then some (value first) else none) :=
        VarMap.get?_ofList_cons _ _ _
      rw [step, ih]
      by_cases isLater : var ∈ rest
      · simp [isLater]
      · by_cases isFirst : first = var
        · subst isFirst
          simp [isLater]
        · simp [isLater, isFirst, Ne.symm isFirst]

theorem binds_tabulate (vars : List Variable) (value : Variable → Int64) :
    (tabulate vars value).Binds vars := by
  intro var member
  exact ⟨value var, by rw [get?_tabulate, if_pos member]⟩

theorem valuation_tabulate {vars : List Variable} {value : Variable → Int64} {var : Variable}
    (member : var ∈ vars) : (tabulate vars value).valuation var = (value var).toInt := by
  apply valuation_of_get?
  rw [get?_tabulate, if_pos member]

end Assignment

namespace Linear

/-! ### Coefficients -/

theorem sparse_iff {sum : Linear} :
    sum.Sparse ↔ ∀ entry ∈ sum.coefficients.entries, entry.2 ≠ 0 := by
  constructor
  · rintro sparse ⟨var, value⟩ member (rfl : value = 0)
    exact sparse var (VarMap.mem_entries_iff.mp member)
  · intro nonzero var isStored
    exact nonzero (var, 0) (VarMap.mem_entries_iff.mpr isStored) rfl

instance (sum : Linear) : Decidable sum.Sparse :=
  decidable_of_iff _ sparse_iff.symm

/-- Adding terms is substituting nothing. -/
theorem plus_eq_foldl_absorb (first second : Linear) :
    first.plus second =
      (second.coefficients.entries.foldl (absorb ∅) first).plusConstant second.constant :=
  rfl

theorem coefficient_plus (first second : Linear) (var : Variable) :
    (first.plus second).coefficient var = first.coefficient var + second.coefficient var := by
  rw [plus_eq_foldl_absorb, coefficient_plusConstant,
    coefficient_foldl_absorb _ _ second.coefficients.ascending]
  rfl

theorem constant_plus (first second : Linear) :
    (first.plus second).constant = first.constant + second.constant := by
  rw [plus, constant_plusConstant, constant_foldl_addTerm]

theorem coefficient_scaled (sum : Linear) (factor : Int64) (var : Variable) :
    (sum.scaled factor).coefficient var = sum.coefficient var * factor := by
  simp only [scaled]
  split
  · rename_i isZero
    simp [isZero]
  · simp only [coefficient, VarMap.get?_mapValues]
    cases sum.coefficients.get? var <;> simp

theorem coefficient_minus (first second : Linear) (var : Variable) :
    (first.minus second).coefficient var = first.coefficient var - second.coefficient var := by
  rw [minus, coefficient_plus, coefficient_scaled]
  grind

/-- What is added may store zeros: a term that vanishes is never stored. -/
theorem sparse_plus {first : Linear} (sparse : first.Sparse) (second : Linear) :
    (first.plus second).Sparse := by
  have general (entries : List (Variable × Int64)) (start : Linear) (sparse : start.Sparse) :
      (entries.foldl (fun sum entry => sum.addTerm entry.1 entry.2) start).Sparse := by
    induction entries generalizing start with
    | nil => exact sparse
    | cons entry rest ih =>
        apply ih
        exact sparse_addTerm sparse entry.1 entry.2
  exact general _ _ sparse

/-! ### Values -/

theorem evaluate?_eq_some {sum : Linear} {assignment : Assignment}
    (binds : assignment.Binds sum.vars) :
    sum.evaluate? assignment = some (Int64.ofInt (sum.valueAt assignment.valuation)) := by
  simp only [evaluate?]
  rw [if_pos (isConstant_of_binds binds), constant_substitute]

theorem ofInt_valueAt_plus (valuation : Variable → Int) (first second : Linear) :
    Int64.ofInt ((first.plus second).valueAt valuation) =
      Int64.ofInt (first.valueAt valuation) + Int64.ofInt (second.valueAt valuation) := by
  have agrees : (∅ : Assignment).AgreesWith valuation := by
    intro key value bound
    simp at bound
  rw [plus_eq_foldl_absorb, ofInt_valueAt_plusConstant, ofInt_valueAt_foldl_absorb agrees]
  simp only [valueAt, Int64.ofInt_add, Int64.ofInt_toInt]
  grind

theorem ofInt_valueAt_scaled (valuation : Variable → Int) (sum : Linear) (factor : Int64) :
    Int64.ofInt ((sum.scaled factor).valueAt valuation) =
      Int64.ofInt (sum.valueAt valuation) * factor := by
  have terms (entries : List (Variable × Int64)) :
      Int64.ofInt (VarMap.weigh (fun var coefficient => coefficient.toInt * valuation var)
          (entries.map fun entry => (entry.1, entry.2 * factor))) =
        Int64.ofInt (VarMap.weigh (fun var coefficient => coefficient.toInt * valuation var)
          entries) * factor := by
    induction entries with
    | nil => simp
    | cons entry rest ih =>
        simp only [List.map_cons, VarMap.weigh_cons, Int64.ofInt_add, Int64.ofInt_mul,
          Int64.ofInt_toInt, ih]
        grind
  simp only [scaled]
  split
  · rename_i isZero
    simp [isZero]
  · simp only [valueAt, Int64.ofInt_add, Int64.ofInt_toInt, VarMap.mapValues, terms]
    grind

theorem ofInt_valueAt_minus (valuation : Variable → Int) (first second : Linear) :
    Int64.ofInt ((first.minus second).valueAt valuation) =
      Int64.ofInt (first.valueAt valuation) - Int64.ofInt (second.valueAt valuation) := by
  rw [minus, ofInt_valueAt_plus, ofInt_valueAt_scaled]
  grind

/-! ### Values determine a sum -/

/-- The value where one variable is one and all others are zero. -/
theorem valueAt_single (sum : Linear) (var : Variable) :
    sum.valueAt (fun other => if other = var then 1 else 0) =
      sum.constant.toInt + (sum.coefficient var).toInt := by
  have terms {entries : List (Variable × Int64)}
      (ascending : entries.Pairwise fun earlier later => earlier.1 < later.1) :
      VarMap.weigh (fun other coefficient => coefficient.toInt * if other = var then 1 else 0)
        entries = ((VarMap.find var entries).getD 0).toInt := by
    induction entries with
    | nil => rfl
    | cons entry rest ih =>
        rcases List.pairwise_cons.mp ascending with ⟨headFirst, restAscending⟩
        rw [VarMap.weigh_cons, ih restAscending]
        by_cases same : entry.1 = var
        · have absent : VarMap.find var rest = none :=
            VarMap.find_eq_none_of_lt fun later member => same ▸ headFirst later member
          simp [VarMap.find, same, absent]
        · simp [VarMap.find, same]
  rw [valueAt, terms sum.coefficients.ascending]
  rfl

theorem valueAt_zero (sum : Linear) : sum.valueAt (fun _ => 0) = sum.constant.toInt := by
  have terms (entries : List (Variable × Int64)) :
      VarMap.weigh (fun _ coefficient => coefficient.toInt * 0) entries = 0 := by
    induction entries with
    | nil => rfl
    | cons entry rest ih => rw [VarMap.weigh_cons, ih, mul_zero, add_zero]
  rw [valueAt, terms, add_zero]

/-- Two sums evaluate alike under every assignment that binds the variables of both. -/
def SameValues (first second : Linear) : Prop :=
  ∀ assignment : Assignment, assignment.Binds (first.vars ++ second.vars) →
    first.evaluate? assignment = second.evaluate? assignment

/-- Values that are alike under assignments are alike under all valuations by words. -/
theorem SameValues.ofInt_valueAt {first second : Linear} (same : SameValues first second)
    (value : Variable → Int64) :
    Int64.ofInt (first.valueAt fun var => (value var).toInt) =
      Int64.ofInt (second.valueAt fun var => (value var).toInt) := by
  let assignment := Assignment.tabulate (first.vars ++ second.vars) value
  have binds : assignment.Binds (first.vars ++ second.vars) := Assignment.binds_tabulate _ _
  have sameHere := same assignment binds
  rw [evaluate?_eq_some fun var member => binds var (List.mem_append_left _ member),
    evaluate?_eq_some fun var member => binds var (List.mem_append_right _ member),
    Option.some.injEq] at sameHere
  have firstValue : first.valueAt assignment.valuation =
      first.valueAt fun var => (value var).toInt := by
    apply valueAt_congr
    intro var member
    exact Assignment.valuation_tabulate (List.mem_append_left _ member)
  have secondValue : second.valueAt assignment.valuation =
      second.valueAt fun var => (value var).toInt := by
    apply valueAt_congr
    intro var member
    exact Assignment.valuation_tabulate (List.mem_append_right _ member)
  rwa [firstValue, secondValue] at sameHere

theorem SameValues.constant_eq {first second : Linear} (same : SameValues first second) :
    first.constant = second.constant := by
  have atZero := same.ofInt_valueAt fun _ => 0
  simpa only [Int64.toInt_zero, valueAt_zero, Int64.ofInt_toInt] using atZero

theorem SameValues.coefficient_eq {first second : Linear} (same : SameValues first second)
    (var : Variable) : first.coefficient var = second.coefficient var := by
  have single : (fun other => (if other = var then (1 : Int64) else 0).toInt) =
      fun other => if other = var then 1 else 0 := by
    funext other
    split <;> rfl
  have atSingle := same.ofInt_valueAt fun other => if other = var then 1 else 0
  rw [single, valueAt_single, valueAt_single, Int64.ofInt_add, Int64.ofInt_add, Int64.ofInt_toInt,
    Int64.ofInt_toInt, Int64.ofInt_toInt, Int64.ofInt_toInt, same.constant_eq] at atSingle
  grind

/-- The operations on sums are those on words. Under an assignment that binds the variables of two
sums, which may store zeros, both have values, and their sum, their difference, the sum with a
constant and the product with a factor have the values that wrapped arithmetic gives. Sums that
store no zero are equal exactly if they have the same values, so that adding them is commutative and
associative and a difference of equals is zero. -/
theorem operations_wrap_and_values_determine :
    (∀ (first second : Linear) (word : Int64) (assignment : Assignment),
      assignment.Binds (first.vars ++ second.vars) →
      ∃ value other,
        first.evaluate? assignment = some value ∧ second.evaluate? assignment = some other ∧
        value = Int64.ofInt (first.valueAt assignment.valuation) ∧
        other = Int64.ofInt (second.valueAt assignment.valuation) ∧
        (first.plus second).evaluate? assignment = some (value + other) ∧
        (first.minus second).evaluate? assignment = some (value - other) ∧
        (first.plusConstant word).evaluate? assignment = some (value + word) ∧
        (first.scaled word).evaluate? assignment = some (value * word)) ∧
    (∀ first second : Linear, first.Sparse → second.Sparse →
      (first = second ↔ ∀ assignment : Assignment,
        assignment.Binds (first.vars ++ second.vars) →
          first.evaluate? assignment = second.evaluate? assignment)) ∧
    (∀ first second : Linear, first.Sparse → second.Sparse →
      first.plus second = second.plus first) ∧
    (∀ first second third : Linear, first.Sparse → second.Sparse → third.Sparse →
      (first.plus second).plus third = first.plus (second.plus third)) ∧
    ∀ sum : Linear, sum.Sparse → sum.minus sum = ofConstant 0 := by
  refine ⟨?_, ?_, ?_, ?_, ?_⟩
  · intro first second word assignment binds
    have bindsFirst : assignment.Binds first.vars :=
      fun var member => binds var (List.mem_append_left _ member)
    have bindsSecond : assignment.Binds second.vars :=
      fun var member => binds var (List.mem_append_right _ member)
    refine ⟨_, _, evaluate?_eq_some bindsFirst, evaluate?_eq_some bindsSecond, rfl, rfl,
      ?_, ?_, ?_, ?_⟩
    · rw [evaluate?_eq_some, ofInt_valueAt_plus]
      intro var occurs
      exact binds var (List.mem_append.mpr (mem_vars_plus occurs))
    · rw [evaluate?_eq_some, ofInt_valueAt_minus]
      intro var occurs
      exact binds var (List.mem_append.mpr (mem_vars_minus occurs))
    · rw [evaluate?_eq_some, ofInt_valueAt_plusConstant]
      exact bindsFirst
    · rw [evaluate?_eq_some, ofInt_valueAt_scaled]
      intro var occurs
      exact bindsFirst var (mem_vars_scaled occurs)
  · intro first second firstSparse secondSparse
    constructor
    · rintro rfl assignment _
      rfl
    · intro (same : SameValues first second)
      exact ext_coefficient firstSparse secondSparse same.coefficient_eq same.constant_eq
  · intro first second firstSparse secondSparse
    apply ext_coefficient (sparse_plus firstSparse _) (sparse_plus secondSparse _)
    · intro var
      rw [coefficient_plus, coefficient_plus, Int64.add_comm]
    · rw [constant_plus, constant_plus, Int64.add_comm]
  · intro first second third firstSparse _ _
    apply ext_coefficient (sparse_plus (sparse_plus firstSparse _) _) (sparse_plus firstSparse _)
    · intro var
      simp only [coefficient_plus, Int64.add_assoc]
    · simp only [constant_plus, Int64.add_assoc]
  · intro sum sparse
    have isSparse : (sum.minus sum).Sparse := sparse_plus sparse _
    apply ext_coefficient isSparse (sparse_ofConstant 0)
    · intro var
      rw [coefficient_minus, Int64.sub_self, coefficient_ofConstant]
    · rw [constant_minus, Int64.sub_self]
      rfl

/-- A sum with the least word as a coefficient, and with a zero that is stored. -/
def lopsided : Linear where
  coefficients := .ofList [(.int 1, -9223372036854775808), (.int 2, 0)]
  constant := 7

/-- Another one, without a zero. -/
def steep : Linear where
  coefficients := .ofList [(.int 1, -9223372036854775808), (.char 1 0, 2)]
  constant := -9223372036854775808

/-- Values for the variables of both. -/
def corner : Assignment :=
  .ofList [(.int 1, 3), (.int 2, 5), (.char 1 0, -1)]

theorem lopsided_operations_wrap :
    corner.Binds (lopsided.vars ++ steep.vars) ∧ ¬lopsided.Sparse ∧ steep.Sparse ∧
      (ofVar (.int 1)).Sparse ∧
      lopsided.evaluate? corner = some (-9223372036854775801) ∧
      steep.evaluate? corner = some (-2) ∧
      (lopsided.plus steep).evaluate? corner = some (-9223372036854775801 + -2) ∧
      (lopsided.minus steep).evaluate? corner = some (-9223372036854775801 - -2) ∧
      (lopsided.plusConstant (-9)).evaluate? corner = some (-9223372036854775801 + -9) ∧
      (lopsided.scaled (-9)).evaluate? corner = some (-9223372036854775801 * -9) ∧
      (¬∀ assignment : Assignment, assignment.Binds (steep.vars ++ (ofVar (.int 1)).vars) →
        steep.evaluate? assignment = (ofVar (.int 1)).evaluate? assignment) ∧
      steep.plus (ofVar (.int 1)) = (ofVar (.int 1)).plus steep ∧
      (steep.plus (ofVar (.int 1))).plus steep = steep.plus ((ofVar (.int 1)).plus steep) ∧
      steep.minus steep = ofConstant 0 := by
  rcases operations_wrap_and_values_determine with
    ⟨wraps, determine, commutes, associates, cancels⟩
  have binds : corner.Binds (lopsided.vars ++ steep.vars) := by decide +kernel
  have steepSparse : steep.Sparse := by decide +kernel
  have varSparse : (ofVar (.int 1)).Sparse := by decide +kernel
  have firstValue : lopsided.evaluate? corner = some (-9223372036854775801) := by decide +kernel
  have secondValue : steep.evaluate? corner = some (-2) := by decide +kernel
  rcases wraps lopsided steep (-9) corner binds with
    ⟨value, other, isFirst, isSecond, _, _, sum, difference, shifted, product⟩
  rw [firstValue, Option.some.injEq] at isFirst
  rw [secondValue, Option.some.injEq] at isSecond
  subst isFirst isSecond
  refine ⟨binds, by decide +kernel, steepSparse, varSparse, firstValue, secondValue, sum,
    difference, shifted, product, ?_, commutes _ _ steepSparse varSparse,
    associates _ _ _ steepSparse varSparse steepSparse, cancels _ steepSparse⟩
  rw [← determine _ _ steepSparse varSparse]
  decide +kernel

end Linear

end Concolic
