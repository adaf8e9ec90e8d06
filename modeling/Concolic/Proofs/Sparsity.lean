import Mathlib
import Concolic.Proofs.Canonical

/-!
# Sums without stored zeros

Addition and substitution never store a zero, since a term that vanishes is dropped. Scaling visits
the coefficients one by one and drops none, so a coefficient whose product with the factor is a
multiple of 2^64 stays behind as a zero. This is the only way in which a zero enters a sum: the sums
on the way to a result store none exactly if no scaling on that way makes a coefficient vanish.

Without stored zeros a sum mentions a variable exactly if its value depends on it.
-/

namespace Concolic.Linear

/-! ### One step -/

/-- Scaling makes no stored coefficient vanish. A zero factor leaves nothing stored. -/
def Withstands (sum : Linear) (factor : Int64) : Prop :=
  factor = 0 ∨ ∀ var ∈ sum.vars, sum.coefficient var * factor ≠ 0

/-- Scaling keeps zeros out exactly if no product vanishes. -/
theorem sparse_scaled_iff {sum : Linear} {factor : Int64} :
    (sum.scaled factor).Sparse ↔ sum.Withstands factor := by
  by_cases isZero : factor = 0
  · have nothing : sum.scaled factor = ofConstant 0 := if_pos isZero
    rw [nothing]
    exact iff_of_true (sparse_ofConstant 0) (.inl isZero)
  · have products : (sum.scaled factor).coefficients = sum.coefficients.mapValues (· * factor) := by
      rw [scaled, if_neg isZero]
    simp only [Sparse, Withstands, products, VarMap.get?_mapValues, isZero, false_or]
    apply forall_congr'
    intro var
    rw [vars, VarMap.mem_keys_iff, coefficient]
    cases sum.coefficients.get? var with
    | none => simp
    | some value => simp

theorem sparse_plusConstant {sum : Linear} (sparse : sum.Sparse) (value : Int64) :
    (sum.plusConstant value).Sparse :=
  sparse

theorem sparse_term (var : Variable) (factor : Int64) : (term var factor).Sparse :=
  sparse_addTerm (sparse_ofConstant 0) var factor

/-! ### Dependence on variables -/

/-- The value is the same wherever the variables are bound. -/
def Independent (sum : Linear) : Prop :=
  ∀ first second : Assignment, first.Binds sum.vars → second.Binds sum.vars →
    sum.evaluate? first = sum.evaluate? second

/-- The value depends on the variables whose coefficients are not zero, and on no others. -/
theorem independent_iff {sum : Linear} :
    sum.Independent ↔ ∀ var, sum.coefficient var = 0 := by
  constructor
  · intro independent var
    -- The sum has the values of a constant, namely of what it is where every variable is zero.
    let zeros := Assignment.tabulate sum.vars fun _ => 0
    have bindsZeros : zeros.Binds sum.vars := Assignment.binds_tabulate _ _
    have same : SameValues sum (ofConstant (Int64.ofInt (sum.valueAt zeros.valuation))) := by
      intro assignment binds
      have bindsSum : assignment.Binds sum.vars :=
        fun var member => binds var (List.mem_append_left _ member)
      rw [independent assignment zeros bindsSum bindsZeros, evaluate?_eq_some bindsZeros]
      rfl
    rw [same.coefficient_eq var, coefficient_ofConstant]
  · intro noCoefficient first second bindsFirst bindsSecond
    have same : sum.valueAt first.valuation = sum.valueAt second.valuation := by
      rw [valueAt, valueAt, VarMap.weigh_congr]
      intro entry member
      have isZero : entry.2 = 0 := by
        have stored := noCoefficient entry.1
        rwa [coefficient, VarMap.mem_entries_iff.mp member] at stored
      rw [isZero, Int64.toInt_zero, zero_mul, zero_mul]
    rw [evaluate?_eq_some bindsFirst, evaluate?_eq_some bindsSecond, same]

theorem isConstant_iff_independent {sum : Linear} (sparse : sum.Sparse) :
    sum.isConstant = true ↔ sum.Independent := by
  rw [isConstant_iff, independent_iff, List.eq_nil_iff_forall_not_mem]
  apply forall_congr'
  intro var
  rw [mem_vars_iff sparse, not_not]

/-! ### Many steps -/

/-- A way to build a sum by the operations on sums. -/
inductive Build where
  | constant (value : Int64)
  | var (key : Variable)
  | term (key : Variable) (coefficient : Int64)
  | plus (first second : Build)
  | minus (first second : Build)
  | plusConstant (build : Build) (value : Int64)
  | scaled (build : Build) (factor : Int64)
  | substitute (build : Build) (assignment : Assignment)

namespace Build

/-- The sum that is built. -/
def sum : Build → Linear
  | .constant value => ofConstant value
  | .var key => ofVar key
  | .term key coefficient => Linear.term key coefficient
  | .plus first second => first.sum.plus second.sum
  | .minus first second => first.sum.minus second.sum
  | .plusConstant build value => build.sum.plusConstant value
  | .scaled build factor => build.sum.scaled factor
  | .substitute build assignment => build.sum.substitute assignment

/-- Everything that is built on the way, the result first. -/
def parts : Build → List Build
  | .plus first second => .plus first second :: (first.parts ++ second.parts)
  | .minus first second => .minus first second :: (first.parts ++ second.parts)
  | .plusConstant build value => .plusConstant build value :: build.parts
  | .scaled build factor => .scaled build factor :: build.parts
  | .substitute build assignment => .substitute build assignment :: build.parts
  | build => [build]

theorem self_mem_parts (build : Build) : build ∈ build.parts := by
  cases build <;> exact List.mem_cons_self

/-- What is built on the way to a part is built on the way to the whole. -/
theorem parts_subset {build part : Build} (isPart : part ∈ build.parts) :
    part.parts ⊆ build.parts := by
  induction build with
  | constant value | var key | term key coefficient =>
      rw [List.mem_singleton.mp isPart]
      exact List.Subset.refl _
  | plus first second ihFirst ihSecond | minus first second ihFirst ihSecond =>
      rcases List.mem_cons.mp isPart with rfl | isEarlier
      · exact List.Subset.refl _
      · apply List.subset_cons_of_subset
        rcases List.mem_append.mp isEarlier with inFirst | inSecond
        · exact List.subset_append_of_subset_left _ (ihFirst inFirst)
        · exact List.subset_append_of_subset_right _ (ihSecond inSecond)
  | plusConstant build value ih | scaled build factor ih | substitute build assignment ih =>
      rcases List.mem_cons.mp isPart with rfl | isEarlier
      · exact List.Subset.refl _
      · exact List.subset_cons_of_subset _ (ih isEarlier)

/-- No scaling on the way makes a coefficient vanish. -/
def Stable (build : Build) : Prop :=
  ∀ inner factor, .scaled inner factor ∈ build.parts → inner.sum.Withstands factor

theorem Stable.mono {build part : Build} (stable : build.Stable)
    (subset : part.parts ⊆ build.parts) : part.Stable :=
  fun inner factor isPart => stable inner factor (subset isPart)

/-- Every operation but scaling keeps zeros out by itself. -/
theorem Stable.sparse_sum {build : Build} (stable : build.Stable) : build.sum.Sparse := by
  induction build with
  | constant value => exact sparse_ofConstant value
  | var key => exact sparse_term key 1
  | term key coefficient => exact sparse_term key coefficient
  | plus first second ihFirst _ | minus first second ihFirst _ =>
      apply sparse_plus
      apply ihFirst
      apply stable.mono
      exact List.subset_cons_of_subset _ (List.subset_append_left _ _)
  | plusConstant build value ih =>
      apply sparse_plusConstant
      apply ih
      exact stable.mono (List.subset_cons_self _ _)
  | scaled build factor _ =>
      apply sparse_scaled_iff.mpr
      exact stable build factor List.mem_cons_self
  | substitute build assignment _ => exact sparse_substitute _ _

/-- Zeros stay out exactly as far as no product vanishes. Of all the sums on the way to a result,
none stores a zero, and each counts as constant exactly if its value depends on no variable, if and
only if every scaling on the way is by zero or leaves every stored coefficient different from zero
in 64-bit words. -/
theorem parts_sparse_iff (build : Build) :
    (∀ part ∈ build.parts, part.sum.Sparse ∧
      (part.sum.isConstant = true ↔ part.sum.Independent)) ↔
    ∀ inner factor, .scaled inner factor ∈ build.parts →
      factor = 0 ∨ ∀ var ∈ inner.sum.vars, inner.sum.coefficient var * factor ≠ 0 := by
  constructor
  · intro sparse inner factor isPart
    exact sparse_scaled_iff.mp (sparse _ isPart).1
  · intro (stable : build.Stable) part isPart
    have isSparse : part.sum.Sparse := (stable.mono (parts_subset isPart)).sparse_sum
    exact ⟨isSparse, isConstant_iff_independent isSparse⟩

/-- Twice the least word is zero. -/
def doubled : Build :=
  .scaled (.term (.int 1) (-9223372036854775808)) 2

/-- Three times the least word is the least word, and the other term cancels. -/
def tripled : Build :=
  .minus (.scaled (.plus (.var (.int 2)) (.term (.int 1) (-9223372036854775808))) 3)
    (.term (.int 2) 3)

theorem doubled_leaves_zero :
    doubled.sum.coefficients.get? (.int 1) = some 0 ∧ doubled.sum.isConstant = false ∧
      doubled.sum.Independent ∧
      (¬∀ part ∈ doubled.parts, part.sum.Sparse ∧
        (part.sum.isConstant = true ↔ part.sum.Independent)) ∧
      tripled.sum.vars = [.int 1] ∧
      ∀ part ∈ tripled.parts, part.sum.Sparse ∧
        (part.sum.isConstant = true ↔ part.sum.Independent) := by
  have products : (Linear.term (.int 1) (-9223372036854775808)).coefficient (.int 1) * 2 = 0 := by
    decide +kernel
  refine ⟨by decide +kernel, by decide +kernel, ?_, ?_, by decide +kernel, ?_⟩
  · apply independent_iff.mpr
    intro var
    rw [doubled, sum, coefficient_scaled, sum, Linear.term, coefficient_addTerm,
      coefficient_ofConstant]
    split <;> rfl
  · rw [parts_sparse_iff]
    intro stable
    rcases stable _ _ (self_mem_parts doubled) with isZero | nonzero
    · exact absurd isZero (by decide)
    · exact nonzero (.int 1) (by decide +kernel) products
  · rw [parts_sparse_iff]
    intro inner factor isPart
    simp only [tripled, parts, List.mem_cons, List.mem_append, reduceCtorEq, scaled.injEq,
      List.not_mem_nil, or_false, false_or] at isPart
    rcases isPart with ⟨rfl, rfl⟩
    exact .inr (by decide +kernel)

end Build

end Concolic.Linear
