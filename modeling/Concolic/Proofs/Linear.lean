import Mathlib
import Concolic.Linear
import Concolic.Proofs.VarMap

/-!
# The value of a linear sum

Sums are computed in 64-bit words, while a solver reads them over all integers. Both readings are
kept apart here. `Linear.valueAt` is the exact integer value under a valuation of the variables;
what substitution computes is that value reduced to 64 bits (`constant_substitute`). So the two
agree whenever the exact value fits into a word, and every statement about wrapped arithmetic is a
statement about `Int64.ofInt` of exact values.

A sum is determined by its coefficients and its constant once it stores no zero coefficient
(`ext_coefficient`). Substitution always leaves such a sum, whatever it started from.
-/

namespace Concolic

/-- An integer is the value of a 64-bit word. -/
def FitsWord (value : Int) : Prop :=
  -2 ^ 63 ≤ value ∧ value < 2 ^ 63

instance (value : Int) : Decidable (FitsWord value) :=
  inferInstanceAs (Decidable (_ ∧ _))

theorem fitsWord_toInt (value : Int64) : FitsWord value.toInt :=
  ⟨value.le_toInt, value.toInt_lt⟩

theorem toInt_ofInt_of_fitsWord {value : Int} (fits : FitsWord value) :
    (Int64.ofInt value).toInt = value :=
  Int64.toInt_ofInt_of_le fits.1 fits.2

theorem toInt_sub_of_fitsWord {first second : Int64}
    (fits : FitsWord (first.toInt - second.toInt)) :
    (first - second).toInt = first.toInt - second.toInt := by
  rw [← toInt_ofInt_of_fitsWord fits, Int64.ofInt_sub, Int64.ofInt_toInt, Int64.ofInt_toInt]

theorem toInt_add_of_fitsWord {first second : Int64}
    (fits : FitsWord (first.toInt + second.toInt)) :
    (first + second).toInt = first.toInt + second.toInt := by
  rw [← toInt_ofInt_of_fitsWord fits, Int64.ofInt_add, Int64.ofInt_toInt, Int64.ofInt_toInt]

namespace VarMap

/-- The sum of a weight over the entries of a map. -/
def weigh (weight : Variable → Int64 → Int) (entries : List (Variable × Int64)) : Int :=
  (entries.map fun entry => weight entry.1 entry.2).sum

variable {weight : Variable → Int64 → Int}

@[simp]
theorem weigh_nil : weigh weight [] = 0 :=
  rfl

@[simp]
theorem weigh_cons (entry : Variable × Int64) (rest : List (Variable × Int64)) :
    weigh weight (entry :: rest) = weight entry.1 entry.2 + weigh weight rest := by
  simp [weigh]

theorem weigh_congr {other : Variable → Int64 → Int} {entries : List (Variable × Int64)}
    (same : ∀ entry ∈ entries, weight entry.1 entry.2 = other entry.1 entry.2) :
    weigh weight entries = weigh other entries := by
  rw [weigh, weigh, List.map_congr_left same]

theorem weigh_map (change : Int64 → Int64) (entries : List (Variable × Int64)) :
    weigh weight (entries.map fun entry => (entry.1, change entry.2)) =
      weigh (fun var value => weight var (change value)) entries := by
  simp [weigh, Function.comp_def]

theorem weigh_neg (entries : List (Variable × Int64)) :
    weigh (fun var value => -weight var value) entries = -weigh weight entries := by
  induction entries with
  | nil => rfl
  | cons entry rest ih =>
      rw [weigh_cons, weigh_cons, ih]
      ring

/-- What a key adds to the weight of a list of entries. -/
def share (weight : Variable → Int64 → Int) (key : Variable) (entries : List (Variable × Int64)) :
    Int :=
  match find key entries with
  | some value => weight key value
  | none => 0

theorem share_eq_zero {key : Variable} {entries : List (Variable × Int64)}
    (later : ∀ entry ∈ entries, key < entry.1) : share weight key entries = 0 := by
  simp [share, find_eq_none_of_lt later]

theorem weigh_place (key : Variable) (value : Int64) {entries : List (Variable × Int64)}
    (ascending : entries.Pairwise fun earlier later => earlier.1 < later.1) :
    weigh weight (place key value entries) =
      weigh weight entries + weight key value - share weight key entries := by
  induction entries with
  | nil => simp [place, share, find]
  | cons head rest ih =>
      obtain ⟨headFirst, restAscending⟩ := List.pairwise_cons.mp ascending
      simp only [place]
      split
      · rename_i before
        have unshared : share weight key (head :: rest) = 0 := by
          apply share_eq_zero
          intro entry member
          rcases List.mem_cons.mp member with same | inRest
          · exact same ▸ before
          · exact Variable.lt_trans before (headFirst entry inRest)
        simp only [weigh_cons, unshared]
        omega
      · split
        · rename_i after
          have apart : head.1 ≠ key := by
            intro same
            rw [same] at after
            exact Variable.lt_irrefl key after
          have sameShare : share weight key (head :: rest) = share weight key rest := by
            simp [share, find, apart]
          simp only [weigh_cons, ih restAscending, sameShare]
          omega
        · rename_i notBefore notAfter
          have same : key = head.1 := Variable.eq_of_not_lt notBefore notAfter
          have shared : share weight key (head :: rest) = weight head.1 head.2 := by
            simp [share, find, ← same]
          simp only [weigh_cons, shared]
          omega

theorem weigh_filter_ne (key : Variable) {entries : List (Variable × Int64)}
    (ascending : entries.Pairwise fun earlier later => earlier.1 < later.1) :
    weigh weight (entries.filter fun entry => entry.1 ≠ key) =
      weigh weight entries - share weight key entries := by
  induction entries with
  | nil => simp [share, find]
  | cons head rest ih =>
      obtain ⟨headFirst, restAscending⟩ := List.pairwise_cons.mp ascending
      by_cases same : head.1 = key
      · have shared : share weight key (head :: rest) = weight head.1 head.2 := by
          simp [share, find, same]
        have unshared : share weight key rest = 0 :=
          share_eq_zero fun entry member => same ▸ headFirst entry member
        have dropped : (head :: rest).filter (fun entry => decide (entry.1 ≠ key)) =
            rest.filter fun entry => decide (entry.1 ≠ key) := by
          simp [same]
        rw [dropped, ih restAscending, weigh_cons, shared, unshared]
        omega
      · have sameShare : share weight key (head :: rest) = share weight key rest := by
          simp [share, find, same]
        have kept : (head :: rest).filter (fun entry => decide (entry.1 ≠ key)) =
            head :: rest.filter fun entry => decide (entry.1 ≠ key) := by
          simp [same]
        rw [kept, weigh_cons, weigh_cons, ih restAscending, sameShare]
        omega

end VarMap

/-- The integers that an assignment stands for; what it leaves open counts as zero. -/
def Assignment.valuation (assignment : Assignment) (key : Variable) : Int :=
  match assignment.get? key with
  | some value => value.toInt
  | none => 0

theorem Assignment.valuation_of_get? {assignment : Assignment} {key : Variable} {value : Int64}
    (bound : assignment.get? key = some value) : assignment.valuation key = value.toInt := by
  simp [valuation, bound]

/-- A valuation gives every bound variable its value. -/
def Assignment.AgreesWith (assignment : Assignment) (valuation : Variable → Int) : Prop :=
  ∀ key value, assignment.get? key = some value → valuation key = value.toInt

theorem Assignment.agreesWith_valuation {small large : Assignment}
    (extension : large.Extends small) : small.AgreesWith large.valuation :=
  fun key value bound => valuation_of_get? (extension key value bound)

namespace Linear

/-- The coefficient of a variable, zero if none is stored. -/
def coefficient (sum : Linear) (var : Variable) : Int64 :=
  (sum.coefficients.get? var).getD 0

/-- No stored coefficient is zero. -/
def Sparse (sum : Linear) : Prop :=
  ∀ var, sum.coefficients.get? var ≠ some 0

/-- The exact value of a sum under a valuation of its variables. -/
def valueAt (valuation : Variable → Int) (sum : Linear) : Int :=
  sum.constant.toInt +
    VarMap.weigh (fun var coefficient => coefficient.toInt * valuation var) sum.coefficients.entries

@[simp]
theorem coefficient_ofConstant (value : Int64) (var : Variable) :
    (ofConstant value).coefficient var = 0 :=
  rfl

@[simp]
theorem valueAt_ofConstant (valuation : Variable → Int) (value : Int64) :
    (ofConstant value).valueAt valuation = value.toInt := by
  simp [valueAt, ofConstant]

theorem sparse_ofConstant (value : Int64) : (ofConstant value).Sparse := by
  intro var
  simp [ofConstant]

@[simp]
theorem constant_addTerm (sum : Linear) (var : Variable) (factor : Int64) :
    (sum.addTerm var factor).constant = sum.constant :=
  rfl

@[simp]
theorem coefficient_plusConstant (sum : Linear) (value : Int64) (var : Variable) :
    (sum.plusConstant value).coefficient var = sum.coefficient var :=
  rfl

@[simp]
theorem constant_plusConstant (sum : Linear) (value : Int64) :
    (sum.plusConstant value).constant = sum.constant + value :=
  rfl

@[simp]
theorem vars_plusConstant (sum : Linear) (value : Int64) :
    (sum.plusConstant value).vars = sum.vars :=
  rfl

theorem coefficient_addTerm (sum : Linear) (var other : Variable) (factor : Int64) :
    (sum.addTerm var factor).coefficient other =
      sum.coefficient other + if var = other then factor else 0 := by
  by_cases same : var = other
  · subst same
    simp only [addTerm, coefficient]
    split
    · rename_i vanishes
      simp [vanishes]
    · simp
  · simp only [addTerm, coefficient]
    split <;> simp [same]

theorem sparse_addTerm {sum : Linear} (sparse : sum.Sparse) (var : Variable) (factor : Int64) :
    (sum.addTerm var factor).Sparse := by
  intro other
  simp only [addTerm]
  split
  · rw [VarMap.get?_erase]
    split
    · simp
    · exact sparse other
  · rename_i remains
    rw [VarMap.get?_insert]
    split
    · simpa using remains
    · exact sparse other

/-- Two sums without stored zeros are equal if they have the same coefficients and constant. -/
theorem ext_coefficient {first second : Linear} (firstSparse : first.Sparse)
    (secondSparse : second.Sparse)
    (sameCoefficients : ∀ var, first.coefficient var = second.coefficient var)
    (sameConstant : first.constant = second.constant) : first = second := by
  have sameMap : first.coefficients = second.coefficients := by
    apply VarMap.ext_get?
    intro var
    have same := sameCoefficients var
    have firstNonzero := firstSparse var
    have secondNonzero := secondSparse var
    simp only [coefficient] at same
    cases firstFound : first.coefficients.get? var with
    | none =>
        cases secondFound : second.coefficients.get? var with
        | none => rfl
        | some value => simp_all
    | some value =>
        cases secondFound : second.coefficients.get? var with
        | none => simp_all
        | some other => simp_all
  cases first
  cases second
  simp_all

/-- A variable occurs in a sum without stored zeros exactly if its coefficient is not zero. -/
theorem mem_vars_iff {sum : Linear} (sparse : sum.Sparse) {var : Variable} :
    var ∈ sum.vars ↔ sum.coefficient var ≠ 0 := by
  rw [vars, VarMap.mem_keys_iff]
  have nonzero := sparse var
  cases found : sum.coefficients.get? var with
  | none => simp [coefficient, found]
  | some value => simp_all [coefficient]

theorem mem_vars_of_coefficient_ne_zero {sum : Linear} {var : Variable}
    (nonzero : sum.coefficient var ≠ 0) : var ∈ sum.vars := by
  rw [vars, VarMap.mem_keys_iff]
  cases found : sum.coefficients.get? var with
  | none => simp [coefficient, found] at nonzero
  | some value => exact ⟨value, rfl⟩

theorem mem_vars_addTerm {sum : Linear} {var other : Variable} {factor : Int64}
    (occurs : var ∈ (sum.addTerm other factor).vars) : var = other ∨ var ∈ sum.vars := by
  by_cases same : var = other
  · exact .inl same
  · right
    rw [vars, VarMap.mem_keys_iff] at occurs ⊢
    obtain ⟨value, found⟩ := occurs
    refine ⟨value, ?_⟩
    simp only [addTerm] at found
    split at found <;> simpa [Ne.symm same] using found

theorem mem_vars_plus {first second : Linear} {var : Variable}
    (occurs : var ∈ (first.plus second).vars) : var ∈ first.vars ∨ var ∈ second.vars := by
  have general (entries : List (Variable × Int64)) (start : Linear)
      (occurs : var ∈ (entries.foldl (fun sum entry => sum.addTerm entry.1 entry.2) start).vars) :
      var ∈ start.vars ∨ ∃ entry ∈ entries, var = entry.1 := by
    induction entries generalizing start with
    | nil => exact .inl occurs
    | cons entry rest ih =>
        rcases ih _ occurs with inStart | ⟨later, member, same⟩
        · rcases mem_vars_addTerm inStart with same | inSum
          · exact .inr ⟨entry, List.mem_cons_self, same⟩
          · exact .inl inSum
        · exact .inr ⟨later, List.mem_cons_of_mem _ member, same⟩
  rcases general _ _ occurs with inFirst | ⟨entry, member, rfl⟩
  · exact .inl inFirst
  · exact .inr (List.mem_map_of_mem member)

theorem mem_vars_scaled {sum : Linear} {factor : Int64} {var : Variable}
    (occurs : var ∈ (sum.scaled factor).vars) : var ∈ sum.vars := by
  simp only [scaled] at occurs
  split at occurs
  · simp [vars, ofConstant, VarMap.keys] at occurs
  · simpa [vars, VarMap.keys, VarMap.mapValues] using occurs

theorem mem_vars_minus {first second : Linear} {var : Variable}
    (occurs : var ∈ (first.minus second).vars) : var ∈ first.vars ∨ var ∈ second.vars :=
  (mem_vars_plus occurs).imp_right mem_vars_scaled

theorem valueAt_addTerm (valuation : Variable → Int) (sum : Linear) (var : Variable)
    (factor : Int64) :
    (sum.addTerm var factor).valueAt valuation =
      sum.valueAt valuation +
        ((sum.coefficient var + factor).toInt - (sum.coefficient var).toInt) * valuation var := by
  have shared : VarMap.share (fun var coefficient => coefficient.toInt * valuation var) var
      sum.coefficients.entries = (sum.coefficient var).toInt * valuation var := by
    simp only [VarMap.share, coefficient, VarMap.get?]
    cases VarMap.find var sum.coefficients.entries <;> simp
  simp only [addTerm]
  split
  · rename_i vanishes
    have vanishesToo : sum.coefficient var + factor = 0 := vanishes
    simp only [valueAt, VarMap.erase, VarMap.weigh_filter_ne _ sum.coefficients.ascending, shared,
      vanishesToo, Int64.toInt_zero]
    ring
  · simp only [valueAt, VarMap.insert, VarMap.weigh_place _ _ sum.coefficients.ascending, shared]
    simp only [coefficient]
    ring

theorem valueAt_plusConstant (valuation : Variable → Int) (sum : Linear) (value : Int64) :
    (sum.plusConstant value).valueAt valuation =
      sum.valueAt valuation + ((sum.constant + value).toInt - sum.constant.toInt) := by
  simp only [valueAt, plusConstant]
  ring

theorem valueAt_plusConstant_neg {valuation : Variable → Int} {sum : Linear} {value : Int64}
    (fits : FitsWord (sum.constant.toInt - value.toInt)) :
    (sum.plusConstant (-value)).valueAt valuation = sum.valueAt valuation - value.toInt := by
  have difference : (sum.constant + -value).toInt = sum.constant.toInt - value.toInt := by
    rw [← Int64.sub_eq_add_neg, toInt_sub_of_fitsWord fits]
  rw [valueAt_plusConstant, difference]
  ring

/-- Adding terms in ascending order changes each coefficient once. -/
theorem valueAt_foldl_addTerm (valuation : Variable → Int) {entries : List (Variable × Int64)}
    (ascending : entries.Pairwise fun earlier later => earlier.1 < later.1) (start : Linear) :
    (entries.foldl (fun sum entry => sum.addTerm entry.1 entry.2) start).valueAt valuation =
      start.valueAt valuation +
        VarMap.weigh (fun var factor =>
          ((start.coefficient var + factor).toInt - (start.coefficient var).toInt) *
            valuation var) entries := by
  induction entries generalizing start with
  | nil => simp
  | cons entry rest ih =>
      obtain ⟨headFirst, restAscending⟩ := List.pairwise_cons.mp ascending
      have unchanged : ∀ later ∈ rest,
          (start.addTerm entry.1 entry.2).coefficient later.1 = start.coefficient later.1 := by
        intro later member
        have apart : entry.1 ≠ later.1 := by
          intro same
          have before := headFirst later member
          rw [same] at before
          exact Variable.lt_irrefl _ before
        simp [coefficient_addTerm, apart]
      rw [List.foldl_cons, ih restAscending, valueAt_addTerm, VarMap.weigh_cons, add_assoc]
      congr 2
      apply VarMap.weigh_congr
      intro later member
      rw [unchanged later member]

theorem constant_foldl_addTerm (entries : List (Variable × Int64)) (start : Linear) :
    (entries.foldl (fun sum entry => sum.addTerm entry.1 entry.2) start).constant =
      start.constant := by
  induction entries generalizing start with
  | nil => rfl
  | cons entry rest ih => exact ih _

theorem constant_minus (first second : Linear) :
    (first.minus second).constant = first.constant - second.constant := by
  have scaledConstant : (second.scaled (-1)).constant = second.constant * -1 := rfl
  rw [minus, plus, constant_plusConstant, constant_foldl_addTerm, scaledConstant]
  grind

/-- Substituting nothing drops stored zeros only, so the exact value stays. -/
theorem valueAt_substitute_empty (valuation : Variable → Int) (sum : Linear) :
    (sum.substitute ∅).valueAt valuation = sum.valueAt valuation := by
  have asTerms : sum.substitute ∅ = sum.coefficients.entries.foldl
      (fun sum entry => sum.addTerm entry.1 entry.2) (ofConstant sum.constant) := rfl
  rw [asTerms, valueAt_foldl_addTerm _ sum.coefficients.ascending, valueAt_ofConstant, valueAt]
  simp

/-- A difference is exact if it is so for every coefficient that counts and for the constant. -/
theorem valueAt_minus {valuation : Variable → Int} {first second : Linear}
    (coefficientsFit : ∀ var, valuation var ≠ 0 →
      FitsWord ((first.coefficient var).toInt - (second.coefficient var).toInt))
    (constantFits : FitsWord (first.constant.toInt - second.constant.toInt)) :
    (first.minus second).valueAt valuation =
      first.valueAt valuation - second.valueAt valuation := by
  have scaledEntries : (second.scaled (-1)).coefficients.entries =
      second.coefficients.entries.map fun entry => (entry.1, entry.2 * -1) := rfl
  have difference (left right : Int64) : left + right * -1 = left - right := by grind
  have asTerms : (first.minus second).valueAt valuation =
      first.valueAt valuation + VarMap.weigh (fun var factor =>
        ((first.coefficient var + factor * -1).toInt - (first.coefficient var).toInt) *
          valuation var) second.coefficients.entries +
        ((first.minus second).constant.toInt - first.constant.toInt) := by
    rw [minus, plus, valueAt_plusConstant, constant_plusConstant, constant_foldl_addTerm,
      valueAt_foldl_addTerm _ (second.scaled (-1)).coefficients.ascending, scaledEntries,
      VarMap.weigh_map (· * -1)]
  have negated : VarMap.weigh (fun var factor =>
      ((first.coefficient var + factor * -1).toInt - (first.coefficient var).toInt) *
        valuation var) second.coefficients.entries =
      -VarMap.weigh (fun var factor => factor.toInt * valuation var)
        second.coefficients.entries := by
    rw [← VarMap.weigh_neg]
    apply VarMap.weigh_congr
    intro entry member
    have own : second.coefficient entry.1 = entry.2 := by
      simp [coefficient, VarMap.mem_entries_iff.mp member]
    by_cases vanishes : valuation entry.1 = 0
    · simp [vanishes]
    · have fits := coefficientsFit entry.1 vanishes
      rw [own] at fits
      rw [difference, toInt_sub_of_fitsWord fits]
      ring
  rw [asTerms, negated, constant_minus, toInt_sub_of_fitsWord constantFits]
  simp only [valueAt]
  ring

theorem valueAt_congr {first second : Variable → Int} {sum : Linear}
    (agree : ∀ var ∈ sum.vars, first var = second var) :
    sum.valueAt first = sum.valueAt second := by
  rw [valueAt, valueAt, VarMap.weigh_congr]
  intro entry member
  rw [agree entry.1 (List.mem_map_of_mem member)]

theorem ofInt_valueAt_addTerm (valuation : Variable → Int) (sum : Linear) (var : Variable)
    (factor : Int64) :
    Int64.ofInt ((sum.addTerm var factor).valueAt valuation) =
      Int64.ofInt (sum.valueAt valuation) + factor * Int64.ofInt (valuation var) := by
  rw [valueAt_addTerm]
  simp only [Int64.ofInt_add, Int64.ofInt_mul, Int64.ofInt_sub, Int64.ofInt_toInt]
  congr 2
  grind

theorem ofInt_valueAt_plusConstant (valuation : Variable → Int) (sum : Linear) (value : Int64) :
    Int64.ofInt ((sum.plusConstant value).valueAt valuation) =
      Int64.ofInt (sum.valueAt valuation) + value := by
  simp only [valueAt, plusConstant, Int64.ofInt_add, Int64.ofInt_toInt]
  grind

/-- Taking over a term adds its wrapped value, whether the variable is bound or not. -/
theorem ofInt_valueAt_absorb {assignment : Assignment} {valuation : Variable → Int}
    (agrees : assignment.AgreesWith valuation) (sum : Linear) (entry : Variable × Int64) :
    Int64.ofInt ((absorb assignment sum entry).valueAt valuation) =
      Int64.ofInt (sum.valueAt valuation) + entry.2 * Int64.ofInt (valuation entry.1) := by
  simp only [absorb]
  split
  · rename_i value bound
    rw [ofInt_valueAt_plusConstant, agrees _ _ bound, Int64.ofInt_toInt]
  · exact ofInt_valueAt_addTerm valuation sum entry.1 entry.2

theorem ofInt_valueAt_foldl_absorb {assignment : Assignment} {valuation : Variable → Int}
    (agrees : assignment.AgreesWith valuation) (entries : List (Variable × Int64))
    (start : Linear) :
    Int64.ofInt ((entries.foldl (absorb assignment) start).valueAt valuation) =
      Int64.ofInt (start.valueAt valuation) +
        Int64.ofInt (VarMap.weigh (fun var coefficient => coefficient.toInt * valuation var)
          entries) := by
  induction entries generalizing start with
  | nil => simp
  | cons entry rest ih =>
      rw [List.foldl_cons, ih, ofInt_valueAt_absorb agrees, VarMap.weigh_cons, Int64.ofInt_add,
        Int64.ofInt_mul, Int64.ofInt_toInt, Int64.add_assoc]

/-- Substitution keeps the wrapped value under every valuation that agrees with it. -/
theorem ofInt_valueAt_substitute {assignment : Assignment} {valuation : Variable → Int}
    (agrees : assignment.AgreesWith valuation) (sum : Linear) :
    Int64.ofInt ((sum.substitute assignment).valueAt valuation) =
      Int64.ofInt (sum.valueAt valuation) := by
  rw [substitute, ofInt_valueAt_foldl_absorb agrees, valueAt_ofConstant, ← Int64.ofInt_add]
  rfl

/-- What substitution computes is the exact value, reduced to 64 bits. -/
theorem constant_substitute (sum : Linear) (assignment : Assignment) :
    (sum.substitute assignment).constant = Int64.ofInt (sum.valueAt assignment.valuation) := by
  have absorbed (start : Linear) (entry : Variable × Int64) :
      (absorb assignment start entry).constant =
        start.constant + entry.2 * Int64.ofInt (assignment.valuation entry.1) := by
    simp only [absorb, Assignment.valuation]
    cases assignment.get? entry.1 <;> simp
  have general (entries : List (Variable × Int64)) (start : Linear) :
      (entries.foldl (absorb assignment) start).constant =
        start.constant +
          Int64.ofInt (VarMap.weigh
            (fun var coefficient => coefficient.toInt * assignment.valuation var) entries) := by
    induction entries generalizing start with
    | nil => simp
    | cons entry rest ih =>
        rw [List.foldl_cons, ih, absorbed, VarMap.weigh_cons, Int64.ofInt_add, Int64.ofInt_mul,
          Int64.ofInt_toInt, Int64.add_assoc]
  rw [substitute, general, valueAt, Int64.ofInt_add, Int64.ofInt_toInt]
  rfl

theorem sparse_substitute (sum : Linear) (assignment : Assignment) :
    (sum.substitute assignment).Sparse := by
  have general (entries : List (Variable × Int64)) (start : Linear) (sparse : start.Sparse) :
      (entries.foldl (absorb assignment) start).Sparse := by
    induction entries generalizing start with
    | nil => exact sparse
    | cons entry rest ih =>
        apply ih
        simp only [absorb]
        split
        · exact sparse
        · exact sparse_addTerm sparse entry.1 entry.2
  exact general _ _ (sparse_ofConstant _)

/-- Taking terms over in ascending order adds to each coefficient once. -/
theorem coefficient_foldl_absorb (assignment : Assignment) (var : Variable)
    {entries : List (Variable × Int64)}
    (ascending : entries.Pairwise fun earlier later => earlier.1 < later.1) (start : Linear) :
    (entries.foldl (absorb assignment) start).coefficient var =
      start.coefficient var +
        if (assignment.get? var).isSome then 0 else (VarMap.find var entries).getD 0 := by
  induction entries generalizing start with
  | nil => simp [VarMap.find]
  | cons entry rest ih =>
      obtain ⟨headFirst, restAscending⟩ := List.pairwise_cons.mp ascending
      rw [List.foldl_cons, ih restAscending]
      by_cases same : entry.1 = var
      · have absent : VarMap.find var rest = none :=
          VarMap.find_eq_none_of_lt fun later member => same ▸ headFirst later member
        simp only [absorb, same]
        cases bound : assignment.get? var with
        | some value => simp
        | none => simp [coefficient_addTerm, VarMap.find, same, absent]
      · have step : (absorb assignment start entry).coefficient var = start.coefficient var := by
          simp only [absorb]
          split
          · rfl
          · simp [coefficient_addTerm, same]
        rw [step]
        simp [VarMap.find, same]

/-- Substitution removes the bound variables and keeps the coefficients of the others. -/
theorem coefficient_substitute (sum : Linear) (assignment : Assignment) (var : Variable) :
    (sum.substitute assignment).coefficient var =
      if (assignment.get? var).isSome then 0 else sum.coefficient var := by
  rw [substitute, coefficient_foldl_absorb _ _ sum.coefficients.ascending, coefficient_ofConstant,
    Int64.zero_add]
  rfl

theorem mem_vars_substitute {sum : Linear} {assignment : Assignment} {var : Variable} :
    var ∈ (sum.substitute assignment).vars ↔
      assignment.get? var = none ∧ sum.coefficient var ≠ 0 := by
  rw [mem_vars_iff (sum.sparse_substitute assignment), coefficient_substitute]
  cases assignment.get? var <;> simp

/-- Substituting in two stages is the same as substituting at once. -/
theorem substitute_substitute (sum : Linear) {small large : Assignment}
    (extension : large.Extends small) :
    (sum.substitute small).substitute large = sum.substitute large := by
  apply ext_coefficient (sparse_substitute _ _) (sparse_substitute _ _)
  · intro var
    rw [coefficient_substitute, coefficient_substitute, coefficient_substitute]
    cases bound : large.get? var with
    | some value => simp
    | none => simp [extension.get?_eq_none bound]
  · rw [constant_substitute, constant_substitute,
      ofInt_valueAt_substitute (Assignment.agreesWith_valuation extension)]

theorem isConstant_iff {sum : Linear} : sum.isConstant = true ↔ sum.vars = [] := by
  simp [isConstant, VarMap.isEmpty, vars, VarMap.keys]

theorem substitute_of_isConstant {sum : Linear} (decided : sum.isConstant = true)
    (assignment : Assignment) : sum.substitute assignment = sum := by
  have noEntries : sum.coefficients.entries = [] := by
    simpa [isConstant, VarMap.isEmpty] using decided
  obtain ⟨coefficients, constant⟩ := sum
  have isEmpty : coefficients = ∅ := VarMap.ext noEntries
  subst isEmpty
  rfl

/-- A sum is decided once every variable that counts is bound. -/
theorem isConstant_substitute {sum : Linear} {assignment : Assignment} :
    (sum.substitute assignment).isConstant = true ↔
      ∀ var, sum.coefficient var ≠ 0 → ∃ value, assignment.get? var = some value := by
  rw [isConstant_iff, List.eq_nil_iff_forall_not_mem]
  apply forall_congr'
  intro var
  rw [mem_vars_substitute]
  cases assignment.get? var <;> simp

theorem isConstant_of_binds {sum : Linear} {assignment : Assignment}
    (binds : assignment.Binds sum.vars) : (sum.substitute assignment).isConstant = true := by
  apply isConstant_substitute.mpr
  intro var nonzero
  exact binds var (mem_vars_of_coefficient_ne_zero nonzero)

end Linear

end Concolic
