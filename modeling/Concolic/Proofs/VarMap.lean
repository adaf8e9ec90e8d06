import Mathlib
import Concolic.VarMap

/-!
# Looking up in finite maps

A map is stored as an ascending list of entries, but every argument about substitution is about
what a key is bound to. The lemmas here say what each operation does to `get?`, and that a map is
determined by its lookups (`VarMap.ext_get?`). The order of the entries plays no role afterwards.
-/

namespace Concolic.VarMap

variable {α β : Type}

theorem find_of_mem {entries : List (Variable × α)} {key : Variable} {value : α}
    (ascending : entries.Pairwise fun earlier later => earlier.1 < later.1)
    (member : (key, value) ∈ entries) : find key entries = some value := by
  induction entries with
  | nil => simp at member
  | cons head rest ih =>
      obtain ⟨headFirst, restAscending⟩ := List.pairwise_cons.mp ascending
      rcases List.mem_cons.mp member with same | inRest
      · simp [find, ← same]
      · have apart : head.1 ≠ key := by
          intro same
          have before := headFirst _ inRest
          rw [same] at before
          exact Variable.lt_irrefl key before
        simp [find, apart, ih restAscending inRest]

theorem mem_of_find {entries : List (Variable × α)} {key : Variable} {value : α}
    (found : find key entries = some value) : (key, value) ∈ entries := by
  induction entries with
  | nil => simp [find] at found
  | cons head rest ih =>
      simp only [find] at found
      split at found
      · rename_i same
        cases found
        exact same ▸ List.mem_cons_self
      · exact List.mem_cons_of_mem _ (ih found)

theorem find_eq_none_of_lt {entries : List (Variable × α)} {key : Variable}
    (later : ∀ entry ∈ entries, key < entry.1) : find key entries = none := by
  by_contra present
  obtain ⟨value, found⟩ := Option.ne_none_iff_exists'.mp present
  exact Variable.lt_irrefl key (later _ (mem_of_find found))

theorem mem_entries_iff {map : VarMap α} {key : Variable} {value : α} :
    (key, value) ∈ map.entries ↔ map.get? key = some value :=
  ⟨find_of_mem map.ascending, mem_of_find⟩

theorem mem_keys_iff {map : VarMap α} {key : Variable} :
    key ∈ map.keys ↔ ∃ value, map.get? key = some value := by
  simp [keys, ← mem_entries_iff]

/-- Two ascending lists with the same members are the same list: both start with the member that
comes before all others. -/
theorem entries_eq_of_mem_iff {first second : List (Variable × α)}
    (firstAscending : first.Pairwise fun earlier later => earlier.1 < later.1)
    (secondAscending : second.Pairwise fun earlier later => earlier.1 < later.1)
    (same : ∀ entry, entry ∈ first ↔ entry ∈ second) : first = second := by
  induction first generalizing second with
  | nil =>
      cases second with
      | nil => rfl
      | cons head rest => simpa using (same head).mpr List.mem_cons_self
  | cons head rest ih =>
      cases second with
      | nil => simpa using (same head).mp List.mem_cons_self
      | cons other others =>
          obtain ⟨headFirst, restAscending⟩ := List.pairwise_cons.mp firstAscending
          obtain ⟨otherFirst, othersAscending⟩ := List.pairwise_cons.mp secondAscending
          have sameHead : head = other := by
            rcases List.mem_cons.mp ((same head).mp List.mem_cons_self) with equal | inOthers
            · exact equal
            · rcases List.mem_cons.mp ((same other).mpr List.mem_cons_self) with equal | inRest
              · exact equal.symm
              · exact absurd (Variable.lt_trans (otherFirst _ inOthers) (headFirst _ inRest))
                  (Variable.lt_irrefl _)
          subst sameHead
          congr 1
          apply ih restAscending othersAscending
          intro entry
          constructor
          · intro inRest
            rcases List.mem_cons.mp ((same entry).mp (List.mem_cons_of_mem _ inRest)) with
              equal | inOthers
            · exact absurd (equal ▸ headFirst _ inRest) (Variable.lt_irrefl _)
            · exact inOthers
          · intro inOthers
            rcases List.mem_cons.mp ((same entry).mpr (List.mem_cons_of_mem _ inOthers)) with
              equal | inRest
            · exact absurd (equal ▸ otherFirst _ inOthers) (Variable.lt_irrefl _)
            · exact inRest

/-- A map is determined by what its keys are bound to. -/
theorem ext_get? {first second : VarMap α} (same : ∀ key, first.get? key = second.get? key) :
    first = second := by
  apply VarMap.ext
  apply entries_eq_of_mem_iff first.ascending second.ascending
  rintro ⟨key, value⟩
  rw [mem_entries_iff, mem_entries_iff, same]

@[simp]
theorem get?_empty (key : Variable) : (∅ : VarMap α).get? key = none :=
  rfl

@[simp]
theorem entries_empty : (∅ : VarMap α).entries = [] :=
  rfl

theorem find_place (key other : Variable) (value : α) (entries : List (Variable × α)) :
    find other (place key value entries) = if key = other then some value else find other entries := by
  induction entries with
  | nil => simp [place, find]
  | cons head rest ih =>
      simp only [place]
      split
      · simp [find]
      · split
        · rename_i after
          simp only [find, ih]
          by_cases isHead : head.1 = other
          · have apart : key ≠ other := by
              intro same
              rw [isHead, same] at after
              exact Variable.lt_irrefl other after
            simp [isHead, apart]
          · simp [isHead]
        · rename_i notBefore notAfter
          have same : key = head.1 := Variable.eq_of_not_lt notBefore notAfter
          by_cases isKey : key = other
          · simp [find, isKey]
          · simp [find, isKey, ← same]

@[simp]
theorem get?_insert (map : VarMap α) (key other : Variable) (value : α) :
    (map.insert key value).get? other = if key = other then some value else map.get? other :=
  find_place key other value map.entries

theorem find_filter_ne (key other : Variable) (entries : List (Variable × α)) :
    find other (entries.filter fun entry => entry.1 ≠ key) =
      if key = other then none else find other entries := by
  induction entries with
  | nil => simp [find]
  | cons head rest ih =>
      simp only [List.filter_cons]
      by_cases isKey : head.1 = key
      · by_cases isOther : key = other
        · simpa [isKey, isOther] using ih
        · simpa [isKey, isOther, find] using ih
      · by_cases isOther : key = other
        · have apart : head.1 ≠ other := fun same => isKey (same.trans isOther.symm)
          simpa [isKey, isOther, find, apart] using ih
        · by_cases found : head.1 = other
          · have kept : decide (head.1 ≠ key) = true := decide_eq_true isKey
            rw [if_pos kept]
            simp [isOther, find, found]
          · simpa [isKey, isOther, find, found] using ih

@[simp]
theorem get?_erase (map : VarMap α) (key other : Variable) :
    (map.erase key).get? other = if key = other then none else map.get? other :=
  find_filter_ne key other map.entries

@[simp]
theorem get?_mapValues (change : α → β) (map : VarMap α) (key : Variable) :
    (map.mapValues change).get? key = (map.get? key).map change := by
  have general (entries : List (Variable × α)) :
      find key (entries.map fun entry => (entry.1, change entry.2)) =
        (find key entries).map change := by
    induction entries with
    | nil => rfl
    | cons head rest ih =>
        by_cases found : head.1 = key
        · simp [find, found]
        · simpa [find, found] using ih
  exact general map.entries

/-- An entry is only added where the key has none. The list must be ascending, since the search
stops at the first later key. -/
theorem find_placeNew (key other : Variable) (value : α) {entries : List (Variable × α)}
    (ascending : entries.Pairwise fun earlier later => earlier.1 < later.1) :
    find other (placeNew key value entries) =
      (find other entries).or (if key = other then some value else none) := by
  induction entries with
  | nil => simp [placeNew, find]
  | cons head rest ih =>
      obtain ⟨headFirst, restAscending⟩ := List.pairwise_cons.mp ascending
      simp only [placeNew]
      split
      · rename_i before
        by_cases isKey : key = other
        · have absent : find other (head :: rest) = none := by
            subst isKey
            apply find_eq_none_of_lt
            intro entry member
            rcases List.mem_cons.mp member with same | inRest
            · exact same ▸ before
            · exact Variable.lt_trans before (headFirst entry inRest)
          rw [absent]
          simp [find, isKey]
        · simp [find, isKey]
      · split
        · by_cases isHead : head.1 = other
          · simp [find, isHead]
          · simp [find, isHead, ih restAscending]
        · rename_i notBefore notAfter
          have same : key = head.1 := Variable.eq_of_not_lt notBefore notAfter
          by_cases isKey : key = other
          · simp [find, ← same, isKey]
          · simp [isKey]

theorem get?_insertNew (map : VarMap α) (key other : Variable) (value : α) :
    (map.insertNew key value).get? other =
      (map.get? other).or (if key = other then some value else none) :=
  find_placeNew key other value map.ascending

@[simp]
theorem get?_ofList_nil (key : Variable) : (ofList ([] : List (Variable × α))).get? key = none :=
  rfl

@[simp]
theorem get?_ofList_cons (entry : Variable × α) (rest : List (Variable × α)) (key : Variable) :
    (ofList (entry :: rest)).get? key =
      ((ofList rest).get? key).or (if entry.1 = key then some entry.2 else none) :=
  get?_insertNew _ _ _ _

theorem get?_ofList_append (first second : List (Variable × α)) (key : Variable) :
    (ofList (first ++ second)).get? key =
      ((ofList second).get? key).or ((ofList first).get? key) := by
  induction first with
  | nil => simp
  | cons entry rest ih => simp [ih, Option.or_assoc]

theorem mem_of_get?_ofList {entries : List (Variable × α)} {key : Variable} {value : α}
    (found : (ofList entries).get? key = some value) : (key, value) ∈ entries := by
  induction entries with
  | nil => simp at found
  | cons entry rest ih =>
      rw [get?_ofList_cons, Option.or_eq_some_iff] at found
      rcases found with later | ⟨_, here⟩
      · exact List.mem_cons_of_mem _ (ih later)
      · split at here
        · rename_i same
          cases here
          exact same ▸ List.mem_cons_self
        · simp at here

/-- Where no key is repeated, every entry can be looked up. -/
theorem get?_ofList_of_mem {entries : List (Variable × α)} {key : Variable} {value : α}
    (distinct : (entries.map Prod.fst).Nodup) (member : (key, value) ∈ entries) :
    (ofList entries).get? key = some value := by
  induction entries with
  | nil => simp at member
  | cons entry rest ih =>
      obtain ⟨fresh, restDistinct⟩ := List.nodup_cons.mp distinct
      rw [get?_ofList_cons]
      rcases List.mem_cons.mp member with same | inRest
      · have absent : (ofList rest).get? key = none := by
          by_contra present
          obtain ⟨found, foundEq⟩ := Option.ne_none_iff_exists'.mp present
          apply fresh
          rw [← same]
          exact List.mem_map.mpr ⟨_, mem_of_get?_ofList foundEq, rfl⟩
        simp [absent, ← same]
      · simp [ih restDistinct inRest]

theorem mem_keys_ofList {entries : List (Variable × α)} {key : Variable} :
    key ∈ (ofList entries).keys ↔ key ∈ entries.map Prod.fst := by
  rw [mem_keys_iff]
  induction entries with
  | nil => simp
  | cons entry rest ih =>
      simp only [get?_ofList_cons, List.map_cons, List.mem_cons, ← ih]
      by_cases same : entry.1 = key
      · cases later : (ofList rest).get? key with
        | none => simp [same]
        | some value => simp
      · simp [same, Ne.symm same]

end Concolic.VarMap

namespace Concolic

@[simp]
theorem VarSet.mem_keys_ofList {vars : List Variable} {key : Variable} :
    key ∈ (VarSet.ofList vars).keys ↔ key ∈ vars := by
  simp [VarSet.ofList, VarMap.mem_keys_ofList]

namespace Assignment

/-- The second assignment binds whatever the first one binds, to the same value. -/
def Extends (larger smaller : Assignment) : Prop :=
  ∀ key value, smaller.get? key = some value → larger.get? key = some value

theorem extends_empty (assignment : Assignment) : assignment.Extends ∅ := by
  intro key value bound
  simp at bound

theorem Extends.refl (assignment : Assignment) : assignment.Extends assignment :=
  fun _ _ bound => bound

/-- A key that the larger assignment leaves open is open in the smaller one. -/
theorem Extends.get?_eq_none {larger smaller : Assignment} (extension : larger.Extends smaller)
    {key : Variable} (unbound : larger.get? key = none) : smaller.get? key = none := by
  cases bound : smaller.get? key with
  | none => rfl
  | some value => simp [extension key value bound] at unbound

/-- Every variable of a list has a value. -/
def Binds (assignment : Assignment) (vars : List Variable) : Prop :=
  ∀ var ∈ vars, ∃ value, assignment.get? var = some value

instance (assignment : Assignment) (vars : List Variable) : Decidable (assignment.Binds vars) :=
  decidable_of_iff (∀ var ∈ vars, (assignment.get? var).isSome = true) (by
    simp only [Binds, Option.isSome_iff_exists])

end Assignment

end Concolic
