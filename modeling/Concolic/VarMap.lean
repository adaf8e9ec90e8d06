import Concolic.Variable

/-!
# Finite maps from variables

Coefficients of linear sums, solutions and sets of declared variables are all finite maps whose
keys are variables and whose order is visible in printed text. A map is its list of entries in
strictly ascending order of keys. The order is part of the type, so two maps are equal exactly when
they hold the same entries.
-/

namespace Concolic

/-- A finite map from variables, as its entries in ascending order. -/
structure VarMap (α : Type) where
  /-- The entries, one for each key. -/
  entries : List (Variable × α)
  /-- Keys ascend strictly. -/
  ascending : entries.Pairwise fun earlier later => earlier.1 < later.1

namespace VarMap

variable {α β : Type}

@[ext]
theorem ext {first second : VarMap α} (same : first.entries = second.entries) : first = second := by
  cases first
  cases second
  cases same
  rfl

instance [DecidableEq α] : DecidableEq (VarMap α) := fun first second =>
  if same : first.entries = second.entries then
    isTrue (VarMap.ext same)
  else
    isFalse fun equal => same (congrArg entries equal)

def empty : VarMap α where
  entries := []
  ascending := .nil

instance : EmptyCollection (VarMap α) where
  emptyCollection := empty

instance : Inhabited (VarMap α) where
  default := empty

def find (key : Variable) : List (Variable × α) → Option α
  | [] => none
  | (other, value) :: rest => if other = key then some value else find key rest

def get? (map : VarMap α) (key : Variable) : Option α :=
  find key map.entries

def contains (map : VarMap α) (key : Variable) : Bool :=
  (map.get? key).isSome

/-- Puts an entry in its place, replacing an entry of the same key. -/
def place (key : Variable) (value : α) : List (Variable × α) → List (Variable × α)
  | [] => [(key, value)]
  | (other, kept) :: rest =>
      if key < other then (key, value) :: (other, kept) :: rest
      else if other < key then (other, kept) :: place key value rest
      else (key, value) :: rest

theorem mem_place {key : Variable} {value : α} {entry : Variable × α}
    {entries : List (Variable × α)} (member : entry ∈ place key value entries) :
    entry = (key, value) ∨ entry ∈ entries := by
  induction entries with
  | nil => simpa [place] using member
  | cons head rest ih =>
      simp only [place] at member
      split at member
      · simpa using member
      · split at member
        · rcases List.mem_cons.mp member with same | inRest
          · exact .inr (same ▸ List.mem_cons_self)
          · exact (ih inRest).imp_right (List.mem_cons_of_mem _)
        · rcases List.mem_cons.mp member with same | inRest
          · exact .inl same
          · exact .inr (List.mem_cons_of_mem _ inRest)

theorem ascending_place (key : Variable) (value : α) {entries : List (Variable × α)}
    (ascending : entries.Pairwise fun earlier later => earlier.1 < later.1) :
    (place key value entries).Pairwise fun earlier later => earlier.1 < later.1 := by
  induction entries with
  | nil => simp [place]
  | cons head rest ih =>
      obtain ⟨headFirst, restAscending⟩ := List.pairwise_cons.mp ascending
      simp only [place]
      split
      · rename_i before
        refine List.pairwise_cons.mpr ⟨fun entry member => ?_, ascending⟩
        rcases List.mem_cons.mp member with same | inRest
        · exact same ▸ before
        · exact Variable.lt_trans before (headFirst entry inRest)
      · split
        · rename_i after
          refine List.pairwise_cons.mpr ⟨fun entry member => ?_, ih restAscending⟩
          rcases mem_place member with same | inRest
          · exact same ▸ after
          · exact headFirst entry inRest
        · rename_i notBefore notAfter
          have same : key = head.1 := Variable.eq_of_not_lt notBefore notAfter
          exact List.pairwise_cons.mpr ⟨fun entry member => same ▸ headFirst entry member,
            restAscending⟩

def insert (map : VarMap α) (key : Variable) (value : α) : VarMap α where
  entries := place key value map.entries
  ascending := ascending_place key value map.ascending

def erase (map : VarMap α) (key : Variable) : VarMap α where
  entries := map.entries.filter fun entry => entry.1 ≠ key
  ascending := map.ascending.filter _

def mapValues (change : α → β) (map : VarMap α) : VarMap β where
  entries := map.entries.map fun entry => (entry.1, change entry.2)
  ascending := List.pairwise_map.mpr map.ascending

/-- Lays the entries of a second map over those of the first. -/
def union (base upper : VarMap α) : VarMap α :=
  upper.entries.foldl (fun map entry => map.insert entry.1 entry.2) base

/-- Puts an entry in its place, unless its key has one already. -/
def placeNew (key : Variable) (value : α) : List (Variable × α) → List (Variable × α)
  | [] => [(key, value)]
  | (other, kept) :: rest =>
      if key < other then (key, value) :: (other, kept) :: rest
      else if other < key then (other, kept) :: placeNew key value rest
      else (other, kept) :: rest

theorem mem_placeNew {key : Variable} {value : α} {entry : Variable × α}
    {entries : List (Variable × α)} (member : entry ∈ placeNew key value entries) :
    entry = (key, value) ∨ entry ∈ entries := by
  induction entries with
  | nil => simpa [placeNew] using member
  | cons head rest ih =>
      simp only [placeNew] at member
      split at member
      · simpa using member
      · split at member
        · rcases List.mem_cons.mp member with same | inRest
          · exact .inr (same ▸ List.mem_cons_self)
          · exact (ih inRest).imp_right (List.mem_cons_of_mem _)
        · exact .inr member

theorem ascending_placeNew (key : Variable) (value : α) {entries : List (Variable × α)}
    (ascending : entries.Pairwise fun earlier later => earlier.1 < later.1) :
    (placeNew key value entries).Pairwise fun earlier later => earlier.1 < later.1 := by
  induction entries with
  | nil => simp [placeNew]
  | cons head rest ih =>
      obtain ⟨headFirst, restAscending⟩ := List.pairwise_cons.mp ascending
      simp only [placeNew]
      split
      · rename_i before
        refine List.pairwise_cons.mpr ⟨fun entry member => ?_, ascending⟩
        rcases List.mem_cons.mp member with same | inRest
        · exact same ▸ before
        · exact Variable.lt_trans before (headFirst entry inRest)
      · split
        · rename_i after
          refine List.pairwise_cons.mpr ⟨fun entry member => ?_, ih restAscending⟩
          rcases mem_placeNew member with same | inRest
          · exact same ▸ after
          · exact headFirst entry inRest
        · exact ascending

/-- Sets the value of a key that has none yet. -/
def insertNew (map : VarMap α) (key : Variable) (value : α) : VarMap α where
  entries := placeNew key value map.entries
  ascending := ascending_placeNew key value map.ascending

/-- The map with the given entries, of which a later one replaces an earlier one. Entries are taken
from the last one on, so that a list in ascending order is never searched. -/
def ofList (entries : List (Variable × α)) : VarMap α :=
  entries.foldr (fun entry map => map.insertNew entry.1 entry.2) empty

/-- The keys in ascending order. -/
def keys (map : VarMap α) : List Variable :=
  map.entries.map Prod.fst

def size (map : VarMap α) : Nat :=
  map.entries.length

def isEmpty (map : VarMap α) : Bool :=
  map.entries.isEmpty

end VarMap

/-- A finite set of variables. -/
abbrev VarSet := VarMap Unit

namespace VarSet

def ofList (vars : List Variable) : VarSet :=
  VarMap.ofList (vars.map fun var => (var, ()))

end VarSet

/-- Values for some of the variables. -/
abbrev Assignment := VarMap Int64

namespace Assignment

/-- The value of a whole input or length. -/
def int? (assignment : Assignment) (id : UInt32) : Option Int64 :=
  assignment.get? (.int id)

/-- The code of one character of a string input. -/
def char? (assignment : Assignment) (symbol index : UInt32) : Option Int64 :=
  assignment.get? (.char symbol index)

end Assignment

end Concolic
