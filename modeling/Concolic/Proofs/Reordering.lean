import Mathlib
import Concolic.Json.Decode
import Concolic.Json.Tree
import Concolic.Proofs.Json

/-!
# Values up to the order of members

A value is written with the members of its objects in a fixed order, and a tree keeps them in the
order of their names. Readers look fields up by name, so they find the same in both. `Reordered`
relates two values that differ in this order only, and `Restores` says of a reader that it finds
something in every such value.

A stored form is `Exact` if its numbers are integers of 64 bits and no object has a name twice. Then
nothing of it is lost in its tree or, if it is not nested too deeply, in its text (`Exact.readBack`).
-/

namespace Concolic.Json

mutual

/-- The number of arrays and objects inside one another. -/
def depth : Json → Nat
  | .array items => itemsDepth items + 1
  | .object members => membersDepth members + 1
  | _ => 0

/-- The greatest depth of an item. -/
def itemsDepth : List Json → Nat
  | [] => 0
  | item :: rest => max item.depth (itemsDepth rest)

/-- The greatest depth of the value of a member. -/
def membersDepth : List (String × Json) → Nat
  | [] => 0
  | (_, value) :: rest => max value.depth (membersDepth rest)

end

theorem depth_le_itemsDepth {items : List Json} {item : Json} (isItem : item ∈ items) :
    item.depth ≤ itemsDepth items := by
  induction items with
  | nil => cases isItem
  | cons first rest ih =>
      rw [itemsDepth]
      rcases List.mem_cons.mp isItem with rfl | isLater
      · exact Nat.le_max_left _ _
      · exact (ih isLater).trans (Nat.le_max_right _ _)

theorem depth_le_membersDepth {members : List (String × Json)} {member : String × Json}
    (isMember : member ∈ members) : member.2.depth ≤ membersDepth members := by
  induction members with
  | nil => cases isMember
  | cons first rest ih =>
      rw [membersDepth]
      rcases List.mem_cons.mp isMember with rfl | isLater
      · exact Nat.le_max_left _ _
      · exact (ih isLater).trans (Nat.le_max_right _ _)

/-! ### Values without loss -/

/-- Integers fit into 64 bits, no name is given twice, and there are no other numbers. -/
inductive Exact : Json → Prop where
  | null : Exact .null
  | bool {value : Bool} : Exact (.bool value)
  | integer {value : Int} (fits : Fits value) : Exact (.number (.integer value))
  | string {text : String} : Exact (.string text)
  | array {items : List Json} (each : ∀ item ∈ items, Exact item) : Exact (.array items)
  | object {members : List (String × Json)} (distinct : (members.map Prod.fst).Nodup)
      (each : ∀ member ∈ members, Exact member.2) : Exact (.object members)

namespace Exact

theorem printable {value : Json} (exact : Exact value) {room : Nat} (shallow : value.depth ≤ room) :
    Printable room value := by
  induction exact generalizing room with
  | null => exact .null
  | bool => exact .bool
  | integer fits => exact .integer fits
  | string => exact .string
  | array each ih =>
      rw [depth] at shallow
      rcases room with _ | room
      · omega
      · apply Printable.array
        intro item isItem
        have := depth_le_itemsDepth isItem
        exact ih item isItem (by omega)
  | object distinct each ih =>
      rw [depth] at shallow
      rcases room with _ | room
      · omega
      · apply Printable.object
        intro member isMember
        have := depth_le_membersDepth isMember
        exact ih member isMember (by omega)

theorem isReadable {value : Json} (exact : Exact value) : value.isReadable = true := by
  have items {items : List Json} (each : ∀ item ∈ items, item.isReadable = true) :
      areReadable items = true := by
    induction items with
    | nil => rfl
    | cons item rest ih =>
        rw [areReadable, each item List.mem_cons_self,
          ih fun other isOther => each other (List.mem_cons_of_mem _ isOther)]
        rfl
  have members {members : List (String × Json)}
      (each : ∀ member ∈ members, member.2.isReadable = true) : haveReadable members = true := by
    induction members with
    | nil => rfl
    | cons member rest ih =>
        rw [haveReadable, each member List.mem_cons_self,
          ih fun other isOther => each other (List.mem_cons_of_mem _ isOther)]
        rfl
  induction exact with
  | null | bool | integer | string => rfl
  | array each ih => exact items ih
  | object distinct each ih => exact members ih

end Exact

/-! ### The order of members -/

/-- Two values differ at most in the order in which the members of objects are given. -/
inductive Reordered : Json → Json → Prop where
  | refl (value : Json) : Reordered value value
  | array {items others : List Json} (each : List.Forall₂ Reordered items others) :
      Reordered (.array items) (.array others)
  | object {members order others : List (String × Json)}
      (names : members.map Prod.fst = order.map Prod.fst)
      (each : List.Forall₂ Reordered (members.map Prod.snd) (order.map Prod.snd))
      (permuted : order.Perm others) : Reordered (.object members) (.object others)

theorem membersNamed_of_mem {members : List (String × Json)} {member : String × Json}
    (distinct : (members.map Prod.fst).Nodup) (isMember : member ∈ members) :
    membersNamed member.1 members = [member.2] := by
  have absent {rest : List (String × Json)} (fresh : member.1 ∉ rest.map Prod.fst) :
      membersNamed member.1 rest = [] := by
    apply List.filterMap_eq_nil_iff.mpr
    intro other isOther
    apply if_neg
    intro same
    exact fresh (same ▸ List.mem_map_of_mem isOther)
  induction members with
  | nil => cases isMember
  | cons first rest ih =>
      rcases List.nodup_cons.mp distinct with ⟨fresh, restDistinct⟩
      rcases List.mem_cons.mp isMember with rfl | isLater
      · rw [membersNamed, List.filterMap_cons]
        simp only [if_true]
        exact congrArg (member.2 :: ·) (absent fresh)
      · have apart : first.1 ≠ member.1 := by
          intro same
          exact fresh (same ▸ List.mem_map_of_mem isLater)
        rw [membersNamed, List.filterMap_cons]
        simp only [if_neg apart]
        exact ih restDistinct isLater

namespace Reordered

variable {stored value : Json}

theorem items {stored : List Json} (reordered : Reordered (.array stored) value) :
    ∃ others, value = .array others ∧ List.Forall₂ Reordered stored others := by
  cases reordered with
  | refl => exact ⟨stored, rfl, List.forall₂_same.mpr fun item _ => .refl item⟩
  | array each => exact ⟨_, rfl, each⟩

theorem members {stored : List (String × Json)} (reordered : Reordered (.object stored) value) :
    ∃ order others : List (String × Json), value = .object others ∧
      stored.map Prod.fst = order.map Prod.fst ∧
      List.Forall₂ Reordered (stored.map Prod.snd) (order.map Prod.snd) ∧ order.Perm others := by
  cases reordered with
  | refl =>
      exact ⟨stored, stored, rfl, rfl, List.forall₂_same.mpr fun item _ => .refl item, .refl _⟩
  | object names each permuted => exact ⟨_, _, rfl, names, each, permuted⟩

/-- The content of a variant is under the variant's name. -/
theorem content {name : String} {content : Json}
    (reordered : Reordered (.object [(name, content)]) value) :
    ∃ other, value = .object [(name, other)] ∧ Reordered content other := by
  rcases reordered.members with ⟨order, others, rfl, names, each, permuted⟩
  rcases order with _ | ⟨⟨_, other⟩, _ | ⟨second, order⟩⟩
  · cases names
  · cases names
    rw [List.perm_singleton.mp permuted.symm]
    exact ⟨other, rfl, (List.forall₂_cons.mp each).1⟩
  · cases names

/-- Every field of a structure is found under its name. -/
theorem fields (names : List String) (values : List Json) (distinct : names.Nodup)
    (sameLength : names.length = values.length)
    (reordered : Reordered (.object (names.zip values)) value) :
    ∃ others members, value = .object members ∧
      fields? names (.object members) = some (others.map some) ∧
      List.Forall₂ Reordered values others := by
  rcases reordered.members with ⟨order, members, rfl, orderNames, each, permuted⟩
  rw [List.map_fst_zip sameLength.le] at orderNames
  rw [List.map_snd_zip sameLength.ge] at each
  refine ⟨order.map Prod.snd, members, rfl, ?_, each⟩
  rw [fields?, orderNames]
  rw [orderNames] at distinct
  have found : ∀ member ∈ order, field? members member.1 = some (some member.2) := by
    intro member isMember
    have named : (membersNamed member.1 order).Perm (membersNamed member.1 members) :=
      permuted.filterMap _
    rw [membersNamed_of_mem distinct isMember] at named
    rw [field?, List.perm_singleton.mp named.symm]
  clear distinct orderNames each permuted reordered
  induction order with
  | nil => rfl
  | cons member rest ih =>
      simp [found member List.mem_cons_self,
        ih fun other isOther => found other (List.mem_cons_of_mem _ isOther)]

end Reordered

theorem Exact.of_reordered {stored value : Json} (exact : Exact stored)
    (reordered : Reordered stored value) : Exact value := by
  have related {first second : List Json} (each : List.Forall₂ Reordered first second) :
      ∀ other ∈ second, ∃ item ∈ first, Reordered item other := by
    intro other isOther
    induction each with
    | nil => cases isOther
    | @cons item own rest others same each ih =>
        rcases List.mem_cons.mp isOther with rfl | isLater
        · exact ⟨item, List.mem_cons_self, same⟩
        · rcases ih isLater with ⟨found, isFound, same⟩
          exact ⟨found, List.mem_cons_of_mem _ isFound, same⟩
  induction exact generalizing value with
  | null =>
      cases reordered
      exact .null
  | bool =>
      cases reordered
      exact .bool
  | integer fits =>
      cases reordered
      exact .integer fits
  | string =>
      cases reordered
      exact .string
  | array each ih =>
      rcases reordered.items with ⟨others, rfl, same⟩
      apply Exact.array
      intro other isOther
      rcases related same other isOther with ⟨item, isItem, own⟩
      exact ih item isItem own
  | object distinct each ih =>
      rcases reordered.members with ⟨order, others, rfl, names, same, permuted⟩
      apply Exact.object
      · rw [names] at distinct
        exact (permuted.map Prod.fst).nodup_iff.mp distinct
      · intro other isOther
        have inOrder : other.2 ∈ order.map Prod.snd :=
          List.mem_map_of_mem (permuted.mem_iff.mpr isOther)
        rcases related same other.2 inOrder with ⟨item, isItem, own⟩
        rcases List.mem_map.mp isItem with ⟨member, isMember, rfl⟩
        exact ih member isMember own

/-- An element is found by its tag, and its other members are left. -/
theorem Reordered.tagged {tag name : String} {rest : List (String × Json)} {value : Json}
    (exact : Exact (.object ((tag, .string name) :: rest)))
    (reordered : Reordered (.object ((tag, .string name) :: rest)) value) :
    ∃ others, tagged? tag value = some (name, .object others) ∧
      Reordered (.object rest) (.object others) := by
  have readable := (exact.of_reordered reordered).isReadable
  rcases reordered.members with ⟨order, members, rfl, names, each, permuted⟩
  cases exact with
  | object distinct _ =>
      rcases order with _ | ⟨⟨_, first⟩, order⟩
      · cases names
      · rcases List.forall₂_cons.mp each with ⟨same, restEach⟩
        have isTag : first = .string name := by
          cases same
          rfl
        subst isTag
        rcases List.cons.inj names with ⟨rfl, restNames⟩
        have orderDistinct : (((tag, Json.string name) :: order).map Prod.fst).Nodup :=
          names ▸ distinct
        rcases List.nodup_cons.mp orderDistinct with ⟨fresh, _⟩
        have named : membersNamed tag members = [.string name] := by
          have same : (membersNamed tag ((tag, .string name) :: order)).Perm
              (membersNamed tag members) := permuted.filterMap _
          rw [membersNamed_of_mem orderDistinct List.mem_cons_self] at same
          exact List.perm_singleton.mp same.symm
        have others : order.Perm (members.filter fun other => other.1 ≠ tag) := by
          have kept : order.filter (fun other => other.1 ≠ tag) = order := by
            apply List.filter_eq_self.mpr
            intro other isOther
            simp only [ne_eq, decide_not, Bool.not_eq_eq_eq_not, Bool.not_true,
              decide_eq_false_iff_not]
            intro same
            have isName : other.1 ∈ order.map Prod.fst := List.mem_map_of_mem isOther
            exact fresh (same ▸ isName)
          have same := permuted.filter fun other => other.1 ≠ tag
          rwa [List.filter_cons_of_neg (by simp), kept] at same
        refine ⟨_, ?_, .object restNames restEach others⟩
        simp only [isReadable] at readable
        simp only [tagged?, readable, named]

/-! ### Trees -/

theorem foldr_keepLast {members : List (String × Json)} (distinct : (members.map Prod.fst).Nodup) :
    members.foldr keepLast [] = members := by
  induction members with
  | nil => rfl
  | cons member rest ih =>
      rcases List.nodup_cons.mp distinct with ⟨fresh, restDistinct⟩
      rw [List.foldr_cons, ih restDistinct]
      cases rest with
      | nil => rfl
      | cons next later =>
          rw [keepLast, if_neg]
          intro same
          exact fresh (same ▸ List.mem_cons_self)

theorem perm_lastMembers {members : List (String × Json)} (distinct : (members.map Prod.fst).Nodup) :
    (lastMembers members).Perm members := by
  have sorted := List.mergeSort_perm members fun first second => decide (first.1 ≤ second.1)
  rw [lastMembers, foldr_keepLast]
  · exact sorted
  · exact (sorted.map Prod.fst).nodup_iff.mpr distinct

/-- A tree differs from its value in the order of members. -/
theorem Exact.reordered_toTree {value : Json} (exact : Exact value) :
    Reordered value value.toTree := by
  induction exact with
  | null | bool | integer | string => exact .refl _
  | @array items each ih =>
      apply Reordered.array
      clear each
      induction items with
      | nil => exact .nil
      | cons item rest restIh =>
          exact .cons (ih item List.mem_cons_self)
            (restIh fun other isOther => ih other (List.mem_cons_of_mem _ isOther))
  | @object members distinct each ih =>
      have names : members.map Prod.fst = (toTreeMembers members).map Prod.fst := by
        clear distinct each ih
        induction members with
        | nil => rfl
        | cons member rest restIh => simp [toTreeMembers, restIh]
      refine .object names ?_ (perm_lastMembers (names ▸ distinct)).symm
      clear distinct each names
      induction members with
      | nil => exact .nil
      | cons member rest restIh =>
          exact .cons (ih member List.mem_cons_self)
            (restIh fun other isOther => ih other (List.mem_cons_of_mem _ isOther))

/-! ### Readers -/

/-- A reader finds something in a stored form, whatever the order of members. -/
def Restores {α : Type} (decode : Json → Option α) (stored : Json) (found : α) : Prop :=
  ∀ value, Reordered stored value → decode value = some found

/-- What is stored is read back: as a value and as a tree in every reading, and as text, on one line
or on several, if it is not nested too deeply. -/
def ReadBack {α : Type} (encode : α → Json) (decode : Reading → Json → Option α) (stored : α) :
    Prop :=
  (∀ reading, decode reading (encode stored) = some stored ∧
      decode reading (encode stored).toTree = some stored) ∧
    ((encode stored).depth ≤ depthLimit →
      (parse? (encode stored).pretty).bind (decode .text) = some stored ∧
        (parse? (encode stored).compact).bind (decode .text) = some stored)

theorem Exact.readBack {α : Type} {encode : α → Json} {decode : Reading → Json → Option α}
    {stored : α} (exact : Exact (encode stored))
    (restores : ∀ reading, Restores (decode reading) (encode stored) stored) :
    ReadBack encode decode stored := by
  refine ⟨fun reading => ⟨restores reading _ (.refl _),
    restores reading _ exact.reordered_toTree⟩, ?_⟩
  intro shallow
  have printable := exact.printable shallow
  rw [parse?_pretty printable, parse?_compact printable]
  exact ⟨restores .text _ (.refl _), restores .text _ (.refl _)⟩

theorem exact_nat {value : Nat} (small : value < 2 ^ 64) : Exact (.nat value) :=
  .integer ⟨by omega, by omega⟩

theorem exact_uint32 (value : UInt32) : Exact (.nat value.toNat) := by
  have := value.toNat_lt
  exact exact_nat (by omega)

theorem exact_int64 (value : Int64) : Exact (.int value.toInt) := by
  have low := value.le_toInt
  have high := value.toInt_lt
  exact .integer ⟨low, by omega⟩

theorem Exact.variant {name : String} {content : Json} (exact : Exact content) :
    Exact (.object [(name, content)]) := by
  refine .object (List.nodup_singleton name) ?_
  intro member isMember
  rw [List.mem_singleton.mp isMember]
  exact exact

theorem Exact.list {α : Type} {encode : α → Json} {stored : List α}
    (each : ∀ item ∈ stored, Exact (encode item)) : Exact (.array (stored.map encode)) := by
  apply Exact.array
  intro value isValue
  rcases List.mem_map.mp isValue with ⟨item, isItem, rfl⟩
  exact each item isItem

theorem exact_optional {α : Type} {encode : α → Json} {stored : Option α}
    (each : ∀ value, stored = some value → Exact (encode value)) :
    Exact (.optional encode stored) := by
  cases stored with
  | none => exact .null
  | some value => exact each value rfl

theorem restores_bool (value : Bool) : Restores bool? (.bool value) value := by
  rintro _ ⟨⟩
  rfl

theorem restores_string (text : String) : Restores string? (.string text) text := by
  rintro _ ⟨⟩
  rfl

theorem restores_nat {value : Nat} (small : value < 2 ^ 64) : Restores nat? (.nat value) value := by
  rintro _ ⟨⟩
  have inside : (0 : Int) ≤ value ∧ (value : Int) ≤ 18446744073709551615 := by omega
  simp [nat?, nat, int, integer?, inside]

theorem restores_uint32 (value : UInt32) : Restores uint32? (.nat value.toNat) value := by
  rintro _ ⟨⟩
  have small := value.toNat_lt
  have inside : (0 : Int) ≤ value.toNat ∧ (value.toNat : Int) ≤ 4294967295 := by omega
  simp only [uint32?, nat, int, integer?, inside, and_self, if_true, Option.map_some, Int.toNat_natCast,
    UInt32.ofNat_toNat]

theorem restores_int64 (value : Int64) : Restores int64? (.int value.toInt) value := by
  rintro _ ⟨⟩
  have inside : -9223372036854775808 ≤ value.toInt ∧ value.toInt ≤ 9223372036854775807 := by
    have low := value.le_toInt
    have high := value.toInt_lt
    omega
  simp [int64?, int, integer?, inside]

theorem Restores.list {α : Type} {encode : α → Json} {item? : Json → Option α} {stored : List α}
    (each : ∀ item ∈ stored, Restores item? (encode item) item) :
    Restores (list? item?) (.array (stored.map encode)) stored := by
  intro value reordered
  rcases reordered.items with ⟨others, rfl, same⟩
  rw [list?]
  clear reordered
  induction stored generalizing others with
  | nil =>
      cases same
      rfl
  | cons item rest ih =>
      rcases same with _ | ⟨own, same⟩
      simp [each item List.mem_cons_self _ own,
        ih (fun other isOther => each other (List.mem_cons_of_mem _ isOther)) _ same]

/-- A value that may be absent is stored as null then, which stands for nothing else. -/
theorem Restores.nullable {α : Type} {encode : α → Json} {value? : Json → Option α}
    {stored : Option α} (noNull : value? .null = none)
    (each : ∀ value, stored = some value → Restores value? (encode value) value) :
    Restores (nullable? value?) (.optional encode stored) stored := by
  intro value reordered
  cases stored with
  | none =>
      cases reordered
      rfl
  | some own =>
      have reads := each own rfl value reordered
      rw [nullable?]
      · rw [reads]
        rfl
      · rintro rfl
        rw [noNull] at reads
        cases reads

end Concolic.Json
