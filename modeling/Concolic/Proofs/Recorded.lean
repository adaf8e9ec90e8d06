import Mathlib
import Concolic.Proofs.Values

/-!
# Recorded runs

`Recording.Recorded` holds of every recording that a run can produce whose branches have admissible
conditions: the run asks for inputs, enters and leaves scopes, records branches and marks them, and
names literal texts, in any order. Two facts about the machine are part of it: the numbering of
variables does not run over, and a line has fewer than 2⁶³ characters.

What solving relies on is `Recording.Invariant`. Inputs have variables of their own, conditions are
admissible, and at every branch that may still be turned aside the lower guards of all strings seen
so far are among the earlier conditions. The last part is why a guard that holds is marked as done:
turning the lower guard of a string aside would ask for a negative length.
-/

namespace Concolic

open InputRecord

namespace Recording

/-- So many variables are left. -/
def HasRoom (recording : Recording) (count : Nat) : Prop :=
  recording.nextVar.toNat + count < 2 ^ 32

/-- The recordings of runs whose branches have admissible conditions. -/
inductive Recorded : Recording → Prop where
  | start (lines : List String) (expected : List PathStep) (format : InputFormat)
      (maxLength : Int64) (lexicon : Lexicon) :
      Recorded (.start lines expected format maxLength lexicon)
  | int {recording : Recording} (recorded : Recorded recording) (room : recording.HasRoom 1) :
      Recorded recording.int.2.2
  | long {recording : Recording} (recorded : Recorded recording) (room : recording.HasRoom 1) :
      Recorded recording.long.2.2
  | float {recording : Recording} (recorded : Recorded recording) (room : recording.HasRoom 1) :
      Recorded recording.float.2
  | text {recording : Recording} (recorded : Recorded recording) (room : recording.HasRoom 2)
      (short : (recording.source.head?.getD "").length < 2 ^ 63) : Recorded recording.text.2
  | beginScope {recording : Recording} (recorded : Recorded recording) :
      Recorded recording.beginScope
  | endScope {recording : Recording} (recorded : Recorded recording) : Recorded recording.endScope
  | branch {recording : Recording} (recorded : Recorded recording) (outcome : Bool)
      (condition : Option PathCondition) (site : UInt32)
      (admissible : ∀ own ∈ condition, own.Admissible recording.records) :
      Recorded (recording.branch outcome condition site)
  | markDone {recording : Recording} (recorded : Recorded recording) : Recorded recording.markDone
  | markForced {recording : Recording} (recorded : Recorded recording) :
      Recorded recording.markForced
  | intern {recording : Recording} (recorded : Recorded recording) (text : String) :
      Recorded { recording with lexicon := (recording.lexicon.intern text).2 }

/-- The path can be turned aside at the condition of the given number: everything up to it is about
some of the inputs, and the lengths of these are guarded by earlier conditions. -/
def Turnable (recording : Recording) (number : Nat) : Prop :=
  number < recording.conditions.length ∧
    ∃ known, known <+: recording.records ∧
      (∀ condition ∈ recording.conditions.take (number + 1), condition.Admissible known) ∧
      ∀ symbol length, HasText known symbol length →
        lowerGuard length ∈ recording.conditions.take number

/-- What recording keeps true. -/
structure Invariant (recording : Recording) : Prop where
  fresh : ∀ record ∈ recording.records, ∀ id ∈ record.ids, id.toNat < recording.nextVar.toNat
  distinct : Distinct recording.records
  admissible : ∀ condition ∈ recording.conditions, condition.Admissible recording.records
  guarded : ∀ symbol length, HasText recording.records symbol length →
    lowerGuard length ∈ recording.conditions
  turnable : ∀ branch, .branch branch ∈ recording.trail.steps →
    ∀ number, branch.open? = some number → recording.Turnable number

variable {recording : Recording}

/-- Inputs have variables of their own, below the next one. -/
structure Fresh (recording : Recording) : Prop where
  below : ∀ record ∈ recording.records, ∀ id ∈ record.ids, id.toNat < recording.nextVar.toNat
  distinct : Distinct recording.records

theorem Invariant.isFresh (invariant : recording.Invariant) : recording.Fresh :=
  ⟨invariant.fresh, invariant.distinct⟩

theorem Fresh.extend {later : Recording} {record : InputRecord} (fresh : recording.Fresh)
    (records : later.records = recording.records ++ [record])
    (new : ∀ id ∈ record.ids, recording.nextVar.toNat ≤ id.toNat ∧ id.toNat < later.nextVar.toNat)
    (ascends : recording.nextVar.toNat ≤ later.nextVar.toNat)
    (oneEach : record.ids.Nodup) : later.Fresh := by
  constructor
  · intro other member id isId
    rw [records, List.mem_append, List.mem_singleton] at member
    rcases member with isOld | rfl
    · have := fresh.below other isOld id isId
      omega
    · exact (new id isId).2
  · rw [Distinct, records, List.flatMap_append, List.nodup_append]
    refine ⟨fresh.distinct, by simpa using oneEach, ?_⟩
    intro old isOld added isNew
    rcases List.mem_flatMap.mp isOld with ⟨other, isOther, isId⟩
    have isBelow := fresh.below other isOther old isId
    have isAbove := new added (by simpa using isNew)
    rintro rfl
    omega

/-- An input that is no string takes one variable. -/
theorem Fresh.takeInput (fresh : recording.Fresh) (room : recording.HasRoom 1)
    {given : InputValue} (noText : ∀ text length, given ≠ .text text length) :
    (recording.takeInput given).Fresh := by
  have next : (recording.takeInput given).nextVar.toNat = recording.nextVar.toNat + 1 := by
    simp only [HasRoom] at room
    simp only [Recording.takeInput, UInt32.toNat_add, UInt32.reduceToNat]
    omega
  have isId : (InputRecord.value recording.nextVar given).ids = [recording.nextVar] := by
    cases given with
    | text text length => exact absurd rfl (noText text length)
    | int value | long value | float value => rfl
  apply fresh.extend (by rfl)
  · rw [isId]
    intro id isNew
    rw [List.mem_singleton.mp isNew, next]
    exact ⟨Nat.le_refl _, Nat.lt_succ_self _⟩
  · omega
  · simp [isId]

theorem toNat_nextVar_add (room : recording.HasRoom 2) :
    (recording.nextVar + 1).toNat = recording.nextVar.toNat + 1 ∧
      (recording.nextVar + 1 + 1).toNat = recording.nextVar.toNat + 2 := by
  simp only [HasRoom] at room
  simp only [UInt32.toNat_add, UInt32.reduceToNat]
  omega

/-- A string takes two variables. -/
theorem Fresh.extend_text {later : Recording} {text : String} (fresh : recording.Fresh)
    (room : recording.HasRoom 2)
    (records : later.records = recording.records ++
      [.value recording.nextVar (.text text (recording.nextVar + 1))])
    (nextVar : later.nextVar = recording.nextVar + 1 + 1) : later.Fresh := by
  rcases toNat_nextVar_add room with ⟨lengthIs, nextIs⟩
  apply fresh.extend records
  · intro id isId
    simp only [ids, List.mem_cons, List.not_mem_nil, or_false] at isId
    rw [nextVar, nextIs]
    rcases isId with rfl | rfl <;> omega
  · rw [nextVar, nextIs]
    omega
  · simp only [ids, List.nodup_cons, List.mem_singleton, List.not_mem_nil, not_false_eq_true,
      List.nodup_nil, and_true]
    intro same
    have := congrArg UInt32.toNat same
    omega

/-- The edge of a scope takes no variable. -/
theorem Fresh.extend_edge {later : Recording} {record : InputRecord} (fresh : recording.Fresh)
    (noIds : record.ids = []) (records : later.records = recording.records ++ [record])
    (sameVar : later.nextVar = recording.nextVar) : later.Fresh :=
  fresh.extend records (by simp [noIds]) (by rw [sameVar]) (by simp [noIds])

/-- Longer records and conditions keep what can be turned aside. -/
theorem Turnable.mono {later : Recording} {number : Nat} (turnable : recording.Turnable number)
    (records : recording.records <+: later.records)
    (conditions : recording.conditions <+: later.conditions) : later.Turnable number := by
  obtain ⟨inRange, known, isKnown, admissible, guarded⟩ := turnable
  obtain ⟨added, isAdded⟩ := conditions
  have sameTake (count : Nat) (within : count ≤ recording.conditions.length) :
      later.conditions.take count = recording.conditions.take count := by
    rw [← isAdded, List.take_append_of_le_length within]
  refine ⟨?_, known, isKnown.trans records, ?_, ?_⟩
  · rw [← isAdded, List.length_append]
    omega
  · rwa [sameTake _ inRange]
  · rwa [sameTake _ inRange.le]

theorem invariant_start (lines : List String) (expected : List PathStep) (format : InputFormat)
    (maxLength : Int64) (lexicon : Lexicon) :
    (start lines expected format maxLength lexicon).Invariant := by
  refine ⟨?_, ?_, ?_, ?_, ?_⟩ <;>
    simp [start, conditions, Trail.expecting, Distinct, HasText]

/-- A recording with the same records and numbering, the same conditions, and branches that are no
more open than before, keeps the invariant. -/
theorem Invariant.of_steps {later : Recording} (invariant : recording.Invariant)
    (sameVar : later.nextVar = recording.nextVar) (sameRecords : later.records = recording.records)
    (sameConditions : later.conditions = recording.conditions)
    (steps : ∀ branch, .branch branch ∈ later.trail.steps → ∀ number, branch.open? = some number →
      ∃ earlier, .branch earlier ∈ recording.trail.steps ∧ earlier.open? = some number) :
    later.Invariant := by
  refine ⟨?_, ?_, ?_, ?_, ?_⟩
  · rw [sameVar, sameRecords]
    exact invariant.fresh
  · rw [sameRecords]
    exact invariant.distinct
  · rw [sameRecords, sameConditions]
    exact invariant.admissible
  · rw [sameRecords, sameConditions]
    exact invariant.guarded
  · intro branch isStep number isOpen
    obtain ⟨earlier, wasStep, wasOpen⟩ := steps branch isStep number isOpen
    exact (invariant.turnable earlier wasStep number wasOpen).mono (by rw [sameRecords])
      (by rw [sameConditions])

/-- Changing the last branch changes nothing else. -/
theorem mem_changeLastBranch {change : Branch → Branch} {steps : List PathStep} {branch : Branch}
    (member : .branch branch ∈ PathStep.changeLastBranch change steps) :
    .branch branch ∈ steps ∨ ∃ earlier, .branch earlier ∈ steps ∧ branch = change earlier := by
  have general (steps : List PathStep)
      (member : .branch branch ∈ PathStep.changeFirstBranch change steps) :
      .branch branch ∈ steps ∨ ∃ earlier, .branch earlier ∈ steps ∧ branch = change earlier := by
    induction steps with
    | nil => simp [PathStep.changeFirstBranch] at member
    | cons step rest ih =>
        cases step with
        | branch fork =>
            rcases List.mem_cons.mp member with same | inRest
            · exact .inr ⟨fork, List.mem_cons_self, by simpa using same⟩
            · exact .inl (List.mem_cons_of_mem _ inRest)
        | scope edge =>
            rcases List.mem_cons.mp member with same | inRest
            · cases same
            · rcases ih inRest with inSteps | ⟨earlier, inSteps, same⟩
              · exact .inl (List.mem_cons_of_mem _ inSteps)
              · exact .inr ⟨earlier, List.mem_cons_of_mem _ inSteps, same⟩
  rw [PathStep.changeLastBranch, List.mem_reverse] at member
  simpa using general steps.reverse member

theorem Invariant.markDone (invariant : recording.Invariant) : recording.markDone.Invariant := by
  refine invariant.of_steps (by rfl) (by rfl) (by rfl) ?_
  intro branch isStep number isOpen
  rcases mem_changeLastBranch isStep with unchanged | ⟨earlier, _, rfl⟩
  · exact ⟨branch, unchanged, isOpen⟩
  · simp [Branch.open?] at isOpen

theorem Invariant.markForced (invariant : recording.Invariant) :
    recording.markForced.Invariant := by
  refine invariant.of_steps (by rfl) (by rfl) (by rfl) ?_
  intro branch isStep number isOpen
  rcases mem_changeLastBranch isStep with unchanged | ⟨earlier, wasStep, rfl⟩
  · exact ⟨branch, unchanged, isOpen⟩
  · exact ⟨earlier, wasStep, isOpen⟩

/-- Recording an input that is no string, or the edge of a scope, adds no condition and no branch. -/
theorem Invariant.extend {later : Recording} {record : InputRecord}
    (invariant : recording.Invariant) (isFresh : later.Fresh)
    (records : later.records = recording.records ++ [record])
    (sameConditions : later.conditions = recording.conditions)
    (steps : ∀ branch, .branch branch ∈ later.trail.steps → .branch branch ∈ recording.trail.steps)
    (noText : ∀ symbol text length, record ≠ .value symbol (.text text length)) :
    later.Invariant := by
  have subset : recording.records ⊆ later.records := by
    rw [records]
    exact List.subset_append_left _ _
  refine ⟨isFresh.below, isFresh.distinct, ?_, ?_, ?_⟩
  · rw [sameConditions]
    exact fun condition member => (invariant.admissible condition member).mono subset
  · rw [sameConditions]
    rintro symbol length ⟨text, member⟩
    rw [records, List.mem_append, List.mem_singleton] at member
    rcases member with isOld | isNew
    · exact invariant.guarded symbol length ⟨text, isOld⟩
    · exact absurd isNew.symm (noText symbol text length)
  · intro branch isStep number isOpen
    refine (invariant.turnable branch (steps branch isStep) number isOpen).mono ?_ ?_
    · rw [records]
      exact List.prefix_append _ _
    · rw [sameConditions]

/-- Meeting an expectation changes the marks of a branch only. -/
theorem condition_meet (expected : Option PathStep) (branch : Branch) :
    (Trail.meet expected branch).1.condition = branch.condition := by
  simp only [Trail.meet]
  split
  · split <;> rfl
  · rfl
  · rfl

/-- What a branch adds to the trail. -/
theorem steps_branch (recording : Recording) (outcome : Bool) (condition : Option PathCondition)
    (site : UInt32) :
    (recording.branch outcome condition site).trail.steps =
      recording.trail.steps ++ [.branch (Trail.meet recording.trail.next?
        { taken := outcome
          site := site
          condition := condition.map fun _ => recording.conditions.length }).1] := by
  cases condition <;> rfl

theorem conditions_branch (recording : Recording) (outcome : Bool)
    (condition : Option PathCondition) (site : UInt32) :
    (recording.branch outcome condition site).conditions =
      recording.conditions ++
        (condition.map fun own => if outcome then own else own.negate).toList :=
  rfl

theorem admissible_held {records : List InputRecord} {outcome : Bool}
    {condition : Option PathCondition} (admissible : ∀ own ∈ condition, own.Admissible records)
    {held : PathCondition}
    (isHeld : held ∈ (condition.map fun own => if outcome then own else own.negate).toList) :
    held.Admissible records := by
  cases condition with
  | none => simp at isHeld
  | some own =>
      have ofOwn := admissible own rfl
      simp only [Option.map_some, Option.toList_some, List.mem_singleton] at isHeld
      cases outcome with
      | true => exact isHeld ▸ ofOwn
      | false => exact isHeld ▸ ofOwn.negate

/-- Recording a branch over the present inputs keeps the invariant. -/
theorem Invariant.branch (invariant : recording.Invariant) (outcome : Bool)
    (condition : Option PathCondition) (site : UInt32)
    (admissible : ∀ own ∈ condition, own.Admissible recording.records) :
    (recording.branch outcome condition site).Invariant := by
  have conditions := conditions_branch recording outcome condition site
  have allAdmissible : ∀ own ∈ (recording.branch outcome condition site).conditions,
      own.Admissible recording.records := by
    rw [conditions]
    intro own member
    rcases List.mem_append.mp member with isOld | isHeld
    · exact invariant.admissible own isOld
    · exact admissible_held admissible isHeld
  refine ⟨invariant.fresh, invariant.distinct, allAdmissible, ?_, ?_⟩
  · intro symbol length hasText
    rw [conditions]
    exact List.mem_append_left _ (invariant.guarded symbol length hasText)
  · intro branch isStep number isOpen
    rw [steps_branch, List.mem_append, List.mem_singleton, PathStep.branch.injEq] at isStep
    rcases isStep with isOld | isNew
    · refine (invariant.turnable branch isOld number isOpen).mono ?_ ?_
      · exact List.prefix_refl _
      · rw [conditions]
        exact List.prefix_append _ _
    · have isNumber : branch.condition = condition.map fun _ => recording.conditions.length := by
        rw [isNew, condition_meet]
      cases condition with
      | none => simp [Branch.open?, isNumber] at isOpen
      | some own =>
          have same : number = recording.conditions.length := by
            simp only [Branch.open?, isNumber, Option.map_some] at isOpen
            split at isOpen
            · simp at isOpen
            · exact (Option.some.inj isOpen).symm
          subst same
          refine ⟨?_, recording.records, List.prefix_refl _, ?_, ?_⟩
          · simp [conditions]
          · exact fun own member => allAdmissible own (List.mem_of_mem_take member)
          · intro symbol length hasText
            rw [conditions, List.take_left]
            exact invariant.guarded symbol length hasText

theorem Invariant.guard (invariant : recording.Invariant) (holds : Bool)
    {condition : PathCondition} (admissible : condition.Admissible recording.records) :
    (recording.guard holds condition).Invariant := by
  have branched := invariant.branch holds (some condition) 0 (by simpa using admissible)
  simp only [Recording.guard]
  split
  · exact branched.markDone
  · exact branched

theorem admissible_lowerGuard {records : List InputRecord} {symbol length : UInt32}
    (hasText : HasText records symbol length) :
    PathCondition.Admissible records (lowerGuard length) := by
  intro var occurs
  rw [Linear.vars_ofVar, List.mem_singleton] at occurs
  rw [occurs]
  exact .inr ⟨symbol, hasText⟩

theorem admissible_upperGuard {records : List InputRecord} {symbol length : UInt32}
    (hasText : HasText records symbol length) (maxLength : Int64) :
    PathCondition.Admissible records (upperGuard length maxLength) := by
  intro var occurs
  rw [Linear.vars_plusConstant, Linear.vars_ofVar, List.mem_singleton] at occurs
  rw [occurs]
  exact .inr ⟨symbol, hasText⟩

theorem changeLastBranch_append (change : Branch → Branch) (steps : List PathStep)
    (fork : Branch) :
    PathStep.changeLastBranch change (steps ++ [.branch fork]) =
      steps ++ [.branch (change fork)] := by
  simp [PathStep.changeLastBranch, PathStep.changeFirstBranch]

/-- A guard that holds is recorded as a branch that is done. -/
theorem exists_guard_step (recording : Recording) (condition : PathCondition) :
    ∃ branch : Branch, branch.done = true ∧
      (recording.guard true condition).trail.steps = recording.trail.steps ++ [.branch branch] := by
  have marked : (recording.guard true condition).trail.steps =
      PathStep.changeLastBranch (fun branch => { branch with done := true })
        (recording.branch true (some condition) 0).trail.steps := rfl
  rw [marked, steps_branch, changeLastBranch_append]
  exact ⟨_, rfl, rfl⟩

theorem records_guard (recording : Recording) (holds : Bool) (condition : PathCondition) :
    (recording.guard holds condition).records = recording.records := by
  simp only [Recording.guard]
  split <;> rfl

/-- A string adds one record. -/
theorem records_text (recording : Recording) :
    recording.text.2.records = recording.records ++ [.value recording.nextVar
      (.text (recording.source.head?.getD "") (recording.nextVar + 1))] := by
  simp only [Recording.text, records_guard]
  rfl

/-- Taking a string and guarding its length from below keeps the invariant. -/
theorem Invariant.takeText (invariant : recording.Invariant) (room : recording.HasRoom 2)
    (text : String) :
    ({ recording.takeInput (.text text (recording.nextVar + 1)) with
        nextVar := recording.nextVar + 1 + 1 }.guard true
      (lowerGuard (recording.nextVar + 1))).Invariant := by
  obtain ⟨added, isDone, steps⟩ := exists_guard_step
    { recording.takeInput (.text text (recording.nextVar + 1)) with
      nextVar := recording.nextVar + 1 + 1 } (lowerGuard (recording.nextVar + 1))
  generalize later : { recording.takeInput (.text text (recording.nextVar + 1)) with
    nextVar := recording.nextVar + 1 + 1 }.guard true (lowerGuard (recording.nextVar + 1)) = guarded
    at steps
  have records : guarded.records = recording.records ++
      [.value recording.nextVar (.text text (recording.nextVar + 1))] := by
    rw [← later]
    rfl
  have conditions : guarded.conditions =
      recording.conditions ++ [lowerGuard (recording.nextVar + 1)] := by
    rw [← later]
    rfl
  have nextVar : guarded.nextVar = recording.nextVar + 1 + 1 := by
    rw [← later]
    rfl
  have hasText : HasText guarded.records recording.nextVar (recording.nextVar + 1) :=
    ⟨text, by simp [records]⟩
  have subset : recording.records ⊆ guarded.records := by
    rw [records]
    exact List.subset_append_left _ _
  have isFresh := invariant.isFresh.extend_text room records nextVar
  refine ⟨isFresh.below, isFresh.distinct, ?_, ?_, ?_⟩
  · rw [conditions]
    intro own member
    rcases List.mem_append.mp member with isOld | isNew
    · exact (invariant.admissible own isOld).mono subset
    · rw [List.mem_singleton.mp isNew]
      exact admissible_lowerGuard hasText
  · rintro symbol length ⟨found, member⟩
    rw [records, List.mem_append, List.mem_singleton] at member
    rw [conditions, List.mem_append, List.mem_singleton]
    rcases member with isOld | isNew
    · exact .inl (invariant.guarded symbol length ⟨found, isOld⟩)
    · cases isNew
      exact .inr rfl
  · intro branch isStep number isOpen
    rw [steps, List.mem_append, List.mem_singleton, PathStep.branch.injEq] at isStep
    rcases isStep with isOld | rfl
    · refine (invariant.turnable branch isOld number isOpen).mono ?_ ?_
      · rw [records]
        exact List.prefix_append _ _
      · rw [conditions]
        exact List.prefix_append _ _
    · simp [Branch.open?, isDone] at isOpen

/-- The length of a line is no negative number. -/
theorem nonneg_ofNat_length {text : String} (short : text.length < 2 ^ 63) :
    decide (0 ≤ Int64.ofNat text.length) = true := by
  rw [decide_eq_true_eq, Int64.le_iff_toInt_le, Int64.toInt_ofNat_of_lt short, Int64.toInt_zero]
  omega

theorem Invariant.text (invariant : recording.Invariant) (room : recording.HasRoom 2)
    (short : (recording.source.head?.getD "").length < 2 ^ 63) : recording.text.2.Invariant := by
  have taken := invariant.takeText room (recording.source.head?.getD "")
  have hasText : HasText (recording.records ++ [.value recording.nextVar
      (.text (recording.source.head?.getD "") (recording.nextVar + 1))]) recording.nextVar
      (recording.nextVar + 1) :=
    ⟨_, List.mem_append_right _ List.mem_cons_self⟩
  have guarded := taken.guard
    (decide (Int64.ofNat (recording.source.head?.getD "").length ≤ recording.maxLength))
    (admissible_upperGuard hasText recording.maxLength)
  rw [← nonneg_ofNat_length short] at guarded
  exact guarded.of_steps (by rfl) (by rfl) (by rfl) fun branch isStep number isOpen =>
    ⟨branch, isStep, isOpen⟩

/-- Taking an input that is no string keeps the invariant. -/
theorem Invariant.takeInput (invariant : recording.Invariant) (room : recording.HasRoom 1)
    {given : InputValue} (noText : ∀ text length, given ≠ .text text length) :
    (recording.takeInput given).Invariant := by
  apply invariant.extend (invariant.isFresh.takeInput room noText) (by rfl) (by rfl)
  · exact fun _ isStep => isStep
  · intro symbol text length same
    exact noText text length (InputRecord.value.inj same).2

/-- The edge of a scope keeps the invariant. -/
theorem Invariant.scope {later : Recording} {record : InputRecord} {edge : ScopeEdge}
    (invariant : recording.Invariant) (noIds : record.ids = [])
    (records : later.records = recording.records ++ [record])
    (sameVar : later.nextVar = recording.nextVar)
    (sameConditions : later.conditions = recording.conditions)
    (steps : later.trail.steps = recording.trail.steps ++ [.scope edge]) : later.Invariant := by
  apply invariant.extend (invariant.isFresh.extend_edge noIds records sameVar) records sameConditions
  · intro branch isStep
    simpa [steps] using isStep
  · rintro symbol text length rfl
    simp [ids] at noIds

/-- Every recording of a run satisfies the invariant. -/
theorem Recorded.invariant (recorded : recording.Recorded) : recording.Invariant := by
  induction recorded with
  | start lines expected format maxLength lexicon =>
      exact invariant_start lines expected format maxLength lexicon
  | int recorded room ih => exact ih.takeInput room (by simp)
  | long recorded room ih => exact ih.takeInput room (by simp)
  | float recorded room ih => exact ih.takeInput room (by simp)
  | text recorded room short ih => exact ih.text room short
  | beginScope recorded ih =>
      have noIds : InputRecord.scopeBegin.ids = [] := rfl
      exact ih.scope noIds rfl rfl rfl rfl
  | endScope recorded ih =>
      have noIds : InputRecord.scopeEnd.ids = [] := rfl
      exact ih.scope noIds rfl rfl rfl rfl
  | branch recorded outcome condition site admissible ih =>
      exact ih.branch outcome condition site admissible
  | markDone recorded ih => exact ih.markDone
  | markForced recorded ih => exact ih.markForced
  | intern recorded text ih =>
      exact ih.of_steps rfl rfl rfl fun branch isStep number isOpen => ⟨branch, isStep, isOpen⟩

end Recording

end Concolic
