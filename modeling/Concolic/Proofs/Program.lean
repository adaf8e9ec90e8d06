import Mathlib
import Concolic.Proofs.Decision
import Concolic.Proofs.Recorded
import Concolic.Proofs.Trail

/-!
# Programs as trees of events

A program asks for inputs, enters and leaves scopes, and branches. What it does next depends on the
outcomes of its branches only, so it is a tree that forks at the branches, and the outcome of a
branch is the truth of its condition under the values that were handed out.

Running a program only ever adds to a recording (`Recording.Grows`). The steps that are recorded
later have later conditions, which is what ties the position of a branch in the trail to the number
of its condition.

A string input is the one event that records more than one step. It is taken apart here into taking
the line, two guards and naming the text. A guard is a branch that is marked as done when it holds,
so guards and the branches of the program are one case (`Recording.settle`).
-/

namespace Concolic

open InputRecord

/-- What a program does besides branching. -/
inductive Action where
  | int
  | long
  | text
  | scope (edge : ScopeEdge)

/-- A program whose next event depends only on the outcomes of its branches so far. -/
inductive EventTree where
  | stop
  | act (action : Action) (next : EventTree)
  | branch (condition : PathCondition) (site : UInt32) (whenTrue whenFalse : EventTree)

namespace Action

/-- The recording after the action. -/
def apply (recording : Recording) : Action → Recording
  | .int => recording.int.2.2
  | .long => recording.long.2.2
  | .text => recording.text.2
  | .scope .opening => recording.beginScope
  | .scope .closing => recording.endScope

/-- What the action asks for if the next variable is the given one. -/
def request (next : UInt32) : Action → InputRecord
  | .int => .value next (.int 0)
  | .long => .value next (.long 0)
  | .text => .value next (.text "" (next + 1))
  | .scope .opening => .scopeBegin
  | .scope .closing => .scopeEnd

/-- The number of variables that the action takes. -/
def width : Action → Nat
  | .int | .long => 1
  | .text => 2
  | .scope _ => 0

end Action

/-- Whether a condition is true under the values that were handed out so far. -/
def Recording.decides (recording : Recording) (condition : PathCondition) : Bool :=
  (condition.substitute (values recording.records) recording.lexicon).isTruth

namespace EventTree

/-- Runs a program from a recording on. -/
def run : EventTree → Recording → Recording
  | .stop, recording => recording
  | .act action next, recording => next.run (action.apply recording)
  | .branch condition site whenTrue whenFalse, recording =>
      match recording.decides condition with
      | true => whenTrue.run (recording.branch true (some condition) site)
      | false => whenFalse.run (recording.branch false (some condition) site)

/-- From the given requests and the given variable on, every condition is about inputs that were
asked for before it and about literal texts below the given number, and there are variables enough
for all inputs. -/
def WellFormed (literals : Nat) : EventTree → List InputRecord → UInt32 → Prop
  | .stop, _, _ => True
  | .act action next, asked, var =>
      var.toNat + action.width < 2 ^ 32 ∧
        next.WellFormed literals (asked ++ [action.request var]) (var + .ofNat action.width)
  | .branch condition _ whenTrue whenFalse, asked, var =>
      condition.Admissible asked ∧ (∀ id ∈ condition.literals, id.val.toNat < literals) ∧
        whenTrue.WellFormed literals asked var ∧ whenFalse.WellFormed literals asked var

end EventTree

/-! ### What the values of a run decide -/

theorem cellCount_ofNat_le (count : Nat) : cellCount (Int64.ofNat count) ≤ count := by
  have words : Int64.size = 2 ^ 64 := rfl
  rw [cellCount, Int64.toInt_ofNat', words, Int.bmod]
  split <;> omega

/-- The values of the inputs decide every condition that is about them. -/
theorem InputRecord.Distinct.decidedAt {records : List InputRecord} (distinct : Distinct records)
    {condition : PathCondition} (admissible : condition.Admissible records) (lexicon : Lexicon) :
    condition.Every (.decidedAt (values records) lexicon) := by
  have bound (var : Variable) (visible : Visible records var) :
      ∃ value, (values records).get? var = some value := by
    cases var with
    | char symbol index => exact visible.elim
    | int id =>
        rcases visible with (⟨given, isRecord⟩ | ⟨given, isRecord⟩) | ⟨symbol, text, isRecord⟩
        · exact ⟨_, distinct.get?_values_int isRecord⟩
        · exact ⟨_, distinct.get?_values_long isRecord⟩
        · exact ⟨_, distinct.get?_values_length isRecord⟩
  have concrete {text : SymText} (ofRecords : text.Admissible records) :
      ∃ characters, text.concrete? (values records) lexicon = some characters := by
    apply SymText.exists_concrete?
    intro symbol length isInput
    rcases ofRecords symbol length isInput with ⟨given, isRecord⟩
    refine ⟨_, distinct.get?_values_length isRecord, ?_⟩
    intro index inRange
    apply distinct.exists_get?_values_char isRecord
    exact inRange.trans_le (cellCount_ofNat_le _)
  apply Condition.Every.mono admissible
  · intro sum inScope var occurs
    exact bound var (inScope var occurs)
  · rintro left right ⟨leftScope, rightScope⟩
    exact ⟨fun var occurs => bound var (leftScope var occurs),
      fun var occurs => bound var (rightScope var occurs)⟩
  · rintro test ⟨notRegex, subject, pattern⟩
    exact ⟨notRegex, concrete subject, concrete pattern⟩

namespace Recording

variable {recording earlier later : Recording}

/-! ### Branches and guards -/

/-- Records a branch and marks it as done if it is one that `marks` asks for and was taken. The
branches of a program ask for no mark, and the guards of a length do. -/
def settle (recording : Recording) (marks outcome : Bool) (condition : PathCondition)
    (site : UInt32) : Recording :=
  let recorded := recording.branch outcome (some condition) site
  if marks && outcome then recorded.markDone else recorded

/-- A branch as it is seen before it meets the expectation. -/
def freshBranch (recording : Recording) (outcome : Bool) (site : UInt32) : Branch where
  taken := outcome
  site := site
  condition := some recording.conditions.length

/-- The branch that is recorded in the end. -/
def settledBranch (recording : Recording) (marks outcome : Bool) (site : UInt32) : Branch :=
  let met := (Trail.meet recording.trail.next? (recording.freshBranch outcome site)).1
  { met with done := met.done || marks && outcome }

theorem settle_eq (recording : Recording) (marks outcome : Bool) (condition : PathCondition)
    (site : UInt32) :
    recording.settle marks outcome condition site =
      { recording with
        trail := { recording.trail with
          steps := recording.trail.steps ++ [.branch (recording.settledBranch marks outcome site)]
          conditions := recording.trail.conditions ++
            [if outcome then condition else condition.negate]
          diverged := recording.trail.diverged ||
            (Trail.meet recording.trail.next? (recording.freshBranch outcome site)).2 } } := by
  cases isMarked : marks && outcome with
  | true =>
      have marked : recording.settle marks outcome condition site =
          (recording.branch outcome (some condition) site).markDone := by
        rw [settle, if_pos isMarked]
      have steps := steps_branch recording outcome (some condition) site
      rw [marked, markDone, Trail.markDone, steps, changeLastBranch_append, settledBranch, isMarked,
        Bool.or_true]
      rfl
  | false =>
      rw [settle, isMarked, settledBranch, isMarked, Bool.or_false]
      rfl

theorem settledBranch_spec (recording : Recording) (marks outcome : Bool) (site : UInt32) :
    (recording.settledBranch marks outcome site).taken = outcome ∧
      (recording.settledBranch marks outcome site).site = site ∧
      (recording.settledBranch marks outcome site).condition =
        some recording.conditions.length ∧
      (marks && outcome → (recording.settledBranch marks outcome site).done = true) := by
  simp only [settledBranch, Trail.meet]
  split
  · split <;> simp_all [freshBranch]
  · simp_all [freshBranch]
  · simp_all [freshBranch]

/-- A branch that was expected as it is to be recorded is recorded as it was expected. -/
theorem settle_of_expected {saved : Branch} {marks outcome : Bool} {site : UInt32}
    (isNext : recording.trail.next? = some (.branch saved)) (isTaken : saved.taken = outcome)
    (isSite : saved.site = site) (isNumber : saved.condition = some recording.conditions.length)
    (isDone : marks && outcome → saved.done = true) (condition : PathCondition) :
    recording.settle marks outcome condition site =
      { recording with
        trail := { recording.trail with
          steps := recording.trail.steps ++ [.branch saved]
          conditions := recording.trail.conditions ++
            [if outcome then condition else condition.negate] } } := by
  have met : Trail.meet recording.trail.next? (recording.freshBranch outcome site) =
      (saved, false) := by
    rcases saved with ⟨taken, forced, done, number, place⟩
    cases isTaken
    cases isSite
    cases isNumber
    rw [isNext]
    exact if_pos rfl
  have recorded : recording.settledBranch marks outcome site = saved := by
    rw [settledBranch, met]
    cases isMarked : marks && outcome with
    | true => simp [← isDone isMarked]
    | false => simp
  rw [settle_eq, recorded, met, Bool.or_false]

theorem settle_of_unexpected {marks outcome : Bool} {site : UInt32}
    (unexpected : recording.trail.next? = none) (condition : PathCondition) :
    (recording.settle marks outcome condition site).trail.diverged = recording.trail.diverged := by
  rw [settle_eq, unexpected]
  exact Bool.or_false _

theorem decides_settle (recording : Recording) (marks outcome : Bool) (condition : PathCondition)
    (site : UInt32) (other : PathCondition) :
    (recording.settle marks outcome condition site).decides other = recording.decides other := by
  rw [settle_eq]
  rfl

/-! ### String inputs -/

/-- Takes the next line as a string, with a variable for its characters and one for its length. -/
def takeText (recording : Recording) : Recording :=
  { recording.takeInput (.text (recording.source.head?.getD "") (recording.nextVar + 1)) with
    nextVar := recording.nextVar + 1 + 1 }

/-- Names a text in the lexicon. -/
def name (recording : Recording) (text : String) : Recording :=
  { recording with lexicon := (recording.lexicon.intern text).2 }

theorem length_head?_lt {source : List String} (short : ∀ line ∈ source, line.length < 2 ^ 63) :
    (source.head?.getD "").length < 2 ^ 63 := by
  cases isHead : source.head? with
  | none => simp
  | some line => exact short line (List.mem_of_head? isHead)

/-- A string input is a line taken, two guards and a text named. -/
theorem text_eq (recording : Recording) :
    recording.text.2 =
      ((recording.takeText.settle true
          (0 ≤ Int64.ofNat (recording.source.head?.getD "").length)
          (lowerGuard (recording.nextVar + 1)) 0).settle true
        (Int64.ofNat (recording.source.head?.getD "").length ≤ recording.maxLength)
        (upperGuard (recording.nextVar + 1) recording.maxLength) 0).name
      (recording.source.head?.getD "") :=
  rfl

theorem isTruth_ofBool (value : Bool) : (Condition.ofBool value : PathCondition).isTruth = value := by
  cases value <;> rfl

theorem decides_linear {sum : Linear} {relation : Relation}
    (bound : ∀ var ∈ sum.vars, ∃ value, (values recording.records).get? var = some value) :
    recording.decides (.linear sum relation) =
      relation.holds
        (Int64.ofInt (sum.valueAt (values recording.records).valuation)).toInt := by
  rw [decides, PathCondition.substitute, Condition.resolve, Condition.decideLinear_of_binds bound,
    isTruth_ofBool]

section Guards

variable {symbol length : UInt32} {text : String} (distinct : Distinct recording.records)
  (isRecord : .value symbol (.text text length) ∈ recording.records)

include distinct isRecord

theorem decides_lowerGuard :
    recording.decides (lowerGuard length) = decide (0 ≤ Int64.ofNat text.length) := by
  have isLength := distinct.get?_values_length isRecord
  rw [lowerGuard, decides_linear]
  · rw [Linear.valueAt_ofVar, Assignment.valuation_of_get? isLength, Int64.ofInt_toInt,
      Relation.holds]
    simp only [Int64.le_iff_toInt_le, Int64.toInt_zero, ge_iff_le]
  · intro var occurs
    rw [Linear.vars_ofVar, List.mem_singleton] at occurs
    exact ⟨_, occurs ▸ isLength⟩

/-- The upper guard is computed without overflow, so it compares the length with its bound. -/
theorem decides_upperGuard {maxLength : Int64} (nonneg : 0 ≤ maxLength)
    (lengthNonneg : 0 ≤ Int64.ofNat text.length) :
    recording.decides (upperGuard length maxLength) =
      decide (Int64.ofNat text.length ≤ maxLength) := by
  have isLength := distinct.get?_values_length isRecord
  rw [Int64.le_iff_toInt_le, Int64.toInt_zero] at nonneg lengthNonneg
  have lengthFits := fitsWord_toInt (Int64.ofNat text.length)
  have maxFits := fitsWord_toInt maxLength
  rw [FitsWord] at lengthFits maxFits
  rw [upperGuard, decides_linear]
  · rw [Linear.ofInt_valueAt_plusConstant, Linear.valueAt_ofVar,
      Assignment.valuation_of_get? isLength, Int64.ofInt_toInt, ← Int64.sub_eq_add_neg,
      toInt_sub_of_fitsWord (by rw [FitsWord]; omega), Relation.holds]
    simp only [Int64.le_iff_toInt_le, decide_eq_decide]
    omega
  · intro var occurs
    rw [Linear.vars_plusConstant, Linear.vars_ofVar, List.mem_singleton] at occurs
    exact ⟨_, occurs ▸ isLength⟩

end Guards

/-! ### What a run adds -/

/-- The later recording is the earlier one with things added, and the steps that were added have
conditions that were added. -/
structure Grows (earlier later : Recording) : Prop where
  records : earlier.records <+: later.records
  source : later.source <:+ earlier.source
  format : later.format = earlier.format
  maxLength : later.maxLength = earlier.maxLength
  texts : earlier.lexicon.texts <+: later.lexicon.texts
  steps : earlier.trail.steps <+: later.trail.steps
  conditions : earlier.conditions <+: later.conditions
  numbers : ∀ (index : Nat) (branch : Branch) (number : Nat),
    earlier.trail.steps.length ≤ index → later.trail.steps[index]? = some (.branch branch) →
      branch.condition = some number → earlier.conditions.length ≤ number

/-- Where only one step is added, only its condition has to be looked at. -/
theorem le_of_append {steps : List PathStep} {step : PathStep} {count : Nat}
    (numbered : ∀ branch number, step = .branch branch → branch.condition = some number →
      count ≤ number) (index : Nat) (branch : Branch) (number : Nat)
    (beyond : steps.length ≤ index) (isStep : (steps ++ [step])[index]? = some (.branch branch))
    (isNumber : branch.condition = some number) : count ≤ number := by
  rw [List.getElem?_append_right beyond] at isStep
  have isLast := List.mem_of_getElem? isStep
  rw [List.mem_singleton] at isLast
  exact numbered branch number isLast.symm isNumber

theorem not_getElem?_of_le {steps : List PathStep} {step : PathStep} {index : Nat}
    (beyond : steps.length ≤ index) : steps[index]? ≠ some step := by
  rw [List.getElem?_eq_none beyond]
  simp

namespace Grows

theorem refl (recording : Recording) : recording.Grows recording :=
  ⟨List.prefix_refl _, List.suffix_refl _, rfl, rfl, List.prefix_refl _, List.prefix_refl _,
    List.prefix_refl _, fun _ _ _ beyond isStep => absurd isStep (not_getElem?_of_le beyond)⟩

theorem trans {last : Recording} (first : earlier.Grows later) (second : later.Grows last) :
    earlier.Grows last := by
  refine ⟨first.records.trans second.records, second.source.trans first.source,
    second.format.trans first.format, second.maxLength.trans first.maxLength,
    first.texts.trans second.texts, first.steps.trans second.steps,
    first.conditions.trans second.conditions, ?_⟩
  intro index branch number beyond isStep isNumber
  rcases Nat.lt_or_ge index later.trail.steps.length with before | after
  · rcases second.steps with ⟨added, isAdded⟩
    rw [← isAdded, List.getElem?_append_left before] at isStep
    exact first.numbers index branch number beyond isStep isNumber
  · exact first.conditions.length_le.trans
      (second.numbers index branch number after isStep isNumber)

end Grows

theorem grows_takeInput (recording : Recording) (value : InputValue) :
    recording.Grows (recording.takeInput value) :=
  { Grows.refl recording with
    records := List.prefix_append _ _
    source := List.tail_suffix _ }

theorem grows_takeText (recording : Recording) : recording.Grows recording.takeText :=
  { Grows.refl recording with
    records := List.prefix_append _ _
    source := List.tail_suffix _ }

theorem grows_name (recording : Recording) (text : String) :
    recording.Grows (recording.name text) :=
  { Grows.refl recording with
    texts := recording.lexicon.texts_prefix_intern text }

theorem grows_settle (recording : Recording) (marks outcome : Bool) (condition : PathCondition)
    (site : UInt32) : recording.Grows (recording.settle marks outcome condition site) := by
  rw [settle_eq]
  exact { Grows.refl recording with
    steps := List.prefix_append _ _
    conditions := List.prefix_append _ _
    numbers := le_of_append fun branch number isBranch isNumber => by
      cases isBranch
      rw [(recording.settledBranch_spec marks outcome site).2.2.1] at isNumber
      cases isNumber
      exact Nat.le_refl _ }

/-- The branch stays in the trail, at the position that comes next. -/
theorem Grows.getElem?_steps {marks outcome : Bool} {condition : PathCondition} {site : UInt32}
    (grown : (recording.settle marks outcome condition site).Grows later) :
    later.trail.steps[recording.trail.steps.length]? =
      some (.branch (recording.settledBranch marks outcome site)) := by
  have grownSteps := grown.steps
  rw [settle_eq] at grownSteps
  rcases grownSteps with ⟨added, isAdded⟩
  rw [← isAdded]
  simp

/-- The condition of the branch stays as well, under the number that comes next. -/
theorem Grows.getElem?_conditions {marks outcome : Bool} {condition : PathCondition}
    {site : UInt32} (grown : (recording.settle marks outcome condition site).Grows later) :
    later.conditions[recording.conditions.length]? =
      some (if outcome then condition else condition.negate) := by
  have grownConditions := grown.conditions
  rw [settle_eq] at grownConditions
  rcases grownConditions with ⟨added, isAdded⟩
  rw [← isAdded]
  simp [Recording.conditions]

/-- Branches that come after it have greater numbers. -/
theorem Grows.lt_number {marks outcome : Bool} {condition : PathCondition} {site : UInt32}
    (grown : (recording.settle marks outcome condition site).Grows later) {position number : Nat}
    {branch : Branch} (isLater : recording.trail.steps.length < position)
    (isStep : later.trail.steps[position]? = some (.branch branch))
    (isNumber : branch.condition = some number) : recording.conditions.length < number := by
  have numbers := grown.numbers position branch number
  rw [settle_eq] at numbers
  have := numbers (by simpa using isLater) isStep isNumber
  simpa [Recording.conditions] using this

theorem skipMarker_suffix (marker : String) (source : List String) :
    skipMarker marker source <:+ source := by
  rw [skipMarker]
  split
  · exact List.tail_suffix _
  · exact List.suffix_refl _

theorem grows_scope (recording : Recording) (edge : ScopeEdge) :
    recording.Grows ((Action.scope edge).apply recording) := by
  cases edge
  all_goals
    exact { Grows.refl recording with
      records := List.prefix_append _ _
      source := skipMarker_suffix _ _
      steps := List.prefix_append _ _
      numbers := le_of_append fun _ _ isBranch _ => by cases isBranch }

theorem grows_text (recording : Recording) : recording.Grows recording.text.2 := by
  rw [text_eq]
  apply (grows_takeText recording).trans
  apply (grows_settle _ _ _ _ _).trans
  apply (grows_settle _ _ _ _ _).trans
  exact grows_name _ _

end Recording

theorem Action.grows_apply (action : Action) (recording : Recording) :
    recording.Grows (action.apply recording) := by
  rcases action with _ | _ | _ | edge
  · exact recording.grows_takeInput _
  · exact recording.grows_takeInput _
  · exact recording.grows_text
  · exact recording.grows_scope edge

/-- Running a program adds to what was recorded. -/
theorem EventTree.grows_run (tree : EventTree) (recording : Recording) :
    recording.Grows (tree.run recording) := by
  induction tree generalizing recording with
  | stop => exact .refl recording
  | act action next ih => exact (action.grows_apply recording).trans (ih _)
  | branch condition site whenTrue whenFalse ihTrue ihFalse =>
      rw [run]
      split
      · exact (recording.grows_settle false true condition site).trans (ihTrue _)
      · exact (recording.grows_settle false false condition site).trans (ihFalse _)

/-! ### Well-formed programs -/

namespace Action

theorem requests_apply (action : Action) {recording : Recording} {asked : List InputRecord}
    (requests : recording.records.map InputRecord.request = asked.map InputRecord.request) :
    (action.apply recording).records.map InputRecord.request =
      (asked ++ [action.request recording.nextVar]).map InputRecord.request := by
  have appended (record : InputRecord)
      (same : record.request = (action.request recording.nextVar).request) :
      (recording.records ++ [record]).map InputRecord.request =
        (asked ++ [action.request recording.nextVar]).map InputRecord.request := by
    rw [List.map_append, List.map_append, requests, List.map_singleton, List.map_singleton, same]
  rcases action with _ | _ | _ | (_ | _)
  · exact appended _ rfl
  · exact appended _ rfl
  · rw [apply, Recording.records_text]
    exact appended _ rfl
  · exact appended _ rfl
  · exact appended _ rfl

theorem nextVar_apply (action : Action) (recording : Recording) :
    (action.apply recording).nextVar = recording.nextVar + .ofNat action.width := by
  rcases action with _ | _ | _ | (_ | _)
  · rfl
  · rfl
  · rw [apply, Recording.text_eq, Recording.settle_eq, Recording.settle_eq]
    exact UInt32.add_assoc _ _ _
  · exact (UInt32.add_zero _).symm
  · exact (UInt32.add_zero _).symm

theorem recorded_apply (action : Action) {recording : Recording} (recorded : recording.Recorded)
    (room : recording.HasRoom action.width)
    (short : ∀ line ∈ recording.source, line.length < 2 ^ 63) :
    (action.apply recording).Recorded := by
  rcases action with _ | _ | _ | (_ | _)
  · exact .int recorded room
  · exact .long recorded room
  · exact .text recorded room (Recording.length_head?_lt short)
  · exact .beginScope recorded
  · exact .endScope recorded

end Action

/-- A run of a well-formed program has admissible conditions. -/
theorem EventTree.recorded_run {tree : EventTree} {literals : Nat} {asked : List InputRecord}
    {recording : Recording} (wellFormed : tree.WellFormed literals asked recording.nextVar)
    (requests : recording.records.map InputRecord.request = asked.map InputRecord.request)
    (short : ∀ line ∈ recording.source, line.length < 2 ^ 63) (recorded : recording.Recorded) :
    (tree.run recording).Recorded := by
  induction tree generalizing recording asked with
  | stop => exact recorded
  | act action next ih =>
      rcases wellFormed with ⟨room, rest⟩
      rw [← action.nextVar_apply] at rest
      apply ih rest
      · exact action.requests_apply requests
      · intro line isLine
        exact short line ((action.grows_apply recording).source.subset isLine)
      · exact action.recorded_apply recorded room short
  | branch condition site whenTrue whenFalse ihTrue ihFalse =>
      rcases wellFormed with ⟨admissible, _, restTrue, restFalse⟩
      have branched (outcome : Bool) : (recording.branch outcome (some condition) site).Recorded := by
        apply recorded.branch
        intro own isOwn
        cases isOwn
        exact admissible_of_requests requests admissible
      rw [run]
      split
      · exact ihTrue restTrue requests short (branched true)
      · exact ihFalse restFalse requests short (branched false)

end Concolic
