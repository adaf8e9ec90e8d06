import Mathlib
import Concolic.Proofs.Feasible
import Concolic.Proofs.Program

/-!
# The next run follows the flipped prefix

A search that turns a run aside writes new input lines and keeps a prefix of the trail with its last
branch flipped. Running the program again on these lines records exactly that prefix.

The two runs are compared event by event. Up to the branch that was flipped they are in lockstep
(`Lockstep`): the second run has asked for the same inputs, has read the lines that were written for
them, and has recorded the same steps. The values it has read so far already decide every condition
it comes to, and later inputs do not change that, so each outcome is the one that the solution
promises. That is the outcome of the first run before the flipped branch and the other one at it.
From there on nothing is expected any more (`Aside`), and whatever the program does then, it departs
from nothing.
-/

namespace Concolic

open InputRecord

/-- The input that the next run reads where a record stands. -/
def InputRecord.again (solution : Assignment) (format : InputFormat) (record : InputRecord) :
    InputRecord :=
  record.reread (record.line solution format)

/-- A solution turns a finished run aside at a position of its trail. -/
structure Turn (final : Recording) (solution : Assignment) (position number : Nat) (fork : Branch) :
    Prop where
  distinct : Distinct final.records
  isStep : final.trail.steps[position]? = some (.branch fork)
  isOpen : fork.open? = some number
  turned : Query.TurnedBy final.conditions number final.lexicon
    (nextValues final.records solution final.format)

/-- The second of two runs has read the lines of a solution where the first one, which goes on to the
final recording, has read its own. -/
structure SameInputs (final : Recording) (solution : Assignment) (first second : Recording) :
    Prop where
  records : second.records = first.records.map (again solution final.format)
  source : second.source = (lines final.records solution final.format).drop first.records.length
  format : second.format = final.format
  maxLength : second.maxLength = final.maxLength
  nextVar : second.nextVar = first.nextVar
  texts : final.lexicon.texts <+: second.lexicon.texts

/-- The second of two trails has kept to the flipped prefix and has not come to its last step. -/
structure SamePath (final : Trail) (position : Nat) (first second : Trail) : Prop where
  steps : second.steps = first.steps
  conditions : second.conditions = first.conditions
  expected : second.expected = final.flippedPrefix position
  diverged : second.diverged = false
  before : first.steps.length ≤ position

/-- Two runs of a program that have not come to the flipped branch yet. -/
structure Lockstep (final : Recording) (solution : Assignment) (position : Nat)
    (first second : Recording) : Prop where
  inputs : SameInputs final solution first second
  path : SamePath final.trail position first.trail second.trail

/-- A trail that has taken the flipped prefix and of which nothing is expected any more. -/
structure Aside (final : Trail) (position : Nat) (second : Trail) : Prop where
  steps : final.flippedPrefix position <+: second.steps
  expected : second.expected = final.flippedPrefix position
  diverged : second.diverged = false

theorem Turn.isNumber {final : Recording} {solution : Assignment} {position number : Nat}
    {fork : Branch} (turn : Turn final solution position number fork) :
    fork.condition = some number := by
  have isOpen := turn.isOpen
  rw [Branch.open?] at isOpen
  split at isOpen
  · simp at isOpen
  · exact isOpen

/-! ### After the flipped branch -/

namespace Aside

variable {final : Trail} {position : Nat} {second : Recording}

theorem next?_eq_none (aside : Aside final position second.trail) : second.trail.next? = none := by
  rw [Trail.next?, aside.expected]
  split
  · rfl
  · exact List.getElem?_eq_none aside.steps.length_le

theorem settle (aside : Aside final position second.trail) (marks outcome : Bool)
    (condition : PathCondition) (site : UInt32) :
    Aside final position (second.settle marks outcome condition site).trail := by
  refine ⟨?_, ?_, ?_⟩
  · exact aside.steps.trans (second.grows_settle marks outcome condition site).steps
  · rw [Recording.settle_eq]
    exact aside.expected
  · rw [Recording.settle_of_unexpected aside.next?_eq_none]
    exact aside.diverged

theorem recordScope (aside : Aside final position second.trail) (edge : ScopeEdge) :
    Aside final position (second.trail.recordScope edge) := by
  rw [Trail.recordScope_of_expected]
  · exact ⟨aside.steps.trans (List.prefix_append _ _), aside.expected, aside.diverged⟩
  · simp [aside.next?_eq_none]

theorem apply (aside : Aside final position second.trail) (action : Action) :
    Aside final position (action.apply second).trail := by
  rcases action with _ | _ | _ | (_ | _)
  · exact aside
  · exact aside
  · have taken : Aside final position second.takeText.trail := aside
    rw [Action.apply, Recording.text_eq]
    exact (taken.settle true _ _ 0).settle true _ _ 0
  · exact aside.recordScope .opening
  · exact aside.recordScope .closing

/-- Whatever a program does after the flipped branch departs from nothing. -/
theorem run (aside : Aside final position second.trail) (tree : EventTree) :
    Aside final position (tree.run second).trail := by
  induction tree generalizing second with
  | stop => exact aside
  | act action next ih => exact ih (aside.apply action)
  | branch condition site whenTrue whenFalse ihTrue ihFalse =>
      rw [EventTree.run]
      split
      · exact ihTrue (aside.settle false true condition site)
      · exact ihFalse (aside.settle false false condition site)

theorem run_branch {condition : PathCondition} {site : UInt32}
    (aside : Aside final position
      (second.settle false (second.decides condition) condition site).trail)
    (whenTrue whenFalse : EventTree) :
    Aside final position ((EventTree.branch condition site whenTrue whenFalse).run second).trail := by
  rw [EventTree.run]
  split
  · rename_i isTrue
    rw [isTrue] at aside
    exact aside.run whenTrue
  · rename_i isFalse
    rw [isFalse] at aside
    exact aside.run whenFalse

end Aside

/-! ### Inputs -/

theorem InputRecord.Distinct.of_isPrefix {records earlier : List InputRecord}
    (distinct : Distinct records) (isPrefix : earlier <+: records) : Distinct earlier := by
  rcases isPrefix with ⟨rest, rfl⟩
  rw [Distinct, List.flatMap_append] at distinct
  exact (List.nodup_append.mp distinct).1

theorem Recording.nextValue_of_cons {α : Type} {recording : Recording} {line : String}
    {rest : List String} (source : recording.source = line :: rest) (read? : List Char → Option α)
    (fallback : α) :
    recording.nextValue read? fallback = (read? (Text.trim line.toList)).getD fallback := by
  rw [nextValue, source]
  rfl

namespace SameInputs

variable {final first second later : Recording} {solution : Assignment} {record : InputRecord}

/-- What the second run has read is the beginning of what the written lines denote. -/
theorem records_isPrefix (inputs : SameInputs final solution first second)
    (grown : first.Grows final) :
    second.records <+: rereadAll final.records (lines final.records solution final.format) := by
  rw [inputs.records, rereadAll_lines]
  exact grown.records.map _

theorem requests (inputs : SameInputs final solution first second) :
    second.records.map request = first.records.map request := by
  rw [inputs.records, List.map_map]
  apply List.map_congr_left
  intro record _
  exact request_reread record _

/-- The second run finds the line of the record that the first run makes here. -/
theorem source_eq_cons (inputs : SameInputs final solution first second)
    (grown : later.Grows final) (isRecord : later.records = first.records ++ [record]) :
    second.source = record.line solution final.format ::
      (lines final.records solution final.format).drop later.records.length := by
  rcases grown.records with ⟨rest, isRest⟩
  have isLine : (lines final.records solution final.format)[first.records.length]? =
      some (record.line solution final.format) := by
    rw [lines, List.getElem?_map, ← isRest, isRecord]
    simp
  rcases List.getElem?_eq_some_iff.mp isLine with ⟨inRange, same⟩
  rw [inputs.source, List.drop_eq_getElem_cons inRange, same, isRecord, List.length_append]
  rfl

/-- One more record on both sides. -/
theorem extend {later' : Recording} (inputs : SameInputs final solution first second)
    (grown : later.Grows final) (isRecord : later.records = first.records ++ [record])
    (isRecord' : later'.records = second.records ++ [again solution final.format record])
    (isSource : later'.source = second.source.tail)
    (sameFormat : later'.format = second.format)
    (sameMaxLength : later'.maxLength = second.maxLength)
    (sameLexicon : later'.lexicon = second.lexicon) (sameVar : later'.nextVar = later.nextVar) :
    SameInputs final solution later later' := by
  refine ⟨?_, ?_, ?_, ?_, sameVar, ?_⟩
  · rw [isRecord', isRecord, inputs.records, List.map_append, List.map_singleton]
  · rw [isSource, inputs.source_eq_cons grown isRecord, List.tail_cons]
  · rw [sameFormat, inputs.format]
  · rw [sameMaxLength, inputs.maxLength]
  · rw [sameLexicon]
    exact inputs.texts

/-- A number is read back as the second run reads it from its line. -/
theorem takeNumber {α : Type} {read? : List Char → Option α} {fallback : α} {number : α → InputValue}
    (inputs : SameInputs final solution first second)
    (rereads : ∀ (given : α) (line : String),
      (InputRecord.value first.nextVar (number given)).reread line =
        .value first.nextVar (number ((read? (Text.trim line.toList)).getD fallback)))
    (grown : (first.takeInput (number (first.nextValue read? fallback))).Grows final) :
    SameInputs final solution (first.takeInput (number (first.nextValue read? fallback)))
      (second.takeInput (number (second.nextValue read? fallback))) := by
  have source := inputs.source_eq_cons grown rfl
  refine inputs.extend grown rfl ?_ rfl rfl rfl rfl (congrArg (· + 1) inputs.nextVar)
  apply congrArg (second.records ++ [·])
  rw [Recording.nextValue_of_cons source, inputs.nextVar, again, rereads]

theorem takeText (inputs : SameInputs final solution first second)
    (grown : first.takeText.Grows final) :
    SameInputs final solution first.takeText second.takeText := by
  have source := inputs.source_eq_cons grown rfl
  refine inputs.extend grown rfl ?_ rfl rfl rfl rfl (congrArg (· + 1 + 1) inputs.nextVar)
  apply congrArg (second.records ++ [·])
  rw [source, inputs.nextVar]
  rfl

theorem scope (inputs : SameInputs final solution first second) (edge : ScopeEdge)
    (grown : ((Action.scope edge).apply first).Grows final) :
    SameInputs final solution ((Action.scope edge).apply first)
      ((Action.scope edge).apply second) := by
  cases edge
  all_goals
    have source := inputs.source_eq_cons grown rfl
    refine inputs.extend grown rfl rfl ?_ rfl rfl rfl inputs.nextVar
    apply if_pos
    rw [source, inputs.format]
    rfl

/-- Branches leave the inputs alone. -/
theorem settle (inputs : SameInputs final solution first second) (marks outcome outcome' : Bool)
    (condition : PathCondition) (site : UInt32) :
    SameInputs final solution (first.settle marks outcome condition site)
      (second.settle marks outcome' condition site) := by
  rw [Recording.settle_eq, Recording.settle_eq]
  exact ⟨inputs.records, inputs.source, inputs.format, inputs.maxLength, inputs.nextVar,
    inputs.texts⟩

theorem name (inputs : SameInputs final solution first second) (text text' : String) :
    SameInputs final solution (first.name text) (second.name text') :=
  ⟨inputs.records, inputs.source, inputs.format, inputs.maxLength, inputs.nextVar,
    inputs.texts.trans (second.lexicon.texts_prefix_intern text')⟩

end SameInputs

/-! ### Steps -/

theorem PathCondition.substitute_held {condition : PathCondition} {assignment : Assignment}
    {lexicon : Lexicon} {value : Bool}
    (decided : condition.substitute assignment lexicon = .ofBool value) (outcome : Bool) :
    substitute (if outcome then condition else condition.negate) assignment lexicon =
      .ofBool (value == outcome) := by
  cases outcome with
  | true => simpa using decided
  | false =>
      simp only [Bool.false_eq_true, if_false, substitute_negate, decided, Condition.negate_ofBool]
      cases value <;> rfl

namespace SamePath

variable {final first second : Trail} {position : Nat} {fork : Branch}

theorem next?_of_lt (path : SamePath final position first second)
    (isStep : final.steps[position]? = some (.branch fork))
    (before : first.steps.length < position) :
    second.next? = final.steps[first.steps.length]? := by
  have inRange := (List.getElem?_eq_some_iff.mp isStep).1
  rw [Trail.next?, path.diverged, path.expected, path.steps]
  simp [Trail.getElem?_flippedPrefix inRange, before]

theorem next?_of_eq (path : SamePath final position first second)
    (isStep : final.steps[position]? = some (.branch fork)) (here : first.steps.length = position) :
    second.next? = some (.branch fork.flipped) := by
  have inRange := (List.getElem?_eq_some_iff.mp isStep).1
  rw [Trail.next?, path.diverged, path.expected, path.steps, here]
  simp [Trail.getElem?_flippedPrefix inRange, isStep, PathStep.flipped]

/-- The edge of a scope is not the flipped branch, so it comes before it and was expected. -/
theorem recordScope (path : SamePath final position first second) {edge : ScopeEdge}
    (isStep : final.steps[position]? = some (.branch fork))
    (grown : (first.recordScope edge).steps <+: final.steps) :
    SamePath final position (first.recordScope edge) (second.recordScope edge) := by
  have isEdge : final.steps[first.steps.length]? = some (.scope edge) := by
    rcases grown with ⟨added, isAdded⟩
    rw [← isAdded]
    simp [Trail.recordScope]
  have before : first.steps.length < position := by
    apply Nat.lt_of_le_of_ne path.before
    intro here
    rw [here, isStep] at isEdge
    simp at isEdge
  rw [second.recordScope_of_expected]
  · exact ⟨congrArg (· ++ _) path.steps, path.conditions, path.expected, path.diverged,
      by simpa [Trail.recordScope] using before⟩
  · intro step isNext
    rw [path.next?_of_lt isStep before, isEdge] at isNext
    exact (Option.some.inj isNext).symm

end SamePath

/-! ### Events -/

namespace Lockstep

variable {final first second : Recording} {solution : Assignment} {position number : Nat}
  {fork : Branch}

theorem distinct (lockstep : Lockstep final solution position first second)
    (turn : Turn final solution position number fork) (grown : first.Grows final) :
    Distinct second.records :=
  (turn.distinct.rereadAll_lines solution final.format).of_isPrefix
    (lockstep.inputs.records_isPrefix grown)

/-- The second run decides a condition as the solution promises. -/
theorem substitute_eq_ofBool_decides (lockstep : Lockstep final solution position first second)
    (turn : Turn final solution position number fork) (grown : first.Grows final)
    {condition : PathCondition} (admissible : condition.Admissible first.records)
    (literals : ∀ id ∈ condition.literals, id.val.toNat < final.lexicon.texts.length) :
    condition.substitute (nextValues final.records solution final.format) final.lexicon =
      .ofBool (second.decides condition) := by
  classical
  have distinct := lockstep.distinct turn grown
  have decided := PathCondition.substitute_eq_ofBool_reads (distinct.decidedAt
    (admissible_of_requests lockstep.inputs.requests admissible) final.lexicon)
  have sameTexts : condition.substitute (values second.records) second.lexicon =
      condition.substitute (values second.records) final.lexicon := by
    apply PathCondition.substitute_congr
    intro id isLiteral
    exact Lexicon.text_of_prefix lockstep.inputs.texts (literals id isLiteral)
  have extension : (nextValues final.records solution final.format).Extends
      (values second.records) :=
    (turn.distinct.rereadAll_lines solution final.format).values_extends
      (lockstep.inputs.records_isPrefix grown)
  rw [Recording.decides, sameTexts, decided, Recording.isTruth_ofBool,
    ← condition.substitute_substitute extension, decided]
  exact Condition.resolve_ofBool _

section Settle

variable {marks outcome : Bool} {condition : PathCondition} {site : UInt32}
  (lockstep : Lockstep final solution position first second)
  (turn : Turn final solution position number fork)
  (grown : (first.settle marks outcome condition site).Grows final)

include lockstep turn grown

/-- Before the flipped branch, the outcome is that of the first run. -/
theorem settle_of_lt
    (promised : condition.substitute (nextValues final.records solution final.format)
      final.lexicon = .ofBool (second.decides condition))
    (before : first.trail.steps.length < position) :
    second.decides condition = outcome ∧
      Lockstep final solution position (first.settle marks outcome condition site)
        (second.settle marks outcome condition site) := by
  rcases first.settledBranch_spec marks outcome site with ⟨isTaken, isSite, isNumber, isDone⟩
  have isEarlier := grown.lt_number before turn.isStep turn.isNumber
  have isHeld : (if outcome then condition else condition.negate) ∈
      final.conditions.take number := by
    apply List.mem_of_getElem?
    rw [List.getElem?_take_of_lt isEarlier, grown.getElem?_conditions]
  have holds := turn.turned.1 _ isHeld
  rw [PathCondition.substitute_held promised, Condition.ofBool_eq_truth_iff, beq_iff_eq] at holds
  refine ⟨holds, lockstep.inputs.settle _ _ _ _ _, ?_⟩
  have expected := (lockstep.path.next?_of_lt turn.isStep before).trans grown.getElem?_steps
  have sameCount : second.conditions.length = first.conditions.length :=
    congrArg List.length lockstep.path.conditions
  rw [second.settle_of_expected expected isTaken isSite (by rw [isNumber, sameCount]) isDone,
    first.settle_eq]
  exact ⟨congrArg (· ++ _) lockstep.path.steps, congrArg (· ++ _) lockstep.path.conditions,
    lockstep.path.expected, lockstep.path.diverged, by simpa using before⟩

/-- At the flipped branch, the outcome is the other one. -/
theorem settle_of_eq
    (promised : condition.substitute (nextValues final.records solution final.format)
      final.lexicon = .ofBool (second.decides condition))
    (here : first.trail.steps.length = position) :
    Aside final.trail position
      (second.settle marks (second.decides condition) condition site).trail := by
  rcases first.settledBranch_spec marks outcome site with ⟨isTaken, isSite, isNumber, _⟩
  have isFork : first.settledBranch marks outcome site = fork := by
    have atPosition := grown.getElem?_steps
    rw [here, turn.isStep] at atPosition
    simpa [eq_comm] using atPosition
  rw [isFork] at isTaken isSite isNumber
  have isLast : number = first.conditions.length :=
    Option.some.inj (turn.isNumber.symm.trans isNumber)
  have isOther : second.decides condition = !outcome := by
    rcases turn.turned.2 with ⟨own, isOwn, fails⟩
    rw [isLast, grown.getElem?_conditions] at isOwn
    cases isOwn
    rw [PathCondition.substitute_held promised, Condition.ofBool_eq_falsity_iff] at fails
    exact Bool.eq_not.mpr (beq_eq_false_iff_ne.mp fails)
  have sameCount : second.conditions.length = first.conditions.length :=
    congrArg List.length lockstep.path.conditions
  rw [second.settle_of_expected (lockstep.path.next?_of_eq turn.isStep here)
    (by rw [isOther, Branch.flipped, isTaken]) isSite (by rw [sameCount]; exact isNumber)
    fun _ => rfl]
  refine ⟨?_, lockstep.path.expected, lockstep.path.diverged⟩
  have sameSteps : second.trail.steps = final.trail.steps.take position := by
    have grownSteps := ((first.grows_settle marks outcome condition site).trans grown).steps
    rw [lockstep.path.steps, ← here]
    exact List.prefix_iff_eq_take.mp grownSteps
  rw [Trail.flippedPrefix_eq turn.isStep, ← sameSteps]

/-- A branch keeps the runs in lockstep, or it is the flipped one. -/
theorem settle (admissible : condition.Admissible first.records)
    (literals : ∀ id ∈ condition.literals, id.val.toNat < final.lexicon.texts.length) :
    (second.decides condition = outcome ∧
        Lockstep final solution position (first.settle marks outcome condition site)
          (second.settle marks outcome condition site)) ∨
      Aside final.trail position
        (second.settle marks (second.decides condition) condition site).trail := by
  have promised := lockstep.substitute_eq_ofBool_decides turn
    ((first.grows_settle marks outcome condition site).trans grown) admissible literals
  rcases Nat.lt_or_eq_of_le lockstep.path.before with before | here
  · exact .inl (lockstep.settle_of_lt turn grown promised before)
  · exact .inr (lockstep.settle_of_eq turn grown promised here)

end Settle

/-- A string input keeps the runs in lockstep, or one of its guards is the flipped branch. -/
theorem text (lockstep : Lockstep final solution position first second)
    (turn : Turn final solution position number fork) (grown : first.text.2.Grows final)
    (nonneg : 0 ≤ final.maxLength) (short : (first.source.head?.getD "").length < 2 ^ 63) :
    Lockstep final solution position first.text.2 second.text.2 ∨
      Aside final.trail position second.text.2.trail := by
  have sameMax : final.maxLength = first.maxLength :=
    ((first.grows_text).trans grown).maxLength
  rw [first.text_eq] at grown ⊢
  rw [second.text_eq, lockstep.inputs.nextVar, lockstep.inputs.maxLength, ← sameMax]
  rw [← sameMax] at grown
  have grownUpper := (Recording.grows_name _ _).trans grown
  have grownLower := (Recording.grows_settle _ _ _ _ _).trans grownUpper
  have grownTaken := (Recording.grows_settle _ _ _ _ _).trans grownLower
  have taken : Lockstep final solution position first.takeText second.takeText :=
    ⟨lockstep.inputs.takeText grownTaken, lockstep.path⟩
  have hasText : HasText first.takeText.records first.nextVar (first.nextVar + 1) :=
    ⟨_, List.mem_append_right _ List.mem_cons_self⟩
  have isRecord : .value first.nextVar (.text (second.source.head?.getD "") (first.nextVar + 1)) ∈
      second.takeText.records := by
    rw [← lockstep.inputs.nextVar]
    exact List.mem_append_right _ List.mem_cons_self
  have distinct := taken.distinct turn grownTaken
  have lower := Recording.decides_lowerGuard distinct isRecord
  rcases taken.settle turn grownLower (Recording.admissible_lowerGuard hasText)
    (fun _ isLiteral => absurd isLiteral List.not_mem_nil) with ⟨isLower, guarded⟩ | aside
  · rw [lower] at isLower
    have lengthNonneg : 0 ≤ Int64.ofNat (second.source.head?.getD "").length :=
      of_decide_eq_true (isLower.trans (Recording.nonneg_ofNat_length short))
    have upper := Recording.decides_upperGuard distinct isRecord nonneg lengthNonneg
    rw [isLower]
    rcases guarded.settle turn grownUpper
      (Recording.admissible_upperGuard (by rwa [Recording.settle_eq]) final.maxLength)
      (fun _ isLiteral => absurd isLiteral List.not_mem_nil) with ⟨isUpper, both⟩ | aside
    · rw [Recording.decides_settle, upper] at isUpper
      rw [isUpper]
      exact .inl ⟨both.inputs.name _ _, both.path⟩
    · rw [Recording.decides_settle, upper] at aside
      exact .inr aside
  · rw [lower] at aside
    exact .inr (aside.settle true _ _ 0)

theorem apply (lockstep : Lockstep final solution position first second)
    (turn : Turn final solution position number fork) (action : Action)
    (grown : (action.apply first).Grows final) (nonneg : 0 ≤ final.maxLength)
    (short : ∀ line ∈ first.source, line.length < 2 ^ 63) :
    Lockstep final solution position (action.apply first) (action.apply second) ∨
      Aside final.trail position (action.apply second).trail := by
  rcases action with _ | _ | _ | (_ | _)
  · exact .inl ⟨lockstep.inputs.takeNumber (fun _ _ => rfl) grown, lockstep.path⟩
  · exact .inl ⟨lockstep.inputs.takeNumber (fun _ _ => rfl) grown, lockstep.path⟩
  · exact lockstep.text turn grown nonneg (Recording.length_head?_lt short)
  · exact .inl ⟨lockstep.inputs.scope _ grown, lockstep.path.recordScope turn.isStep grown.steps⟩
  · exact .inl ⟨lockstep.inputs.scope _ grown, lockstep.path.recordScope turn.isStep grown.steps⟩

/-- From lockstep on, the second run comes to the flipped branch and takes its other side. -/
theorem run {tree : EventTree} {literals : Nat} {asked : List InputRecord}
    (lockstep : Lockstep final solution position first second) (isFinal : tree.run first = final)
    (turn : Turn final solution position number fork)
    (wellFormed : tree.WellFormed literals asked first.nextVar)
    (requests : first.records.map request = asked.map request)
    (known : literals ≤ final.lexicon.texts.length) (nonneg : 0 ≤ final.maxLength)
    (short : ∀ line ∈ first.source, line.length < 2 ^ 63) :
    Aside final.trail position (tree.run second).trail := by
  induction tree generalizing first second asked with
  | stop =>
      cases isFinal
      have inRange := (List.getElem?_eq_some_iff.mp turn.isStep).1
      have before := lockstep.path.before
      exact absurd inRange (Nat.not_lt_of_le before)
  | act action next ih =>
      rcases wellFormed with ⟨_, rest⟩
      rw [← action.nextVar_apply] at rest
      have grown : (action.apply first).Grows final := isFinal ▸ next.grows_run _
      rcases lockstep.apply turn action grown nonneg short with goesOn | aside
      · apply ih goesOn isFinal rest (action.requests_apply requests)
        intro line isLine
        exact short line ((action.grows_apply first).source.subset isLine)
      · exact aside.run next
  | branch condition site whenTrue whenFalse ihTrue ihFalse =>
      rcases wellFormed with ⟨admissible, below, restTrue, restFalse⟩
      have ofRecords := admissible_of_requests requests admissible
      have isKnown : ∀ id ∈ condition.literals, id.val.toNat < final.lexicon.texts.length :=
        fun id isLiteral => (below id isLiteral).trans_le known
      rw [EventTree.run] at isFinal
      split at isFinal
      · have grown : (first.settle false true condition site).Grows final :=
          isFinal ▸ whenTrue.grows_run _
        rcases lockstep.settle turn grown ofRecords isKnown with ⟨isTrue, goesOn⟩ | aside
        · rw [EventTree.run, isTrue]
          exact ihTrue goesOn isFinal restTrue requests short
        · exact aside.run_branch whenTrue whenFalse
      · have grown : (first.settle false false condition site).Grows final :=
          isFinal ▸ whenFalse.grows_run _
        rcases lockstep.settle turn grown ofRecords isKnown with ⟨isFalse, goesOn⟩ | aside
        · rw [EventTree.run, isFalse]
          exact ihFalse goesOn isFinal restFalse requests short
        · exact aside.run_branch whenTrue whenFalse

end Lockstep

theorem Lockstep.start (final : Recording) (solution : Assignment) (position : Nat)
    (source : List String) (expected : List PathStep) (lexicon : Lexicon) :
    Lockstep final solution position
      (.start source expected final.format final.maxLength lexicon)
      (.start (lines final.records solution final.format) (final.trail.flippedPrefix position)
        final.format final.maxLength final.lexicon) :=
  ⟨⟨rfl, rfl, rfl, rfl, rfl, List.prefix_rfl⟩, ⟨rfl, rfl, rfl, rfl, Nat.zero_le _⟩⟩

namespace EventTree

/-- If the search finds a step of a finished run to flip, then the program, run again on the lines
that were written, records the flipped prefix step by step and departs from nothing. The steps before
the flipped branch are those of the finished run with all their marks, and the branch itself is taken
the other way and is done. -/
theorem rerun_records_flippedPrefix {tree : EventTree} {literals : Nat}
    (wellFormed : tree.WellFormed literals [] 1) {maxLength : Int64} (nonneg : 0 ≤ maxLength)
    {source : List String} (short : ∀ line ∈ source, line.length < 2 ^ 63)
    {expected : List PathStep} {format : InputFormat} {lexicon : Lexicon} {final : Recording}
    (isFinal : tree.run (.start source expected format maxLength lexicon) = final)
    (known : literals ≤ final.lexicon.texts.length) {solver : Solver}
    (honest : solver.Honest (IsLength final.records)) {settings : SolverSettings}
    {inputsFile : String} {bench after : Bench} {position : Nat}
    (found : Search.depthFirst (Problem.ofRecording solver settings inputsFile final).solveAt
      final.trail bench = (.ok (some position), after)) :
    ∃ solution fork rerun,
      after.solution = some solution ∧
      after.directory.read inputsFile =
        .ok (Text.unlines (lines final.records solution format)) ∧
      tree.run (.start (lines final.records solution format) (final.trail.flippedPrefix position)
        format maxLength final.lexicon) = rerun ∧
      rerun.trail.diverged = false ∧
      rerun.trail.steps.take (position + 1) = final.trail.flippedPrefix position ∧
      (∀ index < position, rerun.trail.steps[index]? = final.trail.steps[index]?) ∧
      final.trail.steps[position]? = some (.branch fork) ∧
      rerun.trail.steps[position]? =
        some (.branch { fork with taken := !fork.taken, done := true }) := by
  have recorded := recorded_run wellFormed rfl short (.start source expected format maxLength lexicon)
  have grown := tree.grows_run (.start source expected format maxLength lexicon)
  rw [isFinal] at recorded grown
  have sameFormat : final.format = format := grown.format
  have sameMaxLength : final.maxLength = maxLength := grown.maxLength
  cases sameFormat
  cases sameMaxLength
  rcases Search.exists_answer_of_depthFirst found with ⟨fork, number, before, isStep, isOpen, solved⟩
  have invariant := recorded.invariant
  rcases (invariant.turnable fork (List.mem_of_getElem? isStep) number isOpen).posed
    invariant.distinct solver settings inputsFile with ⟨visible, posed⟩
  rcases posed.turned_of_solveAt honest solved with ⟨solution, isSolution, isWritten, turned⟩
  have aside := (Lockstep.start final solution position source expected lexicon).run isFinal
    ⟨invariant.distinct, isStep, isOpen, turned⟩ wellFormed rfl known nonneg short
  have inRange := (List.getElem?_eq_some_iff.mp isStep).1
  have isPrefix := List.prefix_iff_eq_take.mp aside.steps
  rw [Trail.length_flippedPrefix inRange] at isPrefix
  refine ⟨solution, fork, _, isSolution, isWritten, rfl, aside.diverged, isPrefix.symm, ?_, isStep, ?_⟩
  · intro index isBefore
    rw [← List.getElem?_take_of_lt (Nat.lt_succ_of_lt isBefore), ← isPrefix,
      Trail.getElem?_flippedPrefix inRange, if_pos isBefore]
  · rw [← List.getElem?_take_of_lt (Nat.lt_succ_self position), ← isPrefix,
      Trail.getElem?_flippedPrefix inRange, if_neg (Nat.lt_irrefl _), if_pos rfl, isStep]
    rfl

/-- A program that reads a number and a string in a scope and asks for more if the string does not
start with the first literal text. -/
def greeter : EventTree :=
  .act (.scope .opening) <| .act .int <| .act .text <| .act (.scope .closing) <|
    .branch (.test true { kind := .startsWith 0, subject := .input 2 3, pattern := .literal ⟨0⟩ }) 9
      .stop (.act .long .stop)

theorem wellFormed_greeter : greeter.WellFormed 1 [] 1 := by
  refine ⟨by decide, by decide, by decide, by decide, ⟨by simp, ?_, ?_⟩, ?_, trivial, by decide, trivial⟩
  · intro symbol length isInput
    cases List.mem_singleton.mp isInput
    exact ⟨"", List.mem_append_left _ (List.mem_append_right _ (List.mem_singleton.mpr rfl))⟩
  · intro symbol length isInput
    cases List.mem_singleton.mp isInput
  · decide

/-- What the program records if the string is `hi`. -/
def greeted : Recording :=
  greeter.run (.start ["[", "7", "hi", "]"] [] {} 100 (.ofTexts ["h"]))

/-- The last of the five steps is flipped, and the next run keeps to the four before it. -/
theorem greeter_records_flippedPrefix :
    ∃ after solution fork rerun,
      Search.depthFirst (Problem.ofRecording (.ofTable Recording.greetingAnswers) {} "inputs"
        greeted).solveAt greeted.trail {} = (.ok (some 4), after) ∧
      after.solution = some solution ∧
      after.directory.read "inputs" = .ok (Text.unlines (lines greeted.records solution {})) ∧
      greeter.run (.start (lines greeted.records solution {}) (greeted.trail.flippedPrefix 4) {} 100
        greeted.lexicon) = rerun ∧
      rerun.trail.diverged = false ∧
      rerun.trail.steps.take 5 = greeted.trail.flippedPrefix 4 ∧
      (∀ index < 4, rerun.trail.steps[index]? = greeted.trail.steps[index]?) ∧
      greeted.trail.steps[4]? = some (.branch fork) ∧
      rerun.trail.steps[4]? =
        some (.branch { fork with taken := !fork.taken, done := true }) := by
  have honest : (Solver.ofTable Recording.greetingAnswers).Honest (IsLength greeted.records) :=
    Solver.honest_ofTable (by decide +kernel) _
  have succeeds : (Search.depthFirst (Problem.ofRecording (.ofTable Recording.greetingAnswers) {}
      "inputs" greeted).solveAt greeted.trail {}).1 = .ok (some 4) := by decide +kernel
  generalize found : Search.depthFirst (Problem.ofRecording (.ofTable Recording.greetingAnswers) {}
    "inputs" greeted).solveAt greeted.trail {} = result at succeeds ⊢
  rcases result with ⟨outcome, after⟩
  cases succeeds
  rcases rerun_records_flippedPrefix wellFormed_greeter (by decide) (by decide) rfl
    (by decide +kernel : 1 ≤ greeted.lexicon.texts.length) honest found with
    ⟨solution, fork, rerun, isRerun⟩
  exact ⟨after, solution, fork, rerun, rfl, isRerun⟩

end EventTree

end Concolic
