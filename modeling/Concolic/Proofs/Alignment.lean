import Mathlib
import Concolic.Proofs.Calls

/-!
# The conditions of a run

The branches of a run are the ones that its calls supply (`Recording.supplied`). A branch supplies
itself, and a string input supplies the two guards of its length. Each is recorded with its outcome
and, where it has a condition, with the number of what is kept of it: the condition itself, or its
negation where the outcome was false.

If every branch that the program reports has the outcome that its condition has under the values
handed out so far, what is kept holds at that time. Later inputs give values to other variables
only, so it still holds at the end.
-/

namespace Concolic

open InputRecord

/-! ### Reading under more values -/

namespace PathCondition

variable {assignment small large : Assignment} {lexicon : Lexicon} {condition : PathCondition}

theorem decidedAt_of_extends (extension : large.Extends small)
    (decided : condition.Every (.decidedAt small lexicon)) :
    condition.Every (.decidedAt large lexicon) := by
  have bound (var : Variable) (isBound : ∃ value, small.get? var = some value) :
      ∃ value, large.get? var = some value := by
    rcases isBound with ⟨value, isValue⟩
    exact ⟨value, extension var value isValue⟩
  apply Condition.Every.mono decided
  · intro sum inScope var occurs
    exact bound var (inScope var occurs)
  · rintro left right ⟨leftScope, rightScope⟩
    exact ⟨fun var occurs => bound var (leftScope var occurs),
      fun var occurs => bound var (rightScope var occurs)⟩
  · rintro question ⟨notRegex, ⟨subject, subjectKnown⟩, pattern, patternKnown⟩
    exact ⟨notRegex, ⟨subject, SymText.concrete?_of_extends extension subjectKnown⟩, pattern,
      SymText.concrete?_of_extends extension patternKnown⟩

theorem substitute_eq_truth_iff_reads (decided : condition.Every (.decidedAt assignment lexicon)) :
    condition.substitute assignment lexicon = .truth ↔ condition.Reads assignment lexicon := by
  classical
  rw [substitute_eq_ofBool_reads decided, Condition.ofBool_eq_truth_iff, decide_eq_true_eq]

/-- More values do not change how a decided condition reads. -/
theorem reads_of_extends (extension : large.Extends small)
    (decided : condition.Every (.decidedAt small lexicon)) :
    condition.Reads large lexicon ↔ condition.Reads small lexicon := by
  classical
  rw [← substitute_eq_truth_iff_reads (decidedAt_of_extends extension decided),
    ← substitute_eq_truth_iff_reads decided, ← condition.substitute_substitute extension,
    substitute_eq_ofBool_reads decided, substitute, Condition.resolve_ofBool]

theorem reads_negate (decided : condition.Every (.decidedAt assignment lexicon)) :
    Reads assignment lexicon condition.negate ↔ ¬condition.Reads assignment lexicon := by
  classical
  rw [← substitute_eq_truth_iff_reads (Condition.every_negate.mpr decided), substitute_negate,
    substitute_eq_ofBool_reads decided, Condition.negate_ofBool, Condition.ofBool_eq_truth_iff,
    Bool.not_eq_true', decide_eq_false_iff_not]

end PathCondition

/-! ### What calls supply -/

/-- A branch as it is supplied. -/
structure Supply where
  outcome : Bool
  condition : Option PathCondition

namespace Supply

variable {supply : Supply} {assignment small large : Assignment} {lexicon : Lexicon}

/-- What is kept of the condition. -/
def held (supply : Supply) : Option PathCondition :=
  supply.condition.map fun condition => if supply.outcome then condition else condition.negate

/-- The condition is decided, and the outcome is its truth. -/
def TrueAt (assignment : Assignment) (lexicon : Lexicon) (supply : Supply) : Prop :=
  ∀ condition ∈ supply.condition, condition.Every (.decidedAt assignment lexicon) ∧
    (supply.outcome = true ↔ condition.Reads assignment lexicon)

/-- The branch has the outcome, and its number is that of the condition that is kept. -/
def RecordedAs (conditions : List PathCondition) (branch : Branch) (supply : Supply) : Prop :=
  branch.taken = supply.outcome ∧
    branch.condition.map (conditions[·]?) = supply.held.map some

theorem TrueAt.of_extends (extension : large.Extends small)
    (isTrue : supply.TrueAt small lexicon) : supply.TrueAt large lexicon := by
  intro condition isOwn
  rcases isTrue condition isOwn with ⟨decided, reads⟩
  refine ⟨PathCondition.decidedAt_of_extends extension decided, ?_⟩
  rw [PathCondition.reads_of_extends extension decided]
  exact reads

/-- What is kept holds. -/
theorem TrueAt.held (isTrue : supply.TrueAt assignment lexicon) {condition : PathCondition}
    (isHeld : supply.held = some condition) :
    condition.Reads assignment lexicon ∧ condition.substitute assignment lexicon = .truth := by
  rcases Option.map_eq_some_iff.mp isHeld with ⟨own, isOwn, rfl⟩
  rcases isTrue own isOwn with ⟨decided, reads⟩
  cases outcome : supply.outcome with
  | true =>
      have holds := reads.mp outcome
      exact ⟨holds, (PathCondition.substitute_eq_truth_iff_reads decided).mpr holds⟩
  | false =>
      have fails : ¬own.Reads assignment lexicon := by
        rw [← reads, outcome]
        exact Bool.false_ne_true
      have holds := (PathCondition.reads_negate decided).mpr fails
      have stillDecided := Condition.every_negate.mpr decided
      exact ⟨holds, (PathCondition.substitute_eq_truth_iff_reads stillDecided).mpr holds⟩

/-- Later conditions have later numbers. -/
theorem RecordedAs.append {conditions : List PathCondition} {branch : Branch}
    (recordedAs : RecordedAs conditions branch supply) (added : List PathCondition) :
    RecordedAs (conditions ++ added) branch supply := by
  rcases recordedAs with ⟨isTaken, isNumber⟩
  refine ⟨isTaken, ?_⟩
  cases isSome : branch.condition with
  | none =>
      rw [isSome] at isNumber
      exact isNumber
  | some number =>
      rw [isSome, Option.map_some] at isNumber
      rcases Option.map_eq_some_iff.mp isNumber.symm with ⟨condition, _, found⟩
      rcases List.getElem?_eq_some_iff.mp found.symm with ⟨inRange, _⟩
      rw [← isNumber, Option.map_some, List.getElem?_append_left inRange]

end Supply

namespace Recording

variable {recording : Recording} {supplies : List Supply}

/-- The branches that a call supplies. -/
def supplied (recording : Recording) : Event → List Supply
  | .branch outcome condition _ => [⟨outcome, condition⟩]
  | .textInput =>
      let size := Int64.ofNat (recording.source.head?.getD "").length
      [⟨0 ≤ size, some (lowerGuard (recording.nextVar + 1))⟩,
        ⟨size ≤ recording.maxLength,
          some (upperGuard (recording.nextVar + 1) recording.maxLength)⟩]
  | .intInput | .longInput | .floatInput | .beginScope | .endScope | .branchDone
  | .branchForced => []

/-- The branches that calls supply, in order. -/
def suppliedAll : Recording → List Event → List Supply
  | _, [] => []
  | recording, event :: rest =>
      recording.supplied event ++ (recording.report event).suppliedAll rest

/-! ### Alignment -/

/-- The branches and the conditions are those that were supplied. -/
structure Aligned (recording : Recording) (supplies : List Supply) : Prop where
  branches :
    List.Forall₂ (Supply.RecordedAs recording.conditions) recording.trail.branches supplies
  conditions : recording.conditions = supplies.filterMap Supply.held

namespace Aligned

theorem branch (aligned : recording.Aligned supplies) (outcome : Bool)
    (condition : Option PathCondition) (site : UInt32) :
    (recording.branch outcome condition site).Aligned (supplies ++ [⟨outcome, condition⟩]) := by
  have conditions := conditions_branch recording outcome condition site
  rcases Trail.branches_recordBranch recording.trail outcome
    (condition.map fun own => if outcome then own else own.negate) site with
    ⟨added, isTaken, isNumber, branches⟩
  refine ⟨?_, ?_⟩
  · rw [conditions]
    refine branches ▸ List.rel_append ?_ (.cons ⟨isTaken, ?_⟩ .nil)
    · exact aligned.branches.imp fun _ _ recordedAs => recordedAs.append _
    · rw [isNumber]
      cases condition with
      | none => rfl
      | some own => simp [Supply.held, Recording.conditions]
  · rw [conditions, aligned.conditions, List.filterMap_append]
    cases condition <;> rfl

/-- Marks are not seen. -/
theorem of_marks {later : Recording} (aligned : recording.Aligned supplies)
    (conditions : later.conditions = recording.conditions)
    (branches : later.trail.branches.map (fun branch => (branch.taken, branch.condition)) =
      recording.trail.branches.map fun branch => (branch.taken, branch.condition)) :
    later.Aligned supplies := by
  refine ⟨?_, conditions.trans aligned.conditions⟩
  have seen : List.Forall₂
      (fun (view : Bool × Option Nat) supply => view.1 = supply.outcome ∧
        view.2.map (recording.conditions[·]?) = supply.held.map some)
      (recording.trail.branches.map fun branch => (branch.taken, branch.condition)) supplies :=
    List.forall₂_map_left_iff.mpr aligned.branches
  rw [← branches, List.forall₂_map_left_iff] at seen
  rw [conditions]
  exact seen

/-- Marking the last branch keeps what is seen of it. -/
theorem mark (aligned : recording.Aligned supplies) {change : Branch → Branch}
    (unseen : ∀ branch, (change branch).taken = branch.taken ∧
      (change branch).condition = branch.condition) :
    { recording with trail := { recording.trail with
        steps := PathStep.changeLastBranch change recording.trail.steps } }.Aligned supplies := by
  apply aligned.of_marks (by rfl)
  apply Trail.map_branches_changeLastBranch
  intro branch
  rw [(unseen branch).1, (unseen branch).2]

theorem markDone (aligned : recording.Aligned supplies) : recording.markDone.Aligned supplies :=
  aligned.mark fun _ => ⟨rfl, rfl⟩

theorem markForced (aligned : recording.Aligned supplies) :
    recording.markForced.Aligned supplies :=
  aligned.mark fun _ => ⟨rfl, rfl⟩

theorem scope {later : Recording} (aligned : recording.Aligned supplies) {edge : ScopeEdge}
    (trail : later.trail = recording.trail.recordScope edge) : later.Aligned supplies := by
  apply aligned.of_marks
  · rw [Recording.conditions, trail]
    rfl
  · rw [trail, Trail.branches_recordScope]

theorem settle (aligned : recording.Aligned supplies) (marks outcome : Bool)
    (condition : PathCondition) (site : UInt32) :
    (recording.settle marks outcome condition site).Aligned
      (supplies ++ [⟨outcome, some condition⟩]) := by
  have branched := aligned.branch outcome (some condition) site
  rw [Recording.settle]
  split
  · exact branched.markDone
  · exact branched

theorem report (aligned : recording.Aligned supplies) (event : Event) :
    (recording.report event).Aligned (supplies ++ recording.supplied event) := by
  cases event with
  | intInput | longInput | floatInput =>
      rw [supplied, List.append_nil]
      exact ⟨aligned.branches, aligned.conditions⟩
  | textInput =>
      have taken : recording.takeText.Aligned supplies := ⟨aligned.branches, aligned.conditions⟩
      have guarded := (taken.settle true (0 ≤ Int64.ofNat (recording.source.head?.getD "").length)
        (lowerGuard (recording.nextVar + 1)) 0).settle true
        (Int64.ofNat (recording.source.head?.getD "").length ≤ recording.maxLength)
        (upperGuard (recording.nextVar + 1) recording.maxLength) 0
      rw [List.append_assoc] at guarded
      rw [Recording.report, text_eq]
      exact ⟨guarded.branches, guarded.conditions⟩
  | beginScope | endScope =>
      rw [supplied, List.append_nil]
      exact aligned.scope rfl
  | branch outcome condition site => exact aligned.branch outcome condition site
  | branchDone =>
      rw [supplied, List.append_nil]
      exact aligned.markDone
  | branchForced =>
      rw [supplied, List.append_nil]
      exact aligned.markForced

theorem reportAll (aligned : recording.Aligned supplies) (events : List Event) :
    (recording.reportAll events).Aligned (supplies ++ recording.suppliedAll events) := by
  induction events generalizing recording supplies with
  | nil =>
      rw [suppliedAll, List.append_nil]
      exact aligned
  | cons event rest ih =>
      rw [suppliedAll, ← List.append_assoc]
      exact ih (aligned.report event)

end Aligned

theorem aligned_start (lines : List String) (expected : List PathStep) (format : InputFormat)
    (maxLength : Int64) (lexicon : Lexicon) :
    (start lines expected format maxLength lexicon).Aligned [] :=
  ⟨.nil, rfl⟩

end Recording

/-! ### Truth -/

/-- The number of variables that a call takes. -/
def Event.width : Event → Nat
  | .intInput | .longInput | .floatInput => 1
  | .textInput => 2
  | .beginScope | .endScope | .branch _ _ _ | .branchDone | .branchForced => 0

namespace Recording

variable {recording : Recording} {event : Event} {lexicon : Lexicon} {more : Nat}

/-- A branch that the program reports has the outcome that its condition has under the values
handed out so far. -/
def TruthfulAt (lexicon : Lexicon) (recording : Recording) : Event → Prop
  | .branch outcome condition _ =>
      Supply.TrueAt (values recording.records) lexicon ⟨outcome, condition⟩
  | _ => True

/-- So do the branches of all calls. -/
def Truthful (lexicon : Lexicon) : Recording → List Event → Prop
  | _, [] => True
  | recording, event :: rest =>
      recording.TruthfulAt lexicon event ∧ (recording.report event).Truthful lexicon rest

/-- The recording can take so many variables more. -/
structure Ready (recording : Recording) (width : Nat) : Prop where
  fresh : recording.Fresh
  nonneg : 0 ≤ recording.maxLength
  short : ∀ line ∈ recording.source, line.length < 2 ^ 63
  room : recording.HasRoom width

theorem fresh_report (fresh : recording.Fresh) (room : recording.HasRoom event.width) :
    (recording.report event).Fresh := by
  cases event with
  | intInput | longInput | floatInput => exact fresh.takeInput room (by simp)
  | textInput =>
      apply fresh.extend_text room recording.records_text
      exact (Action.nextVar_apply .text recording).trans (UInt32.add_assoc _ 1 1).symm
  | beginScope =>
      have noIds : InputRecord.scopeBegin.ids = [] := rfl
      exact fresh.extend_edge noIds rfl rfl
  | endScope =>
      have noIds : InputRecord.scopeEnd.ids = [] := rfl
      exact fresh.extend_edge noIds rfl rfl
  | branch | branchDone | branchForced => exact ⟨fresh.below, fresh.distinct⟩

/-- Records are only added, lines only taken, and the greatest length stays. -/
theorem inputs_report (recording : Recording) (event : Event) :
    recording.records <+: (recording.report event).records ∧
      (recording.report event).source <:+ recording.source ∧
      (recording.report event).maxLength = recording.maxLength := by
  have ofGrows {later : Recording} (grows : recording.Grows later) :
      recording.records <+: later.records ∧ later.source <:+ recording.source ∧
        later.maxLength = recording.maxLength :=
    ⟨grows.records, grows.source, grows.maxLength⟩
  cases event with
  | intInput | longInput | floatInput => exact ofGrows (recording.grows_takeInput _)
  | textInput => exact ofGrows recording.grows_text
  | beginScope => exact ofGrows (recording.grows_scope .opening)
  | endScope => exact ofGrows (recording.grows_scope .closing)
  | branch | branchDone | branchForced =>
      exact ⟨List.prefix_refl _, List.suffix_refl _, rfl⟩

theorem nextVar_report (recording : Recording) (event : Event) :
    (recording.report event).nextVar = recording.nextVar + .ofNat event.width := by
  cases event with
  | intInput | longInput | floatInput => rfl
  | textInput => exact Action.nextVar_apply .text recording
  | _ => exact (UInt32.add_zero _).symm

theorem Ready.report (ready : recording.Ready (event.width + more)) :
    (recording.report event).Ready more := by
  rcases recording.inputs_report event with ⟨_, source, maxLength⟩
  have room := ready.room
  rw [HasRoom] at room
  refine ⟨?_, ?_, ?_, ?_⟩
  · apply fresh_report ready.fresh
    rw [HasRoom]
    omega
  · rw [maxLength]
    exact ready.nonneg
  · intro line isLine
    exact ready.short line (source.subset isLine)
  · rw [HasRoom, nextVar_report, UInt32.toNat_add, UInt32.toNat_ofNat']
    omega

/-- The values decide a condition as it reads. -/
theorem decides_eq_true_iff {condition : PathCondition}
    (decided : condition.Every (.decidedAt (values recording.records) recording.lexicon)) :
    recording.decides condition = true ↔
      condition.Reads (values recording.records) recording.lexicon := by
  classical
  rw [decides, PathCondition.substitute_eq_ofBool_reads decided, isTruth_ofBool, decide_eq_true_eq]

/-- The guards of a string say what its length is. -/
theorem trueAt_guards (recording : Recording) {symbol length : UInt32} {text : String}
    {maxLength : Int64} (distinct : Distinct recording.records)
    (isRecord : .value symbol (.text text length) ∈ recording.records)
    (short : text.length < 2 ^ 63) (nonneg : 0 ≤ maxLength) :
    Supply.TrueAt (values recording.records) recording.lexicon
        ⟨0 ≤ Int64.ofNat text.length, some (lowerGuard length)⟩ ∧
      Supply.TrueAt (values recording.records) recording.lexicon
        ⟨Int64.ofNat text.length ≤ maxLength, some (upperGuard length maxLength)⟩ := by
  have lower := distinct.decidedAt (admissible_lowerGuard ⟨text, isRecord⟩) recording.lexicon
  have upper := distinct.decidedAt (admissible_upperGuard ⟨text, isRecord⟩ maxLength)
    recording.lexicon
  have isLength := of_decide_eq_true (nonneg_ofNat_length short)
  constructor
  · rintro _ ⟨rfl⟩
    exact ⟨lower, by rw [← decides_eq_true_iff lower, decides_lowerGuard distinct isRecord]⟩
  · rintro _ ⟨rfl⟩
    exact ⟨upper, by
      rw [← decides_eq_true_iff upper, decides_upperGuard distinct isRecord nonneg isLength]⟩

/-- What a call supplies is true of the values after it. -/
theorem Ready.trueAt_supplied (ready : recording.Ready (event.width + more))
    (truthful : recording.TruthfulAt lexicon event) :
    ∀ supply ∈ recording.supplied event,
      supply.TrueAt (values (recording.report event).records) lexicon := by
  intro supply isSupplied
  cases event with
  | branch outcome condition site =>
      rw [List.mem_singleton.mp isSupplied]
      exact truthful
  | textInput =>
      have isRecord : .value recording.nextVar (.text (recording.source.head?.getD "")
          (recording.nextVar + 1)) ∈ (recording.report .textInput).records := by
        rw [Recording.report, records_text]
        exact List.mem_append_right _ List.mem_cons_self
      -- The guards are about lengths only, so any literal texts will do.
      rcases trueAt_guards { recording.report .textInput with lexicon } ready.report.fresh.distinct
        isRecord (length_head?_lt ready.short) ready.nonneg with ⟨lower, upper⟩
      rcases List.mem_pair.mp isSupplied with rfl | rfl
      · exact lower
      · exact upper
  | _ => cases isSupplied

/-- The inputs stay apart and known for all calls. -/
theorem Ready.reportAll {events : List Event}
    (ready : recording.Ready ((events.map Event.width).sum + more)) :
    (recording.reportAll events).Ready more ∧
      recording.records <+: (recording.reportAll events).records := by
  induction events generalizing recording with
  | nil =>
      rw [List.map_nil, List.sum_nil, Nat.zero_add] at ready
      exact ⟨ready, List.prefix_refl _⟩
  | cons event rest ih =>
      rw [List.map_cons, List.sum_cons, Nat.add_assoc] at ready
      rcases ih ready.report with ⟨readyAfter, isPrefix⟩
      exact ⟨readyAfter, (recording.inputs_report event).1.trans isPrefix⟩

/-- What calls supply is true of the values in the end. -/
theorem Ready.trueAt_suppliedAll {events : List Event}
    (ready : recording.Ready ((events.map Event.width).sum + more))
    (truthful : recording.Truthful lexicon events) :
    ∀ supply ∈ recording.suppliedAll events,
      supply.TrueAt (values (recording.reportAll events).records) lexicon := by
  induction events generalizing recording with
  | nil => simp [suppliedAll]
  | cons event rest ih =>
      rcases truthful with ⟨truthfulNow, truthfulLater⟩
      rw [List.map_cons, List.sum_cons, Nat.add_assoc] at ready
      intro supply isSupplied
      rcases List.mem_append.mp isSupplied with isNow | isLater
      · rcases ready.report.reportAll with ⟨readyAfter, isPrefix⟩
        exact (ready.trueAt_supplied truthfulNow supply isNow).of_extends
          (readyAfter.fresh.distinct.values_extends isPrefix)
      · exact ih ready.report truthfulLater supply isLater

end Recording

/-! ### The questions of a search -/

namespace Search

variable {State Failure : Type} {ask other : Ask State Failure}

theorem firstFeasible_congr {candidates : List Candidate}
    (agree : ∀ candidate ∈ candidates, ask candidate.condition = other candidate.condition)
    (state : State) :
    firstFeasible ask candidates state = firstFeasible other candidates state := by
  induction candidates generalizing state with
  | nil => rfl
  | cons candidate rest ih =>
      rw [List.forall_mem_cons] at agree
      simp only [firstFeasible, agree.1, ih agree.2]

theorem walk_congr {steps : List PathStep} {waiting : List Candidate}
    (inSteps : ∀ branch, .branch branch ∈ steps → ∀ number, branch.open? = some number →
      ask number = other number)
    (inWaiting : ∀ candidate ∈ waiting, ask candidate.condition = other candidate.condition)
    (start : Nat) (state : State) :
    walk ask steps start waiting state = walk other steps start waiting state := by
  induction steps generalizing start waiting state with
  | nil => exact firstFeasible_congr inWaiting state
  | cons step rest ih =>
      have inRest := fun branch isStep => inSteps branch (List.mem_cons_of_mem step isStep)
      cases step with
      | scope edge => exact ih inRest inWaiting _ _
      | branch branch =>
          have inPushed : ∀ candidate ∈ push start branch waiting,
              ask candidate.condition = other candidate.condition := by
            intro candidate isPushed
            rcases mem_push.mp isPushed with ⟨_, isOpen⟩ | wasWaiting
            · exact inSteps branch List.mem_cons_self _ isOpen
            · exact inWaiting candidate wasWaiting
          have inNone : ∀ candidate ∈ ([] : List Candidate),
              ask candidate.condition = other candidate.condition := by simp
          simp only [walk, firstFeasible_congr inPushed, ih inRest inPushed, ih inRest inNone]

/-- A search asks for the numbers of conditions only: how other questions are answered does not
matter to it. -/
theorem depthFirst_congr {trail : Trail} (numbered : trail.Numbered)
    (agree : ∀ number < trail.conditions.length, ask number = other number) (state : State) :
    depthFirst ask trail state = depthFirst other trail state := by
  apply walk_congr
  · intro branch isStep number isOpen
    apply agree
    apply numbered.lt_length isStep
    rw [Branch.open?] at isOpen
    split at isOpen
    · cases isOpen
    · exact isOpen
  · simp

end Search

namespace Recording

variable {lines : List String} {expected : List PathStep} {format : InputFormat}
  {maxLength : Int64} {lexicon meaning : Lexicon} {events : List Event}

/-- In a run whose branches report the truth of their conditions, the branches are the supplied
ones, guards included. Their conditions have the numbers from zero on, a search asks for these
numbers only, and all that was kept holds of the run's values. -/
theorem conditions_match_supplies_and_hold (nonneg : 0 ≤ maxLength)
    (short : ∀ line ∈ lines, line.length < 2 ^ 63)
    (room : (events.map Event.width).sum + 1 < 2 ^ 32)
    (truthful : (start lines expected format maxLength lexicon).Truthful meaning events) :
    let first := start lines expected format maxLength lexicon
    let final := first.reportAll events
    final.trail.branches.filterMap Branch.condition = List.range final.conditions.length ∧
      (∀ {State Failure : Type} (ask other : Search.Ask State Failure),
        (∀ number < final.conditions.length, ask number = other number) →
          ∀ state, Search.depthFirst ask final.trail state =
            Search.depthFirst other final.trail state) ∧
      List.Forall₂ (Supply.RecordedAs final.conditions) final.trail.branches
        (first.suppliedAll events) ∧
      ∀ condition ∈ final.conditions,
        condition.Reads (values final.records) meaning ∧
          condition.substitute (values final.records) meaning = .truth := by
  intro first final
  have numbered : final.trail.Numbered :=
    Trail.numbered_of_steps (first.steps_reportAll events) (Trail.numbered_expecting expected)
  have aligned : final.Aligned (first.suppliedAll events) :=
    (aligned_start lines expected format maxLength lexicon).reportAll events
  have ready : first.Ready ((events.map Event.width).sum + 0) := by
    refine ⟨⟨?_, ?_⟩, nonneg, short, ?_⟩
    · exact fun record isRecord => by cases isRecord
    · exact List.nodup_nil
    · rw [HasRoom, Nat.add_comm]
      exact room
  refine ⟨numbered, fun ask other agree => Search.depthFirst_congr numbered agree,
    aligned.branches, ?_⟩
  intro condition isCondition
  rw [aligned.conditions] at isCondition
  rcases List.mem_filterMap.mp isCondition with ⟨supply, isSupplied, isHeld⟩
  exact (ready.trueAt_suppliedAll truthful supply isSupplied).held isHeld

/-- The calls of a program that asks for a name and a number and finds the number positive. -/
def enrolment : List Event :=
  [.textInput, .intInput, .branch false (some (.linear (.ofVar (.int 3)) .le)) 7, .branchForced]

theorem enrolment_conditions_match_supplies_and_hold :
    let first := start ["Ada", "36"] [] {} 10 {}
    let final := first.reportAll enrolment
    final.conditions = [lowerGuard 2, upperGuard 2 10, .linear (.ofVar (.int 3)) .gt] ∧
      List.Forall₂ (Supply.RecordedAs final.conditions) final.trail.branches
        (first.suppliedAll enrolment) ∧
      ∀ condition ∈ final.conditions, condition.Reads (values final.records) final.lexicon := by
  intro first final
  have conditions :
      final.conditions = [lowerGuard 2, upperGuard 2 10, .linear (.ofVar (.int 3)) .gt] := by
    decide +kernel
  have truthful : first.Truthful final.lexicon enrolment := by
    refine ⟨trivial, trivial, ?_, trivial, trivial⟩
    rintro _ ⟨rfl⟩
    constructor
    · intro var occurs
      rw [Linear.vars_ofVar, List.mem_singleton] at occurs
      exact ⟨36, occurs ▸ by decide +kernel⟩
    · rw [PathCondition.Reads]
      decide +kernel
  rcases conditions_match_supplies_and_hold (by decide) (by decide) (by decide) truthful with
    ⟨_, _, branches, holds⟩
  exact ⟨conditions, branches, fun condition isCondition => (holds condition isCondition).1⟩

end Recording

end Concolic
