import Mathlib
import Concolic.Proofs.Program
import Concolic.Trace

/-!
# What the calls of a run do to its trail

A program makes a recording by calls of nine kinds. Each of them changes the trail, if at all, by
recording branches and scopes and by marking the last branch (`Trail.Step`), so what these four do
not break holds of every trail. In particular the conditions of a trail are numbered in the order of
its branches. A trace is replayed as such calls, whatever literal texts it brings along.
-/

namespace Concolic

namespace Recording

/-- The recording after a call. -/
def report (recording : Recording) : Event → Recording
  | .intInput => recording.int.2.2
  | .longInput => recording.long.2.2
  | .floatInput => recording.float.2
  | .textInput => recording.text.2
  | .beginScope => recording.beginScope
  | .endScope => recording.endScope
  | .branch outcome condition site => recording.branch outcome condition site
  | .branchDone => recording.markDone
  | .branchForced => recording.markForced

/-- The recording after calls. -/
def reportAll (recording : Recording) (events : List Event) : Recording :=
  events.foldl report recording

end Recording

namespace Event

/-- The event with the numbers that its literal texts have in a recording. -/
def imported (ids : List LiteralId) : Event → Except RunFault Event
  | .branch outcome (some condition) site =>
      (condition.importLiterals ids).map fun own => .branch outcome (some own) site
  | event => .ok event

theorem apply_eq (ids : List LiteralId) (recording : Recording) (event : Event) :
    event.apply ids recording = (event.imported ids).map recording.report := by
  cases event with
  | branch outcome condition site =>
      cases condition with
      | none => rfl
      | some condition =>
          rw [apply, imported]
          cases condition.importLiterals ids <;> rfl
  | _ => rfl

/-- Whether or not a fault stops them, events are calls. -/
theorem exists_reportAll (ids : List LiteralId) (events : List Event) (recording : Recording) :
    ∃ calls, (applyAll ids events recording).2 = recording.reportAll calls := by
  induction events generalizing recording with
  | nil => exact ⟨[], rfl⟩
  | cons event rest ih =>
      rw [applyAll, apply_eq]
      cases event.imported ids with
      | error fault => exact ⟨[], rfl⟩
      | ok call =>
          rcases ih (recording.report call) with ⟨calls, isMade⟩
          exact ⟨call :: calls, isMade⟩

end Event

namespace Recording

/-- Calls that are made with other literal texts leave the same but for these. -/
theorem report_lexicon (recording : Recording) (lexicon : Lexicon) (event : Event) :
    ∃ other, { recording with lexicon }.report event =
      { recording.report event with lexicon := other } := by
  cases event with
  | textInput =>
      refine ⟨(lexicon.intern (recording.source.head?.getD "")).2, ?_⟩
      rw [report, report, text_eq, text_eq]
      simp only [settle_eq]
      rfl
  | _ => exact ⟨lexicon, rfl⟩

theorem trail_reportAll_lexicon (recording : Recording) (lexicon : Lexicon) (events : List Event) :
    ({ recording with lexicon }.reportAll events).trail = (recording.reportAll events).trail := by
  induction events generalizing recording lexicon with
  | nil => rfl
  | cons event rest ih =>
      rcases recording.report_lexicon lexicon event with ⟨other, same⟩
      rw [reportAll, List.foldl_cons, same]
      exact ih _ _

end Recording

/-- A trace leaves the trail of calls. -/
theorem Trace.exists_trail_replay (trace : Trace) (recording : Recording) :
    ∃ calls, (trace.replay recording).2.trail = (recording.reportAll calls).trail := by
  rcases Event.exists_reportAll (recording.lexicon.internAll trace.strings).1 trace.events
    { recording with lexicon := (recording.lexicon.internAll trace.strings).2 } with ⟨calls, isMade⟩
  refine ⟨calls, ?_⟩
  rw [replay, isMade]
  exact recording.trail_reportAll_lexicon _ calls

namespace PathStep

/-- The step with its branch changed, or the step as it is. -/
def ChangedBy (change : Branch → Branch) (before after : PathStep) : Prop :=
  after = before ∨ ∃ fork, before = .branch fork ∧ after = .branch (change fork)

theorem forall₂_changeLastBranch (change : Branch → Branch) (steps : List PathStep) :
    List.Forall₂ (ChangedBy change) steps (changeLastBranch change steps) := by
  have first (steps : List PathStep) :
      List.Forall₂ (ChangedBy change) steps (changeFirstBranch change steps) := by
    have same (steps : List PathStep) : List.Forall₂ (ChangedBy change) steps steps :=
      List.forall₂_same.mpr fun _ _ => .inl rfl
    induction steps with
    | nil => exact .nil
    | cons step rest ih =>
        cases step with
        | branch fork => exact .cons (.inr ⟨fork, rfl, rfl⟩) (same rest)
        | scope edge => exact .cons (.inl rfl) ih
  have reversed := List.rel_reverse (first steps.reverse)
  rwa [List.reverse_reverse] at reversed

end PathStep

namespace Trail

/-- What a call does to the trail. -/
inductive Step : Trail → Trail → Prop where
  | branch (trail : Trail) (taken : Bool) (condition : Option PathCondition) (site : UInt32) :
      Step trail (trail.recordBranch taken condition site)
  | scope (trail : Trail) (edge : ScopeEdge) : Step trail (trail.recordScope edge)
  | done (trail : Trail) : Step trail trail.markDone
  | forced (trail : Trail) : Step trail trail.markForced

end Trail

namespace Recording

theorem steps_settle (recording : Recording) (marks outcome : Bool) (condition : PathCondition)
    (site : UInt32) :
    Relation.ReflTransGen Trail.Step recording.trail
      (recording.settle marks outcome condition site).trail := by
  have branched :
      Trail.Step recording.trail (recording.branch outcome (some condition) site).trail :=
    .branch _ _ _ _
  simp only [settle]
  split
  · exact (Relation.ReflTransGen.single branched).tail (.done _)
  · exact .single branched

theorem steps_report (recording : Recording) (event : Event) :
    Relation.ReflTransGen Trail.Step recording.trail (recording.report event).trail := by
  cases event with
  | intInput | longInput | floatInput => exact .refl
  | textInput =>
      rw [report, text_eq]
      exact (steps_settle recording.takeText _ _ _ _).trans (steps_settle _ _ _ _ _)
  | beginScope | endScope => exact .single (.scope _ _)
  | branch outcome condition site => exact .single (.branch _ _ _ _)
  | branchDone => exact .single (.done _)
  | branchForced => exact .single (.forced _)

theorem steps_reportAll (recording : Recording) (events : List Event) :
    Relation.ReflTransGen Trail.Step recording.trail (recording.reportAll events).trail := by
  induction events generalizing recording with
  | nil => exact .refl
  | cons event rest ih => exact (steps_report recording event).trans (ih _)

end Recording

namespace Trail

variable {trail later : Trail}

theorem Step.expected_eq (step : Step trail later) : later.expected = trail.expected := by
  cases step <;> rfl

/-- The branches with a condition have the numbers of the conditions, in their order. -/
def Numbered (trail : Trail) : Prop :=
  trail.branches.filterMap Branch.condition = List.range trail.conditions.length

theorem taken_meet (expected : Option PathStep) (branch : Branch) :
    (meet expected branch).1.taken = branch.taken := by
  simp only [meet]
  split
  · split <;> rfl
  · rfl
  · rfl

theorem branches_recordBranch (trail : Trail) (taken : Bool) (condition : Option PathCondition)
    (site : UInt32) :
    ∃ branch : Branch, branch.taken = taken ∧
      branch.condition = (condition.map fun _ => trail.conditions.length) ∧
      (trail.recordBranch taken condition site).branches = trail.branches ++ [branch] := by
  refine ⟨_, taken_meet trail.next? _, Recording.condition_meet trail.next?
    { taken, site, condition := condition.map fun _ => trail.conditions.length }, ?_⟩
  simp [branches, recordBranch, PathStep.branch?]

theorem branches_recordScope (trail : Trail) (edge : ScopeEdge) :
    (trail.recordScope edge).branches = trail.branches := by
  simp [branches, recordScope, PathStep.branch?]

/-- A change of the last branch is not seen in what it leaves as it is. -/
theorem map_branches_changeLastBranch {α : Type} {change : Branch → Branch} {view : Branch → α}
    (unseen : ∀ branch, view (change branch) = view branch) (steps : List PathStep) :
    ((PathStep.changeLastBranch change steps).filterMap PathStep.branch?).map view =
      (steps.filterMap PathStep.branch?).map view := by
  have related := PathStep.forall₂_changeLastBranch change steps
  generalize PathStep.changeLastBranch change steps = changed at related ⊢
  induction related with
  | nil => rfl
  | cons isChanged _ ih =>
      rcases isChanged with rfl | ⟨fork, rfl, rfl⟩
      · simp only [List.filterMap_cons]
        split
        · exact ih
        · rw [List.map_cons, List.map_cons, ih]
      · simp only [List.filterMap_cons, PathStep.branch?, List.map_cons, ih, unseen]

/-- Marks leave the numbers as they are. -/
theorem numbers_changeLastBranch (change : Branch → Branch)
    (unseen : ∀ branch, (change branch).condition = branch.condition) (steps : List PathStep) :
    ((PathStep.changeLastBranch change steps).filterMap PathStep.branch?).filterMap
        Branch.condition =
      (steps.filterMap PathStep.branch?).filterMap Branch.condition := by
  have same := congrArg (List.filterMap id) (map_branches_changeLastBranch unseen steps)
  rw [List.filterMap_map, List.filterMap_map] at same
  exact same

theorem Step.numbered (step : Step trail later) (numbered : trail.Numbered) : later.Numbered := by
  cases step with
  | branch taken condition site =>
      rcases branches_recordBranch trail taken condition site with ⟨branch, _, isNumber, branches⟩
      have conditions : (trail.recordBranch taken condition site).conditions =
          trail.conditions ++ condition.toList := rfl
      rw [Numbered, branches, conditions, List.filterMap_append, numbered]
      cases condition with
      | none => simp [isNumber]
      | some condition => simp [isNumber, List.range_succ]
  | scope edge =>
      rw [Numbered, branches_recordScope]
      exact numbered
  | done =>
      exact (numbers_changeLastBranch (fun branch => { branch with done := true }) (fun _ => rfl)
        trail.steps).trans numbered
  | forced =>
      exact (numbers_changeLastBranch (fun branch => { branch with forced := true }) (fun _ => rfl)
        trail.steps).trans numbered

theorem numbered_of_steps (steps : Relation.ReflTransGen Step trail later)
    (numbered : trail.Numbered) : later.Numbered := by
  induction steps with
  | refl => exact numbered
  | tail _ step ih => exact step.numbered ih

theorem numbered_expecting (expected : List PathStep) : (expecting expected).Numbered :=
  rfl

/-- The number of a branch's condition is one of the conditions'. -/
theorem Numbered.lt_length (numbered : trail.Numbered) {branch : Branch} {number : Nat}
    (isStep : .branch branch ∈ trail.steps) (isNumber : branch.condition = some number) :
    number < trail.conditions.length := by
  have isOne : number ∈ trail.branches.filterMap Branch.condition :=
    List.mem_filterMap.mpr ⟨branch, List.mem_filterMap.mpr ⟨_, isStep, rfl⟩, isNumber⟩
  rwa [numbered, List.mem_range] at isOne

end Trail

end Concolic
