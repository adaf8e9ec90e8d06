import Mathlib
import Concolic.Proofs.Calls
import Concolic.Proofs.Iteration
import Concolic.Proofs.Stored
import Concolic.Rehearsal
import Concolic.TraceCommand

/-!
# No path is run twice

The saved path rules out every run that was made before: at some branch that it marks as done the
earlier run had the other outcome, and up to there it went the same way (`PathStep.RulesOut`). A run
that retraces the saved path is therefore a new one. When a branch of it is turned aside, the
flipped path rules the run itself out at that branch. It still rules out the earlier runs: those that
left the path before the branch are told by the same mark as before, which the run has kept, and
those that left it later are told by the flipped branch, at which they went with the run.
-/

namespace Concolic

namespace PathStep

/-- What a step shows of the way a run took: the outcome of a branch, or the edge of a scope. -/
def outline : PathStep → Bool ⊕ ScopeEdge
  | .branch fork => .inl fork.taken
  | .scope edge => .inr edge

/-- A saved path tells a run apart by a branch that is done. -/
def RulesOut (saved : List PathStep) (way : List (Bool ⊕ ScopeEdge)) : Prop :=
  ∃ position branch, saved[position]? = some (.branch branch) ∧ branch.done = true ∧
    way.take position = (saved.take position).map outline ∧
    way[position]? = some (.inl !branch.taken)

/-- A step goes the expected way, and is done if it was to be. -/
structure Meets (expected step : PathStep) : Prop where
  outline : step.outline = expected.outline
  done : ∀ saved, expected = .branch saved → saved.done = true →
    ∃ branch, step = .branch branch ∧ branch.done = true

/-- The steps begin with those that were expected. -/
def Retraces (expected steps : List PathStep) : Prop :=
  ∀ (position : Nat) (saved : PathStep), expected[position]? = some saved →
    ∃ step, steps[position]? = some step ∧ saved.Meets step

variable {expected steps : List PathStep} {way : List (Bool ⊕ ScopeEdge)}

theorem Retraces.getElem?_outline (retraces : Retraces expected steps) {position : Nat}
    (inside : position < expected.length) :
    steps[position]?.map outline = expected[position]?.map outline := by
  rw [List.getElem?_eq_getElem inside]
  rcases retraces position _ (List.getElem?_eq_getElem inside) with ⟨step, isStep, meets⟩
  rw [isStep, Option.map_some, Option.map_some, meets.outline]

theorem Retraces.map_take (retraces : Retraces expected steps) {count : Nat}
    (inside : count ≤ expected.length) :
    (steps.take count).map outline = (expected.take count).map outline := by
  apply List.ext_getElem?
  intro position
  simp only [List.getElem?_map, List.getElem?_take]
  split
  · exact retraces.getElem?_outline (by omega)
  · rfl

/-- A run that retraces the path is none that the path rules out. -/
theorem RulesOut.ne (rulesOut : RulesOut expected way) (retraces : Retraces expected steps) :
    way ≠ steps.map outline := by
  rintro rfl
  rcases rulesOut with ⟨position, branch, isSaved, isDone, _, isOther⟩
  rcases retraces position _ isSaved with ⟨step, isStep, meets⟩
  rw [List.getElem?_map, isStep, Option.map_some, meets.outline, Option.some.injEq,
    outline] at isOther
  simp at isOther

end PathStep

namespace Trail

open PathStep (RulesOut Retraces outline)

variable {trail later : Trail} {position : Nat} {branch : Branch}

theorem take_flippedPrefix (isStep : trail.steps[position]? = some (.branch branch)) {count : Nat}
    (inside : count ≤ position) :
    (trail.flippedPrefix position).take count = trail.steps.take count := by
  rcases List.getElem?_eq_some_iff.mp isStep with ⟨inRange, _⟩
  rw [flippedPrefix_eq isStep, List.take_append_of_le_length (by rw [List.length_take]; omega),
    List.take_take, Nat.min_eq_left inside]

/-- Whoever went with the run up to a branch and there, too, is ruled out once it is flipped. -/
theorem rulesOut_flippedPrefix {way : List (Bool ⊕ ScopeEdge)}
    (isStep : trail.steps[position]? = some (.branch branch))
    (before : way.take position = (trail.steps.take position).map outline)
    (there : way[position]? = some (.inl branch.taken)) :
    RulesOut (trail.flippedPrefix position) way := by
  rcases List.getElem?_eq_some_iff.mp isStep with ⟨inRange, _⟩
  refine ⟨position, branch.flipped, ?_, rfl, ?_, ?_⟩
  · rw [getElem?_flippedPrefix inRange, if_neg (Nat.lt_irrefl _), if_pos rfl, isStep]
    rfl
  · rw [take_flippedPrefix isStep (Nat.le_refl _), before]
  · rw [there, Branch.flipped, Bool.not_not]

/-- The run itself is ruled out by the path that turns it aside. -/
theorem rulesOut_self (isStep : trail.steps[position]? = some (.branch branch)) :
    RulesOut (trail.flippedPrefix position) (trail.steps.map outline) := by
  apply rulesOut_flippedPrefix isStep
  · rw [List.map_take]
  · rw [List.getElem?_map, isStep]
    rfl

/-- Turning a run aside at an open branch rules out what was ruled out before. -/
theorem rulesOut_earlier {way : List (Bool ⊕ ScopeEdge)} {expected : List PathStep}
    (rulesOut : RulesOut expected way) (retraces : Retraces expected trail.steps)
    (isStep : trail.steps[position]? = some (.branch branch)) (notDone : branch.done = false) :
    RulesOut (trail.flippedPrefix position) way := by
  rcases rulesOut with ⟨mark, saved, isSaved, isDone, before, there⟩
  rcases List.getElem?_eq_some_iff.mp isSaved with ⟨inside, _⟩
  rcases List.getElem?_eq_some_iff.mp isStep with ⟨inRange, _⟩
  rcases retraces mark _ isSaved with ⟨_, isMarked, meets⟩
  rcases meets.done saved rfl isDone with ⟨kept, rfl, isKept⟩
  have sameTaken : kept.taken = saved.taken := Sum.inl.inj meets.outline
  rcases Nat.lt_trichotomy mark position with earlier | same | later
  · -- The mark is in front of the flipped branch, so it stands in the flipped path.
    refine ⟨mark, kept, ?_, isKept, ?_, ?_⟩
    · rw [getElem?_flippedPrefix inRange, if_pos earlier, isMarked]
    · rw [take_flippedPrefix isStep earlier.le, retraces.map_take inside.le, before]
    · rw [there, sameTaken]
  · -- A branch that is done is not open.
    subst same
    rw [isMarked] at isStep
    cases isStep
    rw [isKept] at notDone
    cases notDone
  · -- The way left the path later, so at the flipped branch it went with the run.
    apply rulesOut_flippedPrefix isStep
    · have shorter := congrArg (List.take position) before
      rw [← List.map_take, List.take_take, List.take_take, Nat.min_eq_left later.le] at shorter
      rw [shorter, retraces.map_take (by omega)]
    · have atBranch := congrArg (·[position]?) before
      simp only [List.getElem?_map, List.getElem?_take_of_lt later] at atBranch
      rw [atBranch, ← retraces.getElem?_outline (by omega), isStep]
      rfl

/-! ### What recording keeps of the expected path -/

/-- As long as the run has not left the expected path, its steps meet it. -/
def Keeps (trail : Trail) : Prop :=
  trail.diverged = false → ∀ (position : Nat) (saved step : PathStep),
    trail.expected[position]? = some saved → trail.steps[position]? = some step → saved.Meets step

theorem keeps_expecting (expected : List PathStep) : (expecting expected).Keeps := by
  intro _ position saved step _ isStep
  simp [expecting] at isStep

/-- A step at the end of the trail is compared with the one expected there. -/
theorem Keeps.append (keeps : trail.Keeps) {step : PathStep}
    (steps : later.steps = trail.steps ++ [step]) (expected : later.expected = trail.expected)
    (met : later.diverged = false → trail.diverged = false ∧
      ∀ saved, trail.next? = some saved → saved.Meets step) : later.Keeps := by
  intro onPath position saved recorded isExpected isRecorded
  rcases met onPath with ⟨wasOnPath, meets⟩
  rw [expected] at isExpected
  rw [steps, List.getElem?_append] at isRecorded
  split at isRecorded
  · exact keeps wasOnPath position saved recorded isExpected isRecorded
  · rename_i notBefore
    rcases List.getElem?_eq_some_iff.mp isRecorded with ⟨isLast, rfl⟩
    obtain rfl : position = trail.steps.length := by
      rw [List.length_singleton] at isLast
      omega
    rw [List.getElem_singleton]
    apply meets
    rw [next?, wasOnPath, if_neg Bool.false_ne_true, isExpected]

/-- A mark leaves the outcome as it is and takes no other mark away. -/
theorem Keeps.mark (keeps : trail.Keeps) {change : Branch → Branch}
    (sameTaken : ∀ branch, (change branch).taken = branch.taken)
    (staysDone : ∀ branch, branch.done = true → (change branch).done = true) :
    Keeps { trail with steps := PathStep.changeLastBranch change trail.steps } := by
  intro onPath position saved recorded isExpected isRecorded
  have changed := PathStep.forall₂_changeLastBranch change trail.steps
  rcases List.getElem?_eq_some_iff.mp isRecorded with ⟨inside, rfl⟩
  have sameLength := changed.length_eq
  have inSteps : position < trail.steps.length := by
    rw [sameLength]
    exact inside
  have meets := keeps onPath position saved _ isExpected (List.getElem?_eq_getElem inSteps)
  rcases changed.get inSteps inside with same | ⟨fork, wasFork, isFork⟩
  · simp only [List.get_eq_getElem] at same
    rw [same]
    exact meets
  · simp only [List.get_eq_getElem] at wasFork isFork
    rw [wasFork] at meets
    rw [isFork]
    refine ⟨?_, ?_⟩
    · rw [← meets.outline, outline, outline, sameTaken]
    · intro branch isBranch isDone
      rcases meets.done branch isBranch isDone with ⟨_, ⟨rfl⟩, forkDone⟩
      exact ⟨_, rfl, staysDone _ forkDone⟩

/-- A branch that does not depart from the expected step meets it. -/
theorem meets_of_meet {saved : PathStep} {fresh : Branch}
    (stays : (meet (some saved) fresh).2 = false) :
    saved.Meets (.branch (meet (some saved) fresh).1) := by
  cases saved with
  | scope edge => simp [meet] at stays
  | branch fork =>
      simp only [meet] at stays ⊢
      split at stays
      · rename_i agrees
        rw [if_pos agrees]
        refine ⟨?_, ?_⟩
        · rw [outline, outline, agrees]
        · rintro _ ⟨rfl⟩ isDone
          exact ⟨_, rfl, isDone⟩
      · cases stays

theorem Step.keeps (step : Step trail later) (keeps : trail.Keeps) : later.Keeps := by
  cases step with
  | branch taken condition site =>
      refine keeps.append (by rfl) (by rfl) ?_
      intro onPath
      rcases Bool.or_eq_false_iff.mp onPath with ⟨wasOnPath, stays⟩
      refine ⟨wasOnPath, ?_⟩
      intro saved isNext
      rw [isNext] at stays ⊢
      exact meets_of_meet stays
  | scope edge =>
      refine keeps.append (by rfl) (by rfl) ?_
      intro onPath
      rcases Bool.or_eq_false_iff.mp onPath with ⟨wasOnPath, stays⟩
      refine ⟨wasOnPath, ?_⟩
      intro saved isNext
      rw [isNext] at stays
      obtain rfl : saved = .scope edge := by simpa using stays
      exact ⟨rfl, by simp⟩
  | done => exact keeps.mark (fun _ => rfl) fun _ _ => rfl
  | forced => exact keeps.mark (fun _ => rfl) fun _ isDone => isDone

/-- Numbers stay as they are in a flipped path, so it can be stored. -/
theorem Numbered.storable (numbered : trail.Numbered) (countable : trail.conditions.length ≤ 2 ^ 64)
    (isStep : trail.steps[position]? = some (.branch branch)) :
    ∀ step ∈ trail.flippedPrefix position, step.Storable := by
  rw [flippedPrefix_eq isStep]
  intro step isMember fork isFork number isNumber
  subst isFork
  have inRange : number < trail.conditions.length := by
    rcases List.mem_append.mp isMember with isEarlier | isFlipped
    · exact numbered.lt_length (List.mem_of_mem_take isEarlier) isNumber
    · cases List.mem_singleton.mp isFlipped
      exact numbered.lt_length (List.mem_of_getElem? isStep) isNumber
  omega

/-- What calls make of an expectation: it stays, and the steps keep to it. -/
theorem keeps_of_steps {expected : List PathStep}
    (steps : Relation.ReflTransGen Step (expecting expected) trail) :
    trail.expected = expected ∧ trail.Keeps := by
  induction steps with
  | refl => exact ⟨rfl, keeps_expecting expected⟩
  | tail _ step ih =>
      rcases ih with ⟨sameExpected, keeps⟩
      exact ⟨step.expected_eq.trans sameExpected, step.keeps keeps⟩

end Trail

/-- The trail that the program leaves is made by calls. -/
def Program.Reports (program : Program) : Prop :=
  ∀ number recording directory, ∃ events,
    (program number recording directory).2.1.trail = (recording.reportAll events).trail

/-- A process that writes traces reports. -/
theorem TraceCommand.reports_toProgram (command : TraceCommand) : command.toProgram.Reports := by
  intro number recording directory
  simp only [toProgram]
  split
  · exact ⟨[], rfl⟩
  · split
    · exact ⟨[], rfl⟩
    · simp only [replayTrace]
      split
      · exact ⟨[], rfl⟩
      · split
        · exact ⟨[], rfl⟩
        · exact Trace.exists_trail_replay _ recording

/-- So does a script. -/
theorem ScriptedRun.reports_toProgram (entries : List ScriptedRun) :
    Program.Reports (toProgram entries) := by
  intro number recording directory
  simp only [toProgram]
  split
  · exact ⟨[], rfl⟩
  · exact ⟨[], rfl⟩
  · exact Trace.exists_trail_replay _ recording

namespace Recording

/-- The way that the run took. -/
def way (recording : Recording) : List (Bool ⊕ ScopeEdge) :=
  recording.trail.steps.map PathStep.outline

/-- The run kept to the steps that were expected of it and made all of them. The numbers of its
conditions fit into 64 bits. -/
structure KeptOn (recording : Recording) : Prop where
  onPath : recording.trail.diverged = false
  complete : recording.trail.expected.length ≤ recording.trail.steps.length
  countable : recording.conditions.length ≤ 2 ^ 64

end Recording

namespace Exploration

open PathStep (RulesOut Retraces)

variable {environment : Environment} {exploration after : Exploration} {lines : List String}
  {expected : List PathStep} {outcome : Except RunFault Unit} {recording : Recording}
  {directory : Directory}

/-- All runs so far went different ways, and the saved path rules them out. -/
structure Apart (environment : Environment) (exploration : Exploration) : Prop where
  nodup : (exploration.runs.map Recording.way).Nodup
  rulesOut : ∀ expected,
    PathFile.load exploration.directory environment.settings.pathFile = .ok expected →
      ∀ recording ∈ exploration.runs, RulesOut expected recording.way

theorem Ran.steps (ran : Ran environment exploration lines expected outcome recording directory)
    (reports : environment.program.Reports) :
    Relation.ReflTransGen Trail.Step (.expecting expected) recording.trail := by
  rcases reports exploration.runs.length (.start lines expected environment.settings.format
    environment.settings.maxLength exploration.lexicon) exploration.directory with ⟨events, isMade⟩
  rw [ran.ended] at isMade
  rw [isMade]
  exact Recording.steps_reportAll (.start lines expected environment.settings.format
    environment.settings.maxLength exploration.lexicon) events

theorem Ran.retraces (ran : Ran environment exploration lines expected outcome recording directory)
    (reports : environment.program.Reports) (keptOn : recording.KeptOn) :
    Retraces expected recording.trail.steps := by
  rcases Trail.keeps_of_steps (ran.steps reports) with ⟨sameExpected, keeps⟩
  intro position saved isSaved
  rcases List.getElem?_eq_some_iff.mp isSaved with ⟨inside, _⟩
  have inSteps : position < recording.trail.steps.length := by
    have complete := keptOn.complete
    rw [sameExpected] at complete
    omega
  refine ⟨_, List.getElem?_eq_getElem inSteps, ?_⟩
  apply keeps keptOn.onPath position saved
  · rw [sameExpected, isSaved]
  · exact List.getElem?_eq_getElem inSteps

/-- A run that keeps to the saved path goes a new way. -/
theorem Apart.nodup_append (apart : Apart environment exploration)
    (ran : Ran environment exploration lines expected outcome recording directory)
    (reports : environment.program.Reports) (keptOn : recording.KeptOn) :
    ((exploration.runs ++ [recording]).map Recording.way).Nodup := by
  rw [List.map_append, List.map_singleton, List.nodup_append]
  refine ⟨apart.nodup, by simp, ?_⟩
  rintro way isEarlier _ isNew rfl
  rcases List.mem_map.mp isEarlier with ⟨earlier, isRun, isWay⟩
  have rulesOut := apart.rulesOut expected ran.isLoaded earlier isRun
  rw [List.mem_singleton.mp isNew] at isWay
  exact rulesOut.ne (ran.retraces reports keptOn) isWay

/-- The path saved after a run rules out the run and all earlier ones. -/
theorem Apart.turned {position : Nat} {bench : Bench} {saved : Directory} {loaded : List PathStep}
    (apart : Apart environment exploration)
    (ran : Ran environment exploration lines expected outcome recording directory)
    (reports : environment.program.Reports) (keptOn : recording.KeptOn)
    (searched : Searched environment exploration recording directory (.ok (some position)) bench)
    (isSaved : PathFile.save bench.directory environment.settings.pathFile
      (recording.trail.flippedPrefix position) = .ok saved)
    (isLoaded : PathFile.load saved environment.settings.pathFile = .ok loaded) :
    ∀ run ∈ exploration.runs ++ [recording], RulesOut loaded run.way := by
  have numbered :=
    Trail.numbered_of_steps (ran.steps reports) (Trail.numbered_expecting expected)
  have retraces := ran.retraces reports keptOn
  cases searched with
  | @found candidate before _ isOne refused answered =>
      rcases isOne with ⟨offset, branch, isStep, isPosition, isOpen⟩
      rw [Nat.zero_add] at isPosition
      rw [← isPosition] at isStep
      have notDone : branch.done = false := by
        rw [Bool.eq_false_iff]
        intro isDone
        simp [Branch.open?, isDone] at isOpen
      have storable := numbered.storable keptOn.countable isStep
      obtain rfl := PathFile.load_of_save storable isSaved isLoaded
      intro run isRun
      rcases List.mem_append.mp isRun with isEarlier | isNew
      · have rulesOut := apart.rulesOut expected ran.isLoaded run isEarlier
        exact Trail.rulesOut_earlier rulesOut retraces isStep notDone
      · rw [List.mem_singleton.mp isNew]
        exact Trail.rulesOut_self isStep

/-- An iteration adds a run at most. -/
theorem runs_prefix_iterate {result : Except ExplorationFault (Option Nat)}
    (iterated : iterate environment exploration = (result, after)) :
    exploration.runs <+: after.runs := by
  have ended := iterated_iterate environment exploration
  rw [iterated] at ended
  cases ended with
  | unread | unloaded => exact List.prefix_refl _
  | runFailed | solveFailed | unsaved | uncleared | turned | exhausted =>
      exact List.prefix_append _ _

theorem Looped.runs_prefix {iterations : Nat}
    {result : Except ExplorationFault (Nat × StopReason)}
    (looped : Looped environment iterations exploration result after) :
    exploration.runs <+: after.runs := by
  induction looped with
  | limit => exact List.prefix_refl _
  | fault iterated | exhausted iterated => exact runs_prefix_iterate iterated
  | next iterated _ ih => exact (runs_prefix_iterate iterated).trans ih

/-- An iteration goes a new way, and what it saves rules that way out. -/
theorem Apart.iterate {result : Except ExplorationFault (Option Nat)}
    (apart : Apart environment exploration) (reports : environment.program.Reports)
    (iterated : iterate environment exploration = (result, after))
    (keptOn : ∀ recording ∈ after.runs, recording.KeptOn) :
    (after.runs.map Recording.way).Nodup ∧
      ∀ position, result = .ok (some position) → Apart environment after := by
  have ended := iterated_iterate environment exploration
  rw [iterated] at ended
  cases ended with
  | unread | unloaded => exact ⟨apart.nodup, by simp⟩
  | runFailed ran | solveFailed ran _ | unsaved ran _ _ | uncleared ran _ _ | exhausted ran _ _ =>
      exact ⟨apart.nodup_append ran reports (keptOn _ (List.mem_append_right _ List.mem_cons_self)),
        by simp⟩
  | turned ran searched isSaved =>
      have keptOnLast := keptOn _ (List.mem_append_right _ List.mem_cons_self)
      have nodup := apart.nodup_append ran reports keptOnLast
      exact ⟨nodup, fun _ _ => ⟨nodup, fun _ isLoaded =>
        apart.turned ran reports keptOnLast searched isSaved isLoaded⟩⟩

theorem Looped.nodup {iterations : Nat} {result : Except ExplorationFault (Nat × StopReason)}
    (looped : Looped environment iterations exploration result after)
    (apart : Apart environment exploration) (reports : environment.program.Reports)
    (keptOn : ∀ recording ∈ after.runs, recording.KeptOn) :
    (after.runs.map Recording.way).Nodup := by
  induction looped with
  | limit => exact apart.nodup
  | fault iterated | exhausted iterated => exact (apart.iterate reports iterated keptOn).1
  | @next _ position _ next _ _ iterated looped ih =>
      have keptOnSoFar : ∀ recording ∈ next.runs, recording.KeptOn := fun recording isRun =>
        keptOn recording (looped.runs_prefix.subset isRun)
      exact ih ((apart.iterate reports iterated keptOnSoFar).2 position rfl) keptOn

/-- In an exploration all of whose runs keep to what is expected of them, no two runs go the same
way. -/
theorem ways_nodup {remaining iterations : Nat}
    {result : Except ExplorationFault (Nat × StopReason)} (reports : environment.program.Reports)
    (isFresh : exploration.runs = [])
    (isLooped : loop environment remaining iterations exploration = (result, after))
    (keptOn : ∀ recording ∈ after.runs, recording.KeptOn) :
    (after.runs.map Recording.way).Nodup := by
  have apart : Apart environment exploration := by
    refine ⟨by simp [isFresh], ?_⟩
    intro expected _ recording isRun
    simp [isFresh] at isRun
  have looped := looped_loop environment remaining iterations exploration
  rw [isLooped] at looped
  exact looped.nodup apart reports keptOn

/-- A branch with another outcome in the second run, where it is marked as forced. -/
def alternation (number : Nat) : List Event :=
  if number = 0 then [.branch true (some .truth) 0, .beginScope]
  else [.branch false (some .truth) 0, .branchForced]

/-- A program with this branch and a solver that finds everything satisfiable. -/
def alternating : Environment where
  settings := {}
  program := fun number recording directory =>
    (.ok (), recording.reportAll (alternation number), directory)
  solver := fun _ _ => .ok ["sat"]

theorem alternating_ways_nodup :
    ∃ after, loop alternating 3 0 {} = (.ok (2, .exhausted), after) ∧ after.runs.length = 2 ∧
      (after.runs.map Recording.way).Nodup := by
  have facts : (loop alternating 3 0 {}).1 = .ok (2, .exhausted) ∧
      (loop alternating 3 0 {}).2.runs.length = 2 ∧
      ∀ recording ∈ (loop alternating 3 0 {}).2.runs, recording.trail.diverged = false ∧
        recording.trail.expected.length ≤ recording.trail.steps.length ∧
        recording.conditions.length ≤ 2 ^ 64 := by decide +kernel
  have reports : alternating.program.Reports := fun number _ _ => ⟨alternation number, rfl⟩
  generalize isLooped : loop alternating 3 0 {} = looped at facts
  rcases looped with ⟨result, after⟩
  rcases facts with ⟨⟨rfl⟩, two, keepOn⟩
  refine ⟨after, rfl, two, ways_nodup reports rfl isLooped ?_⟩
  intro recording isRun
  rcases keepOn recording isRun with ⟨onPath, complete, countable⟩
  exact ⟨onPath, complete, countable⟩

end Exploration

end Concolic
