import Mathlib
import Concolic.Proofs.Files
import Concolic.Proofs.Tally
import Concolic.TraceCommand

/-!
# Inputs and expected path move together

The inputs of the next run and the path expected of it are in two files, and the second makes sense
only with the first. An iteration changes both or none: new lines are written by a call that
succeeds, the search ends with that call, and then the flipped path is saved. All calls before it
wrote formulas only.

So formulas must not be written to one of the files that are handed on, the path must not be kept in
the inputs or their backup, and the program must not change these files itself. Settings that break
the first two rules are accepted as well, and then the files part.
-/

namespace Concolic

namespace Directory.Offers

variable {directory : Directory} {path : String} {location : Location}

theorem save (offers : directory.Offers path location) (steps : List PathStep) :
    PathFile.save directory path steps =
      .ok (directory.set location (.text (PathStep.listToText steps))) := by
  simp only [PathFile.save, Directory.write, offers.writeEntry]

theorem clear (offers : directory.Offers path location) :
    ∃ later, PathFile.clear directory path = .ok later ∧ directory.Changes [location] later ∧
      later.get? location = none := by
  rcases offers.discard with ⟨later, isDiscarded, changes, isGone⟩
  exact ⟨later, by simp only [PathFile.clear, isDiscarded], changes, isGone⟩

end Directory.Offers

namespace Settings

/-- The files that an exploration hands from run to run: the inputs, their backup and the expected
path. -/
def handedOn (settings : Settings) : List String :=
  [settings.inputsFile, settings.inputsFile ++ ".bak", settings.pathFile]

/-- The places of these files, and of the draft of new inputs. -/
structure Places where
  inputs : Location
  backup : Location
  draft : Location
  path : Location

/-- Each file has a place where it stands or can be put. -/
structure Placed (settings : Settings) (places : Places) (directory : Directory) : Prop where
  inputs : directory.Offers settings.inputsFile places.inputs
  backup : directory.Offers (settings.inputsFile ++ ".bak") places.backup
  draft : directory.Offers (settings.inputsFile ++ ".tmp") places.draft
  path : directory.Offers settings.pathFile places.path

/-- Formulas go to none of the files that are handed on, and the expected path is neither in the
inputs nor in their backup. -/
structure Apart (settings : Settings) (places : Places) (directory : Directory) : Prop where
  formula : ∀ location ∈ directory.leadsTo settings.solver.formulaFile,
    location ∉ [places.inputs, places.backup, places.path]
  path : places.path ∉ [places.inputs, places.backup]

variable {settings : Settings} {places : Places} {directory later : Directory}
  {changed : List Location}

theorem Placed.changes (placed : settings.Placed places directory)
    (changes : directory.Changes changed later) : settings.Placed places later :=
  ⟨changes.offers placed.inputs, changes.offers placed.backup, changes.offers placed.draft,
    changes.offers placed.path⟩

namespace Apart

theorem changes (apart : settings.Apart places directory)
    (changes : directory.Changes changed later) : settings.Apart places later :=
  ⟨fun location leads => apart.formula location (changes.leadsTo_subset _ leads), apart.path⟩

theorem ne (apart : settings.Apart places directory) :
    places.inputs ≠ places.path ∧ places.backup ≠ places.path := by
  have path := apart.path
  simp only [List.mem_cons, List.not_mem_nil, or_false, not_or] at path
  exact ⟨Ne.symm path.1, Ne.symm path.2⟩

theorem notMem (apart : settings.Apart places directory) :
    places.inputs ∉ directory.leadsTo settings.solver.formulaFile ∧
      places.backup ∉ directory.leadsTo settings.solver.formulaFile ∧
      places.path ∉ directory.leadsTo settings.solver.formulaFile :=
  ⟨fun leads => apart.formula _ leads (by simp), fun leads => apart.formula _ leads (by simp),
    fun leads => apart.formula _ leads (by simp)⟩

end Apart

end Settings

namespace Exploration

variable {environment : Environment} {exploration after : Exploration}

section Solving

variable {places : Settings.Places} {recording : Recording} {number : Nat} {before last : Bench}

/-- The problem of a run in an exploration. -/
abbrev problemOf (environment : Environment) (recording : Recording) : Problem :=
  .ofRecording environment.solver environment.settings.solver environment.settings.inputsFile
    recording

theorem changes_of_rewrites {path : String} {directory later : Directory}
    (rewrites : Relation.ReflTransGen (Directory.Rewrites path) directory later) :
    directory.Changes (directory.leadsTo path) later := by
  induction rewrites with
  | refl => exact (Directory.Changes.refl _).mono (List.nil_subset _)
  | tail _ rewritten ih =>
      rcases rewritten with ⟨contents, written⟩
      exact (ih.trans (.of_write written)).mono
        (List.append_subset.mpr ⟨List.Subset.refl _, ih.leadsTo_subset path⟩)

/-- A call that does not succeed writes formulas only. -/
theorem changes_of_unsolved {result : Except SolverFailure Bool}
    (placed : environment.settings.Placed places before.directory)
    (solved : (problemOf environment recording).solveAt number before = (result, last))
    (unsolved : result ≠ .ok true) :
    before.directory.Changes (before.directory.leadsTo environment.settings.solver.formulaFile)
      last.directory := by
  have ended := (problemOf environment recording).solved_solveAt number before
  rw [solved] at ended
  cases ended with
  | feasible works written => exact absurd rfl unsolved
  | refused works | repeated works | late works | failed works =>
      exact changes_of_rewrites works.directory
  | unwritten works unwritten =>
      -- Where every file has a place, the lines of a solution can be written.
      have later := placed.changes (changes_of_rewrites works.directory)
      rcases later.inputs.writeInputs later.backup later.draft
        (InputRecord.lines recording.records _ recording.format) with ⟨final, written, _⟩
      cases unwritten.symm.trans written

/-- Refusals write formulas only. -/
theorem changes_of_refusals (placed : environment.settings.Placed places before.directory)
    (refusals : Relation.ReflTransGen
      (Search.Refuses (problemOf environment recording).solveAt) before last) :
    before.directory.Changes (before.directory.leadsTo environment.settings.solver.formulaFile)
      last.directory := by
  induction refusals with
  | refl => exact (Directory.Changes.refl _).mono (List.nil_subset _)
  | tail _ refused ih =>
      rcases refused with ⟨number, refused⟩
      have changes := changes_of_unsolved (placed.changes ih) refused (by simp)
      exact (ih.trans changes).mono
        (List.append_subset.mpr ⟨List.Subset.refl _, ih.leadsTo_subset _⟩)

/-- A call that succeeds writes the lines of its solution and keeps the earlier ones. -/
theorem changes_of_solved (placed : environment.settings.Placed places before.directory)
    (apart : environment.settings.Apart places before.directory)
    (solved : (problemOf environment recording).solveAt number before = (.ok true, last)) :
    ∃ solution changed, last.solution = some solution ∧
      before.directory.Changes changed last.directory ∧
      last.directory.get? places.inputs =
        some (.text (Text.unlines
          (InputRecord.lines recording.records solution recording.format))) ∧
      last.directory.get? places.backup =
        (before.directory.get? places.inputs).or (before.directory.get? places.backup) := by
  have ended := (problemOf environment recording).solved_solveAt number before
  rw [solved] at ended
  cases ended with
  | @feasible called solution directory works isWritten =>
      have formulas : before.directory.Changes
          (before.directory.leadsTo environment.settings.solver.formulaFile) called.directory :=
        changes_of_rewrites works.directory
      have later := placed.changes formulas
      rcases later.inputs.writeInputs later.backup later.draft
        (InputRecord.lines recording.records solution recording.format) with
        ⟨final, written, lines, inputs, backup⟩
      obtain rfl : directory = final := congrArg Prod.snd (isWritten.symm.trans written)
      refine ⟨solution, _, rfl, formulas.trans lines, inputs, ?_⟩
      have sameInputs := formulas.same places.inputs apart.notMem.1
      have sameBackup := formulas.same places.backup apart.notMem.2.1
      rw [← sameInputs, ← sameBackup]
      exact backup

/-- A search that finds no branch writes formulas only. -/
theorem Searched.changes {directory : Directory} {found : Except SolverFailure (Option Nat)}
    (placed : environment.settings.Placed places directory)
    (searched : Searched environment exploration recording directory found last)
    (unfound : ∀ position, found ≠ .ok (some position)) :
    directory.Changes (directory.leadsTo environment.settings.solver.formulaFile)
      last.directory := by
  cases searched with
  | refused refused => exact changes_of_refusals placed refused
  | found _ _ _ => exact absurd rfl (unfound _)
  | failed _ refused answered =>
      have changes := changes_of_refusals placed refused
      have lastChanges := changes_of_unsolved (placed.changes changes) answered (by simp)
      exact (changes.trans lastChanges).mono
        (List.append_subset.mpr ⟨List.Subset.refl _, changes.leadsTo_subset _⟩)

/-- A search that finds a branch writes the lines of the solution at which it ends. -/
theorem Searched.turns {directory : Directory} {position : Nat}
    (placed : environment.settings.Placed places directory)
    (apart : environment.settings.Apart places directory)
    (searched : Searched environment exploration recording directory (.ok (some position)) last) :
    ∃ solution changed,
      (∃ branch number before, recording.trail.steps[position]? = some (.branch branch) ∧
        branch.open? = some number ∧
        Relation.ReflTransGen (Search.Refuses (problemOf environment recording).solveAt)
          { exploration.bench with directory, solution := none } before ∧
        (problemOf environment recording).solveAt number before = (.ok true, last)) ∧
      last.solution = some solution ∧ directory.Changes changed last.directory ∧
      last.directory.get? places.inputs =
        some (.text (Text.unlines
          (InputRecord.lines recording.records solution recording.format))) ∧
      last.directory.get? places.backup =
        (directory.get? places.inputs).or (directory.get? places.backup) := by
  cases searched with
  | @found candidate before _ isOne refused answered =>
      rcases isOne with ⟨offset, branch, isStep, isPosition, isOpen⟩
      rw [Nat.zero_add] at isPosition
      have formulas := changes_of_refusals placed refused
      rcases changes_of_solved (placed.changes formulas) (apart.changes formulas) answered with
        ⟨solution, changed, isSolution, changes, inputs, backup⟩
      refine ⟨solution, _, ⟨branch, candidate.condition, before, isPosition ▸ isStep, isOpen,
        refused, answered⟩, isSolution, formulas.trans changes, inputs, ?_⟩
      rw [backup, formulas.same places.inputs apart.notMem.1,
        formulas.same places.backup apart.notMem.2.1]

end Solving

/-- What an iteration that turned the branch at a position aside hands on to the next one. -/
structure HandsOn (environment : Environment) (exploration after : Exploration) (position : Nat)
    (recording : Recording) (solution : Assignment) : Prop where
  run : after.runs = exploration.runs ++ [recording]
  /-- All calls before the one that succeeded were refused, and there was none after it. -/
  solved : ∃ left branch number before solved,
    recording.trail.steps[position]? = some (.branch branch) ∧ branch.open? = some number ∧
      Relation.ReflTransGen (Search.Refuses (problemOf environment recording).solveAt)
        { exploration.bench with directory := left, solution := none } before ∧
      (problemOf environment recording).solveAt number before = (.ok true, solved) ∧
      solved.solution = some solution ∧
      after.bench = { solved with directory := after.directory }
  once : after.bench.tally.feasible = exploration.bench.tally.feasible + 1
  inputs : after.directory.find? environment.settings.inputsFile =
    some (.text (Text.unlines (InputRecord.lines recording.records solution recording.format)))
  backup : after.directory.find? (environment.settings.inputsFile ++ ".bak") =
    (exploration.directory.find? environment.settings.inputsFile).or
      (exploration.directory.find? (environment.settings.inputsFile ++ ".bak"))
  path : after.directory.find? environment.settings.pathFile =
    some (.text (PathStep.listToText (recording.trail.flippedPrefix position)))

/-- What an iteration does to the files that are handed on, by its outcome: after a fault they are
as they were, after a branch was turned aside they belong together, and if no branch was found then
there is no expected path. -/
def MovesTogether (environment : Environment) (exploration after : Exploration) :
    Except ExplorationFault (Option Nat) → Prop
  | .error _ =>
      ∀ file ∈ environment.settings.handedOn,
        after.directory.find? file = exploration.directory.find? file
  | .ok (some position) =>
      ∃ recording solution, HandsOn environment exploration after position recording solution
  | .ok none =>
      after.directory.find? environment.settings.inputsFile =
          exploration.directory.find? environment.settings.inputsFile ∧
        after.directory.find? (environment.settings.inputsFile ++ ".bak") =
          exploration.directory.find? (environment.settings.inputsFile ++ ".bak") ∧
        after.directory.find? environment.settings.pathFile = none

theorem MovesTogether.same_of_fault {outcome : Except ExplorationFault (Option Nat)}
    (moves : MovesTogether environment exploration after outcome) (fails : outcome.isOk = false) :
    ∀ file ∈ environment.settings.handedOn,
      after.directory.find? file = exploration.directory.find? file := by
  cases outcome with
  | error fault => exact moves
  | ok found => cases fails

/-- The directory that the run of the program leaves. -/
def leftBy (environment : Environment) (exploration : Exploration) (recording : Recording) :
    Directory :=
  (environment.program exploration.runs.length recording exploration.directory).2.2

theorem Ran.exists_leftBy {lines : List String} {expected : List PathStep}
    {outcome : Except RunFault Unit} {recording : Recording} {directory : Directory}
    (ran : Ran environment exploration lines expected outcome recording directory) :
    ∃ started, directory = leftBy environment exploration started :=
  ⟨_, by rw [leftBy, ran.ended]⟩

/-- Changes elsewhere are not seen in the files that are handed on. -/
theorem find?_of_changes {places : Settings.Places} {left later : Directory}
    {changed : List Location} (placed : environment.settings.Placed places left)
    (changes : left.Changes changed later)
    (inputs : places.inputs ∉ changed) (backup : places.backup ∉ changed)
    (path : places.path ∉ changed) :
    ∀ file ∈ environment.settings.handedOn, later.find? file = left.find? file := by
  have later := placed.changes changes
  simp only [Settings.handedOn, List.forall_mem_cons, List.not_mem_nil, IsEmpty.forall_iff,
    implies_true, and_true, placed.inputs.find?, placed.backup.find?, placed.path.find?,
    later.inputs.find?, later.backup.find?, later.path.find?]
  exact ⟨changes.same _ inputs, changes.same _ backup, changes.same _ path⟩

section Searching

variable {places : Settings.Places} {recording : Recording} {left later : Directory} {last : Bench}

/-- The saved path is the flipped one, next to the lines of the solution that belong to it. -/
theorem Searched.handsOn {lines : List String} {position : Nat}
    (placed : environment.settings.Placed places left)
    (apart : environment.settings.Apart places left)
    (same : ∀ file ∈ environment.settings.handedOn,
      left.find? file = exploration.directory.find? file)
    (searched : Searched environment exploration recording left (.ok (some position)) last)
    (isSaved : PathFile.save last.directory environment.settings.pathFile
      (recording.trail.flippedPrefix position) = .ok later) :
    ∃ solution, HandsOn environment exploration
      ((exploration.afterSearch lines recording left last).inDirectory later) position recording
      solution := by
  have once := searched.feasible
  rcases searched.turns placed apart with
    ⟨solution, changed, ⟨branch, number, before, isStep, isOpen, refused, answered⟩, isSolution,
      changes, inputs, backup⟩
  have placedLast := placed.changes changes
  rw [placedLast.path.save] at isSaved
  cases isSaved
  have saving : last.directory.Changes [places.path] (last.directory.set places.path
      (.text (PathStep.listToText (recording.trail.flippedPrefix position)))) :=
    placedLast.path.changes_set (by simp) (by simp)
  have placedLater := placedLast.changes saving
  simp only [Settings.handedOn, List.forall_mem_cons, placed.inputs.find?,
    placed.backup.find?] at same
  refine ⟨solution, rfl, ⟨left, branch, number, before, last, isStep, isOpen, refused, answered,
    isSolution, rfl⟩, once, ?_, ?_, ?_⟩
  · refine placedLater.inputs.find?.trans ?_
    rw [saving.same _ (by simp [apart.ne]), inputs]
  · refine placedLater.backup.find?.trans ?_
    rw [saving.same _ (by simp [apart.ne]), backup, same.1, same.2.1]
  · refine placedLater.path.find?.trans ?_
    exact placedLast.path.get?_set_self _

end Searching

/-- Whatever the program records and the solver answers, an iteration with a fault leaves inputs,
backup and expected path as they were. One that turns a branch aside replaces all of them, and one
that finds no branch removes the expected path. This is said of programs that leave the three files
alone, and of places that are apart. -/
theorem inputs_and_path_move_together {outcome : Except ExplorationFault (Option Nat)}
    (leaves : ∀ recording, ∀ file ∈ environment.settings.handedOn,
      (leftBy environment exploration recording).find? file = exploration.directory.find? file)
    (placed : ∀ recording, ∃ places,
      environment.settings.Placed places (leftBy environment exploration recording) ∧
      environment.settings.Apart places (leftBy environment exploration recording))
    (iterated : iterate environment exploration = (outcome, after)) :
    MovesTogether environment exploration after outcome := by
  have ended := iterated_iterate environment exploration
  rw [iterated] at ended
  cases ended with
  | unread | unloaded => exact fun _ _ => rfl
  | runFailed ran =>
      rcases ran.exists_leftBy with ⟨started, rfl⟩
      exact leaves started
  | solveFailed ran searched =>
      rcases ran.exists_leftBy with ⟨started, rfl⟩
      rcases placed started with ⟨places, placed, apart⟩
      have unchanged := find?_of_changes placed (searched.changes placed (by simp))
        apart.notMem.1 apart.notMem.2.1 apart.notMem.2.2
      exact fun file isOne => (unchanged file isOne).trans (leaves started file isOne)
  | unsaved ran searched notSaved =>
      -- The path has a place, so it can be saved and removed.
      rcases ran.exists_leftBy with ⟨started, rfl⟩
      rcases placed started with ⟨places, placed, apart⟩
      rcases searched.turns placed apart with ⟨_, _, _, _, changes, _⟩
      rw [(placed.changes changes).path.save] at notSaved
      cases notSaved
  | uncleared ran searched notCleared =>
      rcases ran.exists_leftBy with ⟨started, rfl⟩
      rcases placed started with ⟨places, placed, apart⟩
      have changes := searched.changes placed (by simp)
      rcases (placed.changes changes).path.clear with ⟨_, isCleared, _⟩
      cases notCleared.symm.trans isCleared
  | turned ran searched isSaved =>
      rcases ran.exists_leftBy with ⟨started, rfl⟩
      rcases placed started with ⟨places, placed, apart⟩
      exact ⟨_, searched.handsOn placed apart (leaves started) isSaved⟩
  | @exhausted lines expected recording directory cleared last ran searched isCleared =>
      rcases ran.exists_leftBy with ⟨started, rfl⟩
      rcases placed started with ⟨places, placed, apart⟩
      have same := leaves started
      have formulas := searched.changes placed (by simp)
      have placedLast := placed.changes formulas
      rcases placedLast.path.clear with ⟨later, clears, clearing, isGone⟩
      obtain rfl : cleared = later := Except.ok.inj (isCleared.symm.trans clears)
      have placedLater := placedLast.changes clearing
      have changes := formulas.trans clearing
      simp only [Settings.handedOn, List.forall_mem_cons, placed.inputs.find?,
        placed.backup.find?] at same
      refine ⟨?_, ?_, ?_⟩
      · refine placedLater.inputs.find?.trans ?_
        rw [changes.same _ (by simp [apart.ne, apart.notMem]), same.1]
      · refine placedLater.backup.find?.trans ?_
        rw [changes.same _ (by simp [apart.ne, apart.notMem]), same.2.1]
      · exact placedLater.path.find?.trans isGone

/-- A directory with inputs in it. -/
def seeded : Exploration where
  bench := { directory := { entries := [("inputs", .text "1\n")] } }

theorem placed_seeded : ∃ places, fickle.settings.Placed places seeded.directory ∧
    fickle.settings.Apart places seeded.directory := by
  refine ⟨⟨"inputs", "inputs.bak", "inputs.tmp", "history.json"⟩, ?_,
    ⟨by decide +kernel, by decide⟩⟩
  constructor
  all_goals
    refine ⟨by decide +kernel, by decide +kernel, ?_⟩
    intro kind
    cases kind <;> decide +kernel

theorem seeded_inputs_and_path_move_together :
    ∃ after recording solution, iterate fickle seeded = (.ok (some 0), after) ∧
      HandsOn fickle seeded after 0 recording solution ∧
      after.directory.find? "inputs.bak" = some (.text "1\n") := by
  have turns : (iterate fickle seeded).1 = .ok (some 0) := by decide +kernel
  generalize iterated : iterate fickle seeded = result at turns ⊢
  rcases result with ⟨outcome, after⟩
  cases turns
  rcases inputs_and_path_move_together (fun _ _ _ => rfl) (fun _ => placed_seeded) iterated with
    ⟨recording, solution, handsOn⟩
  exact ⟨after, recording, solution, rfl, handsOn, handsOn.backup⟩

/-- A program with one branch, and a solver that always prints the same. -/
def unvarying (settings : Settings) (answer : String) : Environment where
  settings
  program := fun _ recording directory =>
    (.ok (), recording.branch true (some (.linear (.ofVar (.int 1)) .ge)) 0, directory)
  solver := fun _ _ => .ok [answer]

/-- A directory with inputs and a backup that can also be read as paths without steps. -/
def doubled : Exploration where
  bench := { directory := { entries := [("inputs", .text "[]\n"), ("inputs.bak", .text "[]\n")] } }

/-- Formulas go to one of the files that are handed on. -/
def misplacedFormulas : List Settings :=
  ["inputs", "inputs.bak", "history.json"].map fun file => { solver := { formulaFile := file } }

/-- The expected path is kept in the inputs or their backup. -/
def misplacedPaths : List Settings :=
  ["inputs", "inputs.bak"].map fun file => { pathFile := file }

/-- A program that cannot be started, and whose trace would be in the place of the inputs. -/
def misplacedTrace : Environment :=
  { unvarying {} "unsat" with
    program := TraceCommand.toProgram { traceFile := "inputs", launch := fun _ _ => none } }

/-- Each condition is needed. Settings under which the files are not apart are accepted, and then an
iteration with a fault or without a branch leaves something else in the inputs, in their backup or
as the expected path. So does one whose program removes the inputs. -/
theorem misplaced_files_part :
    (∀ settings ∈ misplacedFormulas, settings.validate = .ok () ∧
      ¬MovesTogether (unvarying settings "garbage") doubled
        (iterate (unvarying settings "garbage") doubled).2
        (iterate (unvarying settings "garbage") doubled).1) ∧
    (∀ settings ∈ misplacedPaths, settings.validate = .ok () ∧
      ¬MovesTogether (unvarying settings "unsat") doubled
        (iterate (unvarying settings "unsat") doubled).2
        (iterate (unvarying settings "unsat") doubled).1) ∧
    ¬MovesTogether misplacedTrace doubled (iterate misplacedTrace doubled).2
      (iterate misplacedTrace doubled).1 := by
  refine ⟨?_, ?_, ?_⟩
  · have checked : ∀ settings ∈ misplacedFormulas, settings.validate = .ok () ∧
        (iterate (unvarying settings "garbage") doubled).1.isOk = false ∧
        ∃ file ∈ settings.handedOn,
          (iterate (unvarying settings "garbage") doubled).2.directory.find? file ≠
            doubled.directory.find? file := by
      decide +kernel
    intro settings isOne
    rcases checked settings isOne with ⟨isValid, fails, file, isHandedOn, differs⟩
    exact ⟨isValid, fun moves => differs (moves.same_of_fault fails file isHandedOn)⟩
  · have checked : ∀ settings ∈ misplacedPaths, settings.validate = .ok () ∧
        (iterate (unvarying settings "unsat") doubled).1 = .ok none ∧
        ((iterate (unvarying settings "unsat") doubled).2.directory.find? settings.inputsFile =
            doubled.directory.find? settings.inputsFile →
          (iterate (unvarying settings "unsat") doubled).2.directory.find?
            (settings.inputsFile ++ ".bak") ≠
              doubled.directory.find? (settings.inputsFile ++ ".bak")) := by
      decide +kernel
    intro settings isOne
    rcases checked settings isOne with ⟨isValid, isNone, differs⟩
    refine ⟨isValid, fun moves => ?_⟩
    rw [isNone] at moves
    exact differs moves.1 moves.2.1
  · have fails : (iterate misplacedTrace doubled).1.isOk = false := by decide +kernel
    have differs : (iterate misplacedTrace doubled).2.directory.find? "inputs" ≠
        doubled.directory.find? "inputs" := by
      decide +kernel
    exact fun moves => differs (moves.same_of_fault fails "inputs" (by decide))

end Exploration

end Concolic
