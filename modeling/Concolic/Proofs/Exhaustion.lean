import Mathlib
import Concolic.Proofs.Trail

/-!
# Every feasible path is taken once

The program is a decision tree, of which some paths are feasible. Between two runs only a flipped
prefix of the trail is kept. If the search is told truly whether a feasible path parts from the
present one at a branch, and if the next run takes such a path, then the runs take every feasible path
exactly once before the search finds nothing more.

The invariant is about the branches that the saved steps mark as done (`settled`). What is left to
explore are the feasible paths that part from the present one at none of them (`remaining`). A search
that finds a branch takes exactly the present path away from what is left, and a search that finds
none leaves nothing but the present path.
-/

namespace Concolic

/-- Two paths agree up to an index and have different outcomes there. -/
def PartsAt (path other : List Bool) (index : Nat) : Prop :=
  path.take index = other.take index ∧
    ∃ outcome, path[index]? = some outcome ∧ other[index]? = some !outcome

instance (path other : List Bool) (index : Nat) : Decidable (PartsAt path other index) :=
  inferInstanceAs (Decidable (_ ∧ _))

namespace PartsAt

variable {path other third : List Bool} {index later : Nat}

theorem symm (parts : PartsAt path other index) : PartsAt other path index := by
  obtain ⟨agree, outcome, isOutcome, isOther⟩ := parts
  exact ⟨agree.symm, !outcome, isOther, by simpa using isOutcome⟩

theorem lt_length (parts : PartsAt path other index) : index < path.length := by
  obtain ⟨_, outcome, isOutcome, _⟩ := parts
  exact (List.getElem?_eq_some_iff.mp isOutcome).1

theorem ne (parts : PartsAt path other index) : path[index]? ≠ other[index]? := by
  obtain ⟨_, outcome, isOutcome, isOther⟩ := parts
  simp [isOutcome, isOther]

theorem irrefl (path : List Bool) (index : Nat) : ¬PartsAt path path index :=
  fun parts => parts.ne rfl

theorem getElem?_eq (parts : PartsAt path other later) (earlier : index < later) :
    path[index]? = other[index]? := by
  rw [← List.getElem?_take_of_lt earlier, parts.1, List.getElem?_take_of_lt earlier]

/-- Before the place where two paths part, a third path parts from both or from none. -/
theorem of_partsAt (parts : PartsAt path other later) (earlier : index < later)
    (partsThird : PartsAt path third index) : PartsAt other third index := by
  have agree : path.take index = other.take index := by
    have shorter := congrArg (List.take index) parts.1
    rwa [List.take_take, List.take_take, Nat.min_eq_left earlier.le] at shorter
  obtain ⟨agreeThird, outcome, isOutcome, isThird⟩ := partsThird
  exact ⟨agree.symm.trans agreeThird, outcome, parts.getElem?_eq earlier ▸ isOutcome, isThird⟩

/-- A path that parts from another at one index parts there from all that agree with it further. -/
theorem of_agree (parts : PartsAt path other index) (partsThird : PartsAt other third later)
    (isLater : index < later) : PartsAt path third index := by
  exact (partsThird.of_partsAt isLater parts.symm).symm

end PartsAt

/-- A program that only branches. -/
inductive DecisionTree where
  | leaf
  | fork (condition : PathCondition) (site : UInt32) (whenTrue whenFalse : DecisionTree)

namespace DecisionTree

/-- A path from the root to a leaf. -/
def IsPath : DecisionTree → List Bool → Prop
  | .leaf, path => path = []
  | .fork _ _ whenTrue _, true :: rest => whenTrue.IsPath rest
  | .fork _ _ _ whenFalse, false :: rest => whenFalse.IsPath rest
  | .fork _ _ _ _, [] => False

/-- Records the branches of a run along a path. -/
def record : DecisionTree → List Bool → Trail → Trail
  | .fork condition site whenTrue _, true :: rest, trail =>
      whenTrue.record rest (trail.recordBranch true (some condition) site)
  | .fork condition site _ whenFalse, false :: rest, trail =>
      whenFalse.record rest (trail.recordBranch false (some condition.negate) site)
  | _, _, trail => trail

/-- Two different paths part somewhere. -/
theorem exists_partsAt {tree : DecisionTree} {path other : List Bool} (isPath : tree.IsPath path)
    (isOther : tree.IsPath other) (apart : path ≠ other) : ∃ index, PartsAt path other index := by
  have shift {outcome : Bool} {rest otherRest : List Bool}
      (parts : ∃ index, PartsAt rest otherRest index) :
      ∃ index, PartsAt (outcome :: rest) (outcome :: otherRest) index := by
    obtain ⟨index, agree, own, isOwn, isOther⟩ := parts
    exact ⟨index + 1, by simp [agree], own, isOwn, isOther⟩
  induction tree generalizing path other with
  | leaf => exact absurd (isPath.trans isOther.symm) apart
  | fork condition site whenTrue whenFalse ihTrue ihFalse =>
      rcases path with _ | ⟨outcome, rest⟩
      · exact isPath.elim
      rcases other with _ | ⟨otherOutcome, otherRest⟩
      · exact isOther.elim
      cases outcome <;> cases otherOutcome
      · exact shift (ihFalse isPath isOther (by simpa using apart))
      · exact ⟨0, rfl, false, rfl, rfl⟩
      · exact ⟨0, rfl, true, rfl, rfl⟩
      · exact shift (ihTrue isPath isOther (by simpa using apart))

end DecisionTree

/-- Whether saved steps mark the branch at an index as done. -/
def settled (saved : List PathStep) (index : Nat) : Bool :=
  match saved[index]? with
  | some (.branch branch) => branch.done
  | _ => false

theorem lt_length_of_settled {saved : List PathStep} {index : Nat}
    (isSettled : settled saved index = true) : index < saved.length := by
  by_contra beyond
  simp [settled, List.getElem?_eq_none (Nat.le_of_not_lt beyond)] at isSettled

/-- Saved steps are the branches of a path, from its start on, and none of them is forced. -/
def Foresees (saved : List PathStep) (path : List Bool) : Prop :=
  ∀ (index : Nat) (step : PathStep), saved[index]? = some step →
    ∃ branch, step = .branch branch ∧ path[index]? = some branch.taken ∧ branch.forced = false

/-- The trail of a run along a path that was expected to take the saved steps. -/
structure Trail.Follows (trail : Trail) (saved : List PathStep) (path : List Bool) : Prop where
  expected : trail.expected = saved
  diverged : trail.diverged = false
  numbered : trail.conditions.length = path.length
  length : trail.steps.length = path.length
  step : ∀ (index : Nat) (taken : Bool), path[index]? = some taken →
    ∃ site, trail.steps[index]? = some (.branch
      { taken, done := settled saved index, condition := some index, site })

namespace Trail.Follows

variable {trail : Trail} {saved : List PathStep} {path rest : List Bool} {taken : Bool}

theorem start (saved : List PathStep) : (Trail.expecting saved).Follows saved [] :=
  ⟨rfl, rfl, rfl, rfl, by simp⟩

/-- One branch further along the path. -/
theorem recordBranch (follows : trail.Follows saved path) (foresees : Foresees saved
    (path ++ taken :: rest)) (condition : PathCondition) (site : UInt32) :
    (trail.recordBranch taken (some condition) site).Follows saved (path ++ [taken]) := by
  have next : trail.next? = saved[path.length]? := by
    simp [next?, follows.diverged, follows.expected, follows.length]
  have recorded : trail.recordBranch taken (some condition) site =
      { trail with
        steps := trail.steps ++ [.branch
          { taken, site, done := settled saved path.length, condition := some path.length }]
        conditions := trail.conditions ++ [condition] } := by
    rw [← follows.numbered]
    cases isNext : saved[path.length]? with
    | none =>
        rw [trail.recordBranch_of_unexpected (next.trans isNext)]
        simp [settled, follows.numbered, isNext]
    | some step =>
        obtain ⟨branch, rfl, isTaken, unforced⟩ := foresees _ _ isNext
        have agrees : branch.taken = taken := by simpa [eq_comm] using isTaken
        rw [trail.recordBranch_of_expected (next.trans isNext) agrees]
        simp [settled, follows.numbered, isNext, unforced]
  rw [recorded]
  refine ⟨follows.expected, follows.diverged, ?_, ?_, ?_⟩
  · simp [follows.numbered]
  · simp [follows.length]
  · intro index outcome isOutcome
    rw [List.getElem?_append] at isOutcome ⊢
    rw [follows.length]
    split
    · rename_i inRange
      rw [if_pos inRange] at isOutcome
      exact follows.step index outcome isOutcome
    · rename_i beyond
      rw [if_neg beyond] at isOutcome
      have isLast : index - path.length = 0 := by
        have := (List.getElem?_eq_some_iff.mp isOutcome).1
        simpa using this
      have same : index = path.length := by omega
      subst same
      rw [isLast] at isOutcome ⊢
      cases isOutcome
      exact ⟨site, rfl⟩

/-- A whole run along a path. -/
theorem record {tree : DecisionTree} (follows : trail.Follows saved path)
    (isPath : tree.IsPath rest) (foresees : Foresees saved (path ++ rest)) :
    (tree.record rest trail).Follows saved (path ++ rest) := by
  induction tree generalizing trail path rest with
  | leaf =>
      cases isPath
      simpa [DecisionTree.record] using follows
  | fork condition site whenTrue whenFalse ihTrue ihFalse =>
      rcases rest with _ | ⟨outcome, rest⟩
      · exact isPath.elim
      rw [List.append_cons] at foresees ⊢
      cases outcome with
      | true => exact ihTrue (follows.recordBranch (by simpa using foresees) _ _) isPath foresees
      | false => exact ihFalse (follows.recordBranch (by simpa using foresees) _ _) isPath foresees

/-- The branches of such a trail. -/
theorem branch_eq (follows : trail.Follows saved path) {index : Nat} {branch : Branch}
    (isStep : trail.steps[index]? = some (.branch branch)) :
    path[index]? = some branch.taken ∧ branch.forced = false ∧
      branch.done = settled saved index ∧ branch.condition = some index := by
  have inRange : index < path.length := by
    rw [← follows.length]
    exact (List.getElem?_eq_some_iff.mp isStep).1
  obtain ⟨site, isOwn⟩ := follows.step index _ (List.getElem?_eq_getElem inRange)
  rw [isStep, Option.some.injEq, PathStep.branch.injEq] at isOwn
  rw [isOwn]
  exact ⟨List.getElem?_eq_getElem inRange, rfl, rfl, rfl⟩

theorem settled_flippedPrefix (follows : trail.Follows saved path) {found : Nat}
    (inRange : found < path.length) (index : Nat) :
    settled (trail.flippedPrefix found) index =
      if index < found then settled saved index else decide (index = found) := by
  rw [settled, getElem?_flippedPrefix (follows.length ▸ inRange)]
  split_ifs with before same
  · obtain ⟨site, isStep⟩ :=
      follows.step index _ (List.getElem?_eq_getElem (before.trans inRange))
    simp [isStep]
  · subst same
    obtain ⟨site, isStep⟩ := follows.step index _ (List.getElem?_eq_getElem inRange)
    simp [isStep, PathStep.flipped, Branch.flipped]
  · simp [same]

/-- The flipped prefix foresees every path that parts from this one there. -/
theorem foresees_flippedPrefix (follows : trail.Follows saved path) {found : Nat}
    {next : List Bool} (parts : PartsAt path next found) :
    Foresees (trail.flippedPrefix found) next := by
  intro index step isStep
  have inRange := parts.lt_length
  rw [getElem?_flippedPrefix (follows.length ▸ inRange)] at isStep
  split_ifs at isStep with before same
  · obtain ⟨site, isOwn⟩ := follows.step index _ (List.getElem?_eq_getElem (before.trans inRange))
    rw [isOwn] at isStep
    cases isStep
    exact ⟨_, rfl, (parts.getElem?_eq before).symm.trans
      (List.getElem?_eq_getElem (before.trans inRange)), rfl⟩
  · subst same
    obtain ⟨_, outcome, isOutcome, isNext⟩ := parts
    obtain ⟨site, isOwn⟩ := follows.step index outcome isOutcome
    rw [isOwn] at isStep
    cases isStep
    exact ⟨_, rfl, isNext, rfl⟩

end Trail.Follows

/-- What the search may ask about the trail of a run, and the path that the next run takes after the
answers. -/
structure Oracle (State Failure : Type) where
  ask : Trail → Search.Ask State Failure
  next : State → List Bool

/-- On the trail of a run along a feasible path, the oracle tells truly whether a feasible path parts
from it at a branch, and if so, then the next run takes such a path. -/
structure Oracle.TellsOf {State Failure : Type} (oracle : Oracle State Failure)
    (tree : DecisionTree) (feasible : Finset (List Bool)) : Prop where
  decides : ∀ path ∈ feasible, ∀ saved, ∀ number < path.length,
    Search.Decides (oracle.ask (tree.record path (.expecting saved)))
      (∃ other ∈ feasible, PartsAt path other number) number
  leads : ∀ path ∈ feasible, ∀ saved, ∀ number < path.length, ∀ state after,
    oracle.ask (tree.record path (.expecting saved)) number state = (.ok true, after) →
      oracle.next after ∈ feasible ∧ PartsAt path (oracle.next after) number

/-- The branches of a run along a path have the outcomes of the path, whatever was expected. -/
theorem DecisionTree.taken_record {tree : DecisionTree} {path : List Bool} (isPath : tree.IsPath path)
    (trail : Trail) :
    (tree.record path trail).branches.map Branch.taken =
      trail.branches.map Branch.taken ++ path := by
  have recorded (trail : Trail) (taken : Bool) (condition : PathCondition) (site : UInt32) :
      (trail.recordBranch taken (some condition) site).branches.map Branch.taken =
        trail.branches.map Branch.taken ++ [taken] := by
    simp only [Trail.recordBranch, Trail.branches, List.filterMap_append, List.map_append]
    congr 1
    simp only [List.filterMap_cons, PathStep.branch?, List.filterMap_nil, List.map_cons,
      List.map_nil, Trail.meet]
    split
    · split <;> rfl
    · rfl
    · rfl
  induction tree generalizing path trail with
  | leaf =>
      cases isPath
      simp [record]
  | fork condition site whenTrue whenFalse ihTrue ihFalse =>
      rcases path with _ | ⟨outcome, rest⟩
      · exact isPath.elim
      cases outcome with
      | true => rw [record, ihTrue isPath, recorded, List.append_assoc, List.singleton_append]
      | false => rw [record, ihFalse isPath, recorded, List.append_assoc, List.singleton_append]

/-- The oracle that looks through a list of feasible paths and goes on with the first that parts from
the present one where it is asked. -/
def Oracle.ofPaths (feasible : List (List Bool)) : Oracle (List Bool) Empty where
  ask trail number state :=
    match feasible.find? fun other => PartsAt (trail.branches.map Branch.taken) other number with
    | some other => (.ok true, other)
    | none => (.ok false, state)
  next := id

theorem Oracle.tellsOf_ofPaths {tree : DecisionTree} {feasible : List (List Bool)}
    (arePaths : ∀ path ∈ feasible, tree.IsPath path) :
    (ofPaths feasible).TellsOf tree feasible.toFinset := by
  have outcomes {path : List Bool} (isFeasible : path ∈ feasible.toFinset) (saved : List PathStep) :
      (tree.record path (.expecting saved)).branches.map Branch.taken = path := by
    rw [DecisionTree.taken_record (arePaths path (List.mem_toFinset.mp isFeasible))]
    rfl
  constructor
  · intro path isFeasible saved number _ state
    simp only [ofPaths, outcomes isFeasible]
    cases found : feasible.find? fun other => PartsAt path other number with
    | some other =>
        refine ⟨true, other, rfl, iff_of_true rfl ⟨other, ?_, ?_⟩⟩
        · exact List.mem_toFinset.mpr (List.mem_of_find?_eq_some found)
        · simpa using List.find?_some found
    | none =>
        refine ⟨false, state, rfl, iff_of_false (by simp) ?_⟩
        rintro ⟨other, isOther, parts⟩
        simpa [parts] using List.find?_eq_none.mp found other (List.mem_toFinset.mp isOther)
  · intro path isFeasible saved number _ state after answered
    simp only [ofPaths, outcomes isFeasible] at answered
    split at answered
    · rename_i other found
      cases answered
      exact ⟨List.mem_toFinset.mpr (List.mem_of_find?_eq_some found),
        by simpa [ofPaths] using List.find?_some found⟩
    · simp at answered

/-- Runs and searches one after another: a run along a path records its branches, the search looks for
one that can be turned aside, and the flipped prefix is saved for the next run. The result are the
paths of the runs, if a search finds nothing more within the given number of runs. -/
def DecisionTree.explore {State Failure : Type} (tree : DecisionTree)
    (oracle : Oracle State Failure) :
    Nat → List PathStep → List Bool → State → Option (List (List Bool))
  | 0, _, _, _ => none
  | budget + 1, saved, path, state =>
      let trail := tree.record path (.expecting saved)
      match Search.depthFirst (oracle.ask trail) trail state with
      | (.error _, _) => none
      | (.ok none, _) => some [path]
      | (.ok (some position), after) =>
          (tree.explore oracle budget (trail.flippedPrefix position) (oracle.next after) after).map
            (path :: ·)

/-- What is left to explore: the feasible paths that part from the present one at no branch that is
done. -/
def remaining (feasible : Finset (List Bool)) (saved : List PathStep) (path : List Bool) :
    Finset (List Bool) :=
  feasible.filter fun other =>
    ∀ index < saved.length, settled saved index = true → ¬PartsAt path other index

section Remaining

variable {feasible : Finset (List Bool)} {saved : List PathStep} {path other next : List Bool}
  {trail : Trail} {found : Nat}

theorem mem_remaining :
    other ∈ remaining feasible saved path ↔
      other ∈ feasible ∧ ∀ index, settled saved index = true → ¬PartsAt path other index := by
  rw [remaining, Finset.mem_filter]
  refine and_congr_right fun _ => forall_congr' fun index => ?_
  exact ⟨fun apart isSettled => apart (lt_length_of_settled isSettled) isSettled,
    fun apart _ => apart⟩

theorem self_mem_remaining (isFeasible : path ∈ feasible) : path ∈ remaining feasible saved path :=
  mem_remaining.mpr ⟨isFeasible, fun index _ => PartsAt.irrefl path index⟩

/-- If nothing can be turned aside, then only the present path is left. -/
theorem remaining_eq_singleton {tree : DecisionTree} (arePaths : ∀ path ∈ feasible, tree.IsPath path)
    (isFeasible : path ∈ feasible)
    (infeasible : ∀ index, settled saved index = false →
      ¬∃ other ∈ feasible, PartsAt path other index) :
    remaining feasible saved path = {path} := by
  ext other
  rw [Finset.mem_singleton]
  constructor
  · intro isLeft
    obtain ⟨isOther, unsettled⟩ := mem_remaining.mp isLeft
    by_contra apart
    obtain ⟨index, parts⟩ :=
      DecisionTree.exists_partsAt (arePaths path isFeasible) (arePaths other isOther) (Ne.symm apart)
    cases isSettled : settled saved index with
    | true => exact unsettled index isSettled parts
    | false => exact infeasible index isSettled ⟨other, isOther, parts⟩
  · rintro rfl
    exact self_mem_remaining isFeasible

/-- If the search finds a branch, then the present path is taken away from what is left, and nothing
else. -/
theorem remaining_eq_insert {tree : DecisionTree} (arePaths : ∀ path ∈ feasible, tree.IsPath path)
    (isFeasible : path ∈ feasible) (follows : trail.Follows saved path)
    (isOpen : settled saved found = false) (parts : PartsAt path next found)
    (infeasible : ∀ index, found < index → settled saved index = false →
      ¬∃ other ∈ feasible, PartsAt path other index) :
    path ∉ remaining feasible (trail.flippedPrefix found) next ∧
      remaining feasible saved path =
        insert path (remaining feasible (trail.flippedPrefix found) next) := by
  have isSettled := follows.settled_flippedPrefix parts.lt_length
  have atFound : settled (trail.flippedPrefix found) found = true := by simp [isSettled]
  refine ⟨fun isLeft => (mem_remaining.mp isLeft).2 found atFound parts.symm, ?_⟩
  ext other
  rw [Finset.mem_insert, mem_remaining, mem_remaining]
  constructor
  · rintro ⟨isOther, unsettled⟩
    by_cases same : other = path
    · exact .inl same
    refine .inr ⟨isOther, ?_⟩
    obtain ⟨place, partsOther⟩ :=
      DecisionTree.exists_partsAt (arePaths path isFeasible) (arePaths other isOther) (Ne.symm same)
    -- The other path leaves this one at an open branch, so not below the one that was found.
    have notDeeper : place ≤ found := by
      by_contra deeper
      cases placeSettled : settled saved place with
      | true => exact unsettled place placeSettled partsOther
      | false => exact infeasible place (by omega) placeSettled ⟨other, isOther, partsOther⟩
    intro index indexSettled partsNext
    rw [isSettled] at indexSettled
    split_ifs at indexSettled with before
    · exact unsettled index indexSettled (parts.symm.of_partsAt before partsNext)
    · obtain rfl : index = found := by simpa using indexSettled
      rcases Nat.lt_or_eq_of_le notDeeper with isBefore | rfl
      · have agree := (parts.getElem?_eq isBefore).trans (partsNext.getElem?_eq isBefore)
        exact partsOther.ne agree
      · -- Three outcomes of one branch cannot be pairwise different.
        obtain ⟨_, first, isFirst, isSecond⟩ := parts
        obtain ⟨_, second, isSecond', isThird⟩ := partsNext
        obtain ⟨_, third, isFirst', isThird'⟩ := partsOther
        simp_all
  · rintro (rfl | ⟨isOther, unsettled⟩)
    · exact ⟨isFeasible, fun index _ => PartsAt.irrefl _ index⟩
    refine ⟨isOther, ?_⟩
    intro index indexSettled partsOther
    rcases Nat.lt_trichotomy index found with before | rfl | deeper
    · refine unsettled index ?_ (parts.of_partsAt before partsOther)
      rw [isSettled, if_pos before, indexSettled]
    · rw [isOpen] at indexSettled
      cases indexSettled
    · exact unsettled found atFound (parts.symm.of_agree partsOther deeper)

end Remaining

namespace DecisionTree

variable {State Failure : Type} {oracle : Oracle State Failure} {tree : DecisionTree}
  {feasible : Finset (List Bool)}

/-- From any point of the exploration, the runs take what is left to explore. -/
theorem explore_remaining (arePaths : ∀ path ∈ feasible, tree.IsPath path)
    (tells : oracle.TellsOf tree feasible) {saved : List PathStep} {path : List Bool}
    (isFeasible : path ∈ feasible) (foresees : Foresees saved path) (state : State) {budget : Nat}
    (enough : (remaining feasible saved path).card = budget) :
    ∃ runs, tree.explore oracle budget saved path state = some runs ∧ runs.Nodup ∧
      ∀ other, other ∈ runs ↔ other ∈ remaining feasible saved path := by
  induction budget generalizing saved path state with
  | zero =>
      rw [Finset.card_eq_zero] at enough
      have isLeft : path ∈ remaining feasible saved path := self_mem_remaining isFeasible
      simp [enough] at isLeft
  | succ budget ih =>
      have follows : (tree.record path (.expecting saved)).Follows saved path := by
        simpa using (Trail.Follows.start saved).record (arePaths path isFeasible) foresees
      simp only [explore]
      generalize isTrail : tree.record path (.expecting saved) = trail at follows ⊢
      have isNumber {branch : Branch} {index number : Nat}
          (isStep : trail.steps[index]? = some (.branch branch))
          (isOpen : branch.open? = some number) :
          number = index ∧ settled saved index = false ∧ index < path.length := by
        obtain ⟨isTaken, _, isDone, isCondition⟩ := follows.branch_eq isStep
        rw [Branch.open?, isDone, isCondition] at isOpen
        split_ifs at isOpen with notDone
        exact ⟨(Option.some.inj isOpen).symm, by simpa using notDone,
          (List.getElem?_eq_some_iff.mp isTaken).1⟩
      have openStep {index : Nat} (inRange : index < path.length)
          (notSettled : settled saved index = false) :
          ∃ branch, trail.steps[index]? = some (.branch branch) ∧ branch.open? = some index := by
        obtain ⟨site, isStep⟩ := follows.step index _ (List.getElem?_eq_getElem inRange)
        exact ⟨_, isStep, by simp [Branch.open?, notSettled]⟩
      have unforced : ∀ branch, .branch branch ∈ trail.steps → branch.forced = false := by
        intro branch isStep
        obtain ⟨index, isIndex⟩ := List.mem_iff_getElem?.mp isStep
        exact (follows.branch_eq isIndex).2.1
      have decides : ∀ branch number, .branch branch ∈ trail.steps → branch.open? = some number →
          Search.Decides (oracle.ask trail) (∃ other ∈ feasible, PartsAt path other number)
            number := by
        intro branch number isStep isOpen
        obtain ⟨index, isIndex⟩ := List.mem_iff_getElem?.mp isStep
        obtain ⟨rfl, _, inRange⟩ := isNumber isIndex isOpen
        exact isTrail ▸ tells.decides path isFeasible saved number inRange
      rcases Search.depthFirst_of_unforced unforced decides state with
        ⟨after, nothing, infeasible⟩ | ⟨found, branch, number, before, after, isStep, isOpen, asked,
          isFound, infeasible⟩
      · rw [nothing]
        have onlyPath : remaining feasible saved path = {path} := by
          apply remaining_eq_singleton arePaths isFeasible
          rintro index notSettled ⟨other, isOther, parts⟩
          obtain ⟨branch, isStep, isOpen⟩ := openStep parts.lt_length notSettled
          exact infeasible branch index (List.mem_of_getElem? isStep) isOpen ⟨other, isOther, parts⟩
        exact ⟨[path], rfl, List.nodup_singleton path, by simp [onlyPath]⟩
      · rw [isFound]
        obtain ⟨rfl, notSettled, inRange⟩ := isNumber isStep isOpen
        obtain ⟨nextFeasible, parts⟩ :=
          tells.leads path isFeasible saved number inRange before after (isTrail ▸ asked)
        obtain ⟨pathTaken, isInsert⟩ := remaining_eq_insert arePaths isFeasible follows notSettled
          parts fun index deeper notSettled ⟨other, isOther, parts⟩ =>
            let ⟨branch, isStep, isOpen⟩ := openStep parts.lt_length notSettled
            infeasible index branch index deeper isStep isOpen ⟨other, isOther, parts⟩
        rw [isInsert, Finset.card_insert_of_notMem pathTaken, Nat.add_right_cancel_iff] at enough
        obtain ⟨runs, explored, oneEach, areLeft⟩ :=
          ih nextFeasible (follows.foresees_flippedPrefix parts) after enough
        refine ⟨path :: runs, by simp [explored], ?_, ?_⟩
        · rw [List.nodup_cons, areLeft]
          exact ⟨pathTaken, oneEach⟩
        · intro other
          rw [List.mem_cons, areLeft, isInsert, Finset.mem_insert]

/-- The exploration of a decision tree ends after as many runs as there are feasible paths, and its
runs take each of them once. -/
theorem explore_takes_each_once (arePaths : ∀ path ∈ feasible, tree.IsPath path)
    (tells : oracle.TellsOf tree feasible) {start : List Bool} (isFeasible : start ∈ feasible)
    (state : State) :
    ∃ runs, tree.explore oracle feasible.card [] start state = some runs ∧
      runs.length = feasible.card ∧ runs.Nodup ∧ ∀ path, path ∈ runs ↔ path ∈ feasible := by
  have nothingSettled : remaining feasible [] start = feasible := by simp [remaining]
  have nothingForeseen : Foresees [] start := by simp [Foresees]
  obtain ⟨runs, explored, oneEach, areAll⟩ :=
    explore_remaining arePaths tells isFeasible nothingForeseen state (by rw [nothingSettled])
  rw [nothingSettled] at areAll
  have sameSet : runs.toFinset = feasible := by
    ext path
    rw [List.mem_toFinset, areAll]
  exact ⟨runs, explored, by rw [← sameSet, List.toFinset_card_of_nodup oneEach], oneEach, areAll⟩

/-- A tree with five paths of different lengths. -/
def uneven : DecisionTree :=
  .fork .truth 1
    (.fork .truth 2 (.fork .truth 3 .leaf .leaf) .leaf)
    (.fork .truth 4 .leaf .leaf)

/-- Three of the five paths are feasible, and three runs take them. -/
theorem uneven_takes_each_once :
    ∃ runs, uneven.explore (.ofPaths [[false, true], [true, true, false], [true, false]]) 3 []
        [true, true, false] [] = some runs ∧
      runs.length = 3 ∧ runs.Nodup ∧
      ∀ path, path ∈ runs ↔ path ∈ [[false, true], [true, true, false], [true, false]] := by
  have arePaths : ∀ path ∈ [[false, true], [true, true, false], [true, false]],
      uneven.IsPath path := by
    simp [uneven, IsPath]
  simpa using explore_takes_each_once (fun path isPath => arePaths path (List.mem_toFinset.mp isPath))
    (Oracle.tellsOf_ofPaths arePaths) (by decide : [true, true, false] ∈ _) []

end DecisionTree

end Concolic
