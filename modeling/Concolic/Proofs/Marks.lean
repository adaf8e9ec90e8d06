import Mathlib
import Concolic.Proofs.Repetition

/-!
# Where the marks of a branch come from

A branch has two sources of marks. When it is recorded, it takes over the marks of the expected
branch, as long as the trail goes the expected way. Later, a mark may be put on it, but only while
it is the last branch of the trail; edges of scopes that follow it do not count.

`Trail.Accounted` says this of a trail and the calls that made it, and every call keeps it. A call
that records something appends one step, and only that step is compared with the expectation
(`Accounted.append`). A mark changes the last branch only (`Accounted.append_mark`).
-/

namespace Concolic

/-- The two marks of a branch. -/
inductive Mark where
  | done
  | forced

namespace Branch

/-- Whether the branch has a mark. -/
def marked (branch : Branch) : Mark → Bool
  | .done => branch.done
  | .forced => branch.forced

/-- The branch with a mark put on it. -/
def mark (branch : Branch) : Mark → Branch
  | .done => { branch with done := true }
  | .forced => { branch with forced := true }

theorem marked_mark {branch : Branch} {put mark : Mark} :
    (branch.mark put).marked mark = true ↔ branch.marked mark = true ∨ put = mark := by
  cases put <;> cases mark <;> simp [Branch.mark, marked]

theorem taken_mark (branch : Branch) (put : Mark) : (branch.mark put).taken = branch.taken := by
  cases put <;> rfl

end Branch

theorem getElem?_concat_eq_some {α : Type} {items : List α} {last item : α} {index : Nat} :
    (items ++ [last])[index]? = some item ↔
      items[index]? = some item ∨ index = items.length ∧ last = item := by
  rcases Nat.lt_trichotomy index items.length with inside | rfl | beyond
  · rw [List.getElem?_append_left inside]
    simp [Nat.ne_of_lt inside]
  · simp
  · rw [List.getElem?_eq_none (by simpa using beyond), List.getElem?_eq_none (Nat.le_of_lt beyond)]
    simp [Nat.ne_of_gt beyond]

namespace PathStep

variable {expected steps other : List PathStep} {step : PathStep} {index : Nat}

/-- The step at an index is a branch, and no later step is one. -/
def IsLast (steps : List PathStep) (index : Nat) : Prop :=
  (∃ fork, steps[index]? = some (.branch fork)) ∧
    ∀ later fork, index < later → steps[later]? ≠ some (.branch fork)

/-- At an index, a step was expected and another kind of step, another outcome or another edge was
recorded. -/
def Departs (expected steps : List PathStep) (index : Nat) : Prop :=
  ∃ saved step, expected[index]? = some saved ∧ steps[index]? = some step ∧
    step.outline ≠ saved.outline

/-- A branch was expected at an index, with a mark, and up to there the steps go the expected
way. -/
def Inherits (expected steps : List PathStep) (index : Nat) (mark : Mark) : Prop :=
  ∃ saved, expected[index]? = some (.branch saved) ∧ saved.marked mark = true ∧
    ∀ earlier ≤ index, ¬Departs expected steps earlier

theorem IsLast.lt_length (isLast : IsLast steps index) : index < steps.length := by
  rcases isLast with ⟨⟨fork, isFork⟩, _⟩
  exact (List.getElem?_eq_some_iff.mp isFork).1

theorem isLast_append_branch {fork : Branch} :
    IsLast (steps ++ [.branch fork]) index ↔ index = steps.length := by
  constructor
  · intro isLast
    have inside := isLast.lt_length
    rw [List.length_append, List.length_singleton] at inside
    by_contra notEnd
    apply isLast.2 steps.length fork (by omega)
    exact List.getElem?_concat_length
  · rintro rfl
    refine ⟨⟨fork, List.getElem?_concat_length⟩, ?_⟩
    intro later other beyond isBranch
    rcases getElem?_concat_eq_some.mp isBranch with inSteps | ⟨rfl, _⟩
    · have := (List.getElem?_eq_some_iff.mp inSteps).1
      omega
    · omega

theorem isLast_append_scope {edge : ScopeEdge} :
    IsLast (steps ++ [.scope edge]) index ↔ IsLast steps index := by
  have sameBranches (position : Nat) (fork : Branch) :
      (steps ++ [.scope edge])[position]? = some (.branch fork) ↔
        steps[position]? = some (.branch fork) := by
    rw [getElem?_concat_eq_some]
    simp
  simp only [IsLast, ne_eq, sameBranches]

theorem changeLastBranch_append_scope (change : Branch → Branch) (steps : List PathStep)
    (edge : ScopeEdge) :
    changeLastBranch change (steps ++ [.scope edge]) =
      changeLastBranch change steps ++ [.scope edge] := by
  simp [changeLastBranch, changeFirstBranch]

/-- Changing the last branch of a list of steps changes one step, the last branch, or there is
none. -/
theorem changeLastBranch_cases (change : Branch → Branch) (steps : List PathStep) :
    (changeLastBranch change steps = steps ∧ ∀ index, ¬IsLast steps index) ∨
      ∃ front fork back, steps = front ++ .branch fork :: back ∧
        changeLastBranch change steps = front ++ .branch (change fork) :: back ∧
        ∀ index, IsLast steps index ↔ index = front.length := by
  induction steps using List.reverseRecOn with
  | nil =>
      left
      refine ⟨rfl, ?_⟩
      intro index isLast
      exact absurd isLast.lt_length (Nat.not_lt_zero index)
  | append_singleton rest step ih =>
      cases step with
      | branch fork =>
          right
          refine ⟨rest, fork, [], rfl, Recording.changeLastBranch_append change rest fork, ?_⟩
          intro index
          exact isLast_append_branch
      | scope edge =>
          simp only [changeLastBranch_append_scope, isLast_append_scope]
          rcases ih with ⟨unchanged, none⟩ | ⟨front, fork, back, isRest, changed, isLast⟩
          · left
            exact ⟨by rw [unchanged], none⟩
          · right
            refine ⟨front, fork, back ++ [.scope edge], ?_, ?_, isLast⟩
            · simp [isRest]
            · simp [changed]

theorem getElem?_changeLastBranch_of_not_isLast (change : Branch → Branch)
    (notLast : ¬IsLast steps index) : (changeLastBranch change steps)[index]? = steps[index]? := by
  rcases changeLastBranch_cases change steps with
    ⟨unchanged, _⟩ | ⟨front, fork, back, isSteps, changed, isLast⟩
  · rw [unchanged]
  · rw [isLast] at notLast
    rw [changed, isSteps, List.getElem?_append, List.getElem?_append]
    split
    · rfl
    · rename_i notBefore
      have beyond : index - front.length = index - front.length - 1 + 1 := by omega
      rw [beyond, List.getElem?_cons_succ, List.getElem?_cons_succ]

theorem getElem?_changeLastBranch_of_isLast (change : Branch → Branch)
    (isLast : IsLast steps index) {fork : Branch} (isFork : steps[index]? = some (.branch fork)) :
    (changeLastBranch change steps)[index]? = some (.branch (change fork)) := by
  rcases changeLastBranch_cases change steps with
    ⟨_, none⟩ | ⟨front, last, back, isSteps, changed, isEnd⟩
  · exact absurd isLast (none index)
  · rw [isEnd] at isLast
    subst isLast
    rw [isSteps] at isFork
    have same : last = fork := by simpa using isFork
    rw [changed, ← same]
    simp

/-- A mark leaves the way of the steps as it is. -/
theorem outlines_changeLastBranch {change : Branch → Branch}
    (sameTaken : ∀ branch, (change branch).taken = branch.taken) (steps : List PathStep) :
    (changeLastBranch change steps).map outline = steps.map outline := by
  rcases changeLastBranch_cases change steps with
    ⟨unchanged, _⟩ | ⟨front, fork, back, isSteps, changed, _⟩
  · rw [unchanged]
  · rw [changed, isSteps]
    simp [outline, sameTaken]

theorem outline_eq_branch_iff {taken : Bool} :
    step.outline = .inl taken ↔ ∃ fork, step = .branch fork ∧ fork.taken = taken := by
  cases step <;> simp [outline]

theorem Departs.lt_length (departs : Departs expected steps index) : index < steps.length := by
  rcases departs with ⟨_, step, _, isStep, _⟩
  exact (List.getElem?_eq_some_iff.mp isStep).1

theorem departs_congr (sameWay : other.map outline = steps.map outline) :
    Departs expected other index ↔ Departs expected steps index := by
  have viaOutlines (steps : List PathStep) : Departs expected steps index ↔
      ∃ saved way, expected[index]? = some saved ∧ (steps.map outline)[index]? = some way ∧
        way ≠ saved.outline := by
    simp [Departs]
  rw [viaOutlines, viaOutlines, sameWay]

/-- A step at the end can depart at the end only. -/
theorem departs_append :
    Departs expected (steps ++ [step]) index ↔
      Departs expected steps index ∨ index = steps.length ∧
        ∃ saved, expected[index]? = some saved ∧ step.outline ≠ saved.outline := by
  simp only [Departs, getElem?_concat_eq_some]
  constructor
  · rintro ⟨saved, recorded, isSaved, inSteps | ⟨isEnd, rfl⟩, differs⟩
    · exact .inl ⟨saved, recorded, isSaved, inSteps, differs⟩
    · exact .inr ⟨isEnd, saved, isSaved, differs⟩
  · rintro (⟨saved, recorded, isSaved, inSteps, differs⟩ | ⟨isEnd, saved, isSaved, differs⟩)
    · exact ⟨saved, recorded, isSaved, .inl inSteps, differs⟩
    · exact ⟨saved, step, isSaved, .inr ⟨isEnd, rfl⟩, differs⟩

theorem inherits_append_of_lt {mark : Mark} (inside : index < steps.length) :
    Inherits expected (steps ++ [step]) index mark ↔ Inherits expected steps index mark := by
  have sameUpTo (earlier : Nat) (upTo : earlier ≤ index) :
      Departs expected (steps ++ [step]) earlier ↔ Departs expected steps earlier := by
    rw [departs_append]
    constructor
    · rintro (departs | ⟨isEnd, _⟩)
      · exact departs
      · omega
    · exact .inl
  apply exists_congr
  intro saved
  apply and_congr_right
  intro _
  apply and_congr_right
  intro _
  apply forall₂_congr
  intro earlier upTo
  rw [sameUpTo earlier upTo]

theorem inherits_congr {mark : Mark} (sameWay : other.map outline = steps.map outline) :
    Inherits expected other index mark ↔ Inherits expected steps index mark := by
  simp only [Inherits, departs_congr sameWay]

theorem exists_expected_branch {fork : Branch} (isFork : steps[index]? = some (.branch fork))
    (inside : index < expected.length) (follows : ¬Departs expected steps index) :
    ∃ saved, expected[index]? = some (.branch saved) ∧ saved.taken = fork.taken := by
  have isSaved : expected[index]? = some expected[index] := List.getElem?_eq_getElem inside
  have sameWay : expected[index].outline = .inl fork.taken := by
    by_contra differs
    exact follows ⟨_, _, isSaved, isFork, Ne.symm differs⟩
  rcases outline_eq_branch_iff.mp sameWay with ⟨saved, isBranch, sameOutcome⟩
  exact ⟨saved, isSaved.trans (congrArg some isBranch), sameOutcome⟩

theorem inherits_iff_marked {saved : Branch} {mark : Mark}
    (isSaved : expected[index]? = some (.branch saved))
    (follows : ∀ earlier ≤ index, ¬Departs expected steps earlier) :
    Inherits expected steps index mark ↔ saved.marked mark = true := by
  constructor
  · rintro ⟨other, isOther, isMarked, _⟩
    have same : saved = other := by simpa [isSaved] using isOther
    rwa [same]
  · intro isMarked
    exact ⟨saved, isSaved, isMarked, follows⟩

theorem not_inherits {mark : Mark}
    (outside : expected.length ≤ index ∨ ∃ earlier ≤ index, Departs expected steps earlier) :
    ¬Inherits expected steps index mark := by
  rintro ⟨saved, isSaved, _, follows⟩
  rcases outside with beyond | ⟨earlier, upTo, departs⟩
  · exact absurd (List.getElem?_eq_some_iff.mp isSaved).1 (Nat.not_lt.mpr beyond)
  · exact follows earlier upTo departs

end PathStep

namespace Trail

open PathStep (outline IsLast Departs Inherits)

/-- What can be done to a trail. -/
inductive Call where
  | branch (taken : Bool) (condition : Option PathCondition) (site : UInt32)
  | scope (edge : ScopeEdge)
  | mark (mark : Mark)

/-- The way that a call records. -/
def Call.outline? : Call → Option (Bool ⊕ ScopeEdge)
  | .branch taken _ _ => some (.inl taken)
  | .scope edge => some (.inr edge)
  | .mark _ => none

/-- The trail after a call. -/
def make (trail : Trail) : Call → Trail
  | .branch taken condition site => trail.recordBranch taken condition site
  | .scope edge => trail.recordScope edge
  | .mark .done => trail.markDone
  | .mark .forced => trail.markForced

/-- The trail after calls. -/
def makeAll (trail : Trail) (calls : List Call) : Trail :=
  calls.foldl make trail

/-- A mark was put on a branch, while it was the last one. -/
def MarkedWhileLast (expected : List PathStep) (calls : List Call) (mark : Mark) (index : Nat) :
    Prop :=
  ∃ before after, calls = before ++ .mark mark :: after ∧
    IsLast ((expecting expected).makeAll before).steps index

variable {expected : List PathStep} {calls : List Call} {call : Call} {trail : Trail}
  {index : Nat} {mark : Mark}

theorem makeAll_append (trail : Trail) (calls : List Call) (call : Call) :
    trail.makeAll (calls ++ [call]) = (trail.makeAll calls).make call := by
  simp [makeAll]

theorem make_mark (trail : Trail) (mark : Mark) :
    trail.make (.mark mark) =
      { trail with steps := PathStep.changeLastBranch (Branch.mark · mark) trail.steps } := by
  cases mark <;> rfl

theorem markedWhileLast_append :
    MarkedWhileLast expected (calls ++ [call]) mark index ↔
      MarkedWhileLast expected calls mark index ∨
        call = .mark mark ∧ IsLast ((expecting expected).makeAll calls).steps index := by
  constructor
  · rintro ⟨before, after, isSplit, isLast⟩
    rcases List.eq_nil_or_concat' after with rfl | ⟨rest, final, rfl⟩
    · rcases List.append_singleton_inj.mp isSplit with ⟨rfl, rfl⟩
      exact .inr ⟨rfl, isLast⟩
    · rw [← List.cons_append, ← List.append_assoc] at isSplit
      rcases List.append_singleton_inj.mp isSplit with ⟨rfl, rfl⟩
      exact .inl ⟨before, rest, rfl, isLast⟩
  · rintro (⟨before, after, rfl, isLast⟩ | ⟨rfl, isLast⟩)
    · exact ⟨before, after ++ [call], by simp, isLast⟩
    · exact ⟨calls, [], rfl, isLast⟩

/-- The trail and the marks on it are accounted for by the calls. -/
structure Accounted (expected : List PathStep) (calls : List Call) (trail : Trail) : Prop where
  isTrail : (expecting expected).makeAll calls = trail
  expects : trail.expected = expected
  outlines : trail.steps.map outline = calls.filterMap Call.outline?
  diverged : trail.diverged = true ↔ ∃ index, Departs expected trail.steps index
  recorded : ∀ index mark, MarkedWhileLast expected calls mark index → index < trail.steps.length
  marks : ∀ index fork, trail.steps[index]? = some (.branch fork) → ∀ mark,
    fork.marked mark = true ↔
      Inherits expected trail.steps index mark ∨ MarkedWhileLast expected calls mark index

/-- What a call that records a step does, whichever step it is. -/
structure Records (trail : Trail) (call : Call) (step : PathStep) : Prop where
  outline?_eq : call.outline? = some step.outline
  steps_eq : (trail.make call).steps = trail.steps ++ [step]
  expected_eq : (trail.make call).expected = trail.expected
  diverged_iff : (trail.make call).diverged = true ↔ trail.diverged = true ∨
    ∃ saved, trail.next? = some saved ∧ step.outline ≠ saved.outline
  marked_iff : ∀ fork, step = .branch fork → ∀ mark, fork.marked mark = true ↔
    ∃ saved, trail.next? = some (.branch saved) ∧ saved.taken = fork.taken ∧
      saved.marked mark = true

theorem records_branch (trail : Trail) (taken : Bool) (condition : Option PathCondition)
    (site : UInt32) : ∃ step, trail.Records (.branch taken condition site) step := by
  refine ⟨.branch (meet trail.next? ⟨taken, false, false,
    condition.map fun _ => trail.conditions.length, site⟩).1, ?_, rfl, rfl, ?_, ?_⟩
  · rw [outline, taken_meet, Call.outline?]
  · rw [make, recordBranch]
    rcases trail.next? with _ | saved | edge
    · simp [meet]
    · by_cases sameOutcome : saved.taken = taken
      · simp [meet, sameOutcome, outline]
      · have otherOutcome : taken ≠ saved.taken := Ne.symm sameOutcome
        simp [meet, sameOutcome, otherOutcome, outline]
    · simp [meet, outline]
  · rintro fork isFork mark
    rw [PathStep.branch.injEq] at isFork
    subst isFork
    rw [taken_meet]
    rcases trail.next? with _ | saved | edge
    · cases mark <;> simp [meet, Branch.marked]
    · by_cases sameOutcome : saved.taken = taken
      · cases mark <;> simp [meet, sameOutcome, Branch.marked]
      · cases mark <;> simp [meet, sameOutcome, Branch.marked]
    · cases mark <;> simp [meet, Branch.marked]

theorem records_scope (trail : Trail) (edge : ScopeEdge) :
    trail.Records (.scope edge) (.scope edge) := by
  refine ⟨rfl, rfl, rfl, ?_, nofun⟩
  rw [make, recordScope]
  rcases trail.next? with _ | saved | other
  · simp
  · simp [outline]
  · by_cases sameEdge : edge = other
    · simp [outline, sameEdge]
    · have otherEdge : other ≠ edge := Ne.symm sameEdge
      simp [outline, sameEdge, otherEdge]

namespace Accounted

variable {step : PathStep} (accounted : Accounted expected calls trail)

include accounted

theorem next?_eq_some_iff {saved : PathStep} :
    trail.next? = some saved ↔
      (∀ index, ¬Departs expected trail.steps index) ∧
        expected[trail.steps.length]? = some saved := by
  rw [next?, accounted.expects]
  split
  · rename_i isDiverged
    rcases accounted.diverged.mp isDiverged with ⟨index, departs⟩
    simp only [reduceCtorEq, false_iff, not_and]
    intro follows
    exact absurd departs (follows index)
  · rename_i notDiverged
    rw [accounted.diverged, not_exists] at notDiverged
    simp [notDiverged]

theorem append_diverged (records : trail.Records call step) :
    (trail.make call).diverged = true ↔
      ∃ index, Departs expected (trail.steps ++ [step]) index := by
  rw [records.diverged_iff, accounted.diverged]
  simp only [accounted.next?_eq_some_iff, PathStep.departs_append]
  constructor
  · rintro (⟨index, departs⟩ | ⟨saved, ⟨_, isSaved⟩, differs⟩)
    · exact ⟨index, .inl departs⟩
    · exact ⟨_, .inr ⟨rfl, saved, isSaved, differs⟩⟩
  · rintro ⟨index, departs | ⟨rfl, saved, isSaved, differs⟩⟩
    · exact .inl ⟨index, departs⟩
    · -- After an earlier departure nothing is expected, so this one is not noticed; nor need it be.
      by_cases hasLeft : ∃ index, Departs expected trail.steps index
      · exact .inl hasLeft
      · exact .inr ⟨saved, ⟨not_exists.mp hasLeft, isSaved⟩, differs⟩

/-- The branch that is recorded last has the marks that it takes over. -/
theorem append_marked_iff (records : trail.Records call step) {fork : Branch}
    (isFork : step = .branch fork) :
    fork.marked mark = true ↔
      Inherits expected (trail.steps ++ [step]) trail.steps.length mark := by
  rw [records.marked_iff fork isFork]
  simp only [accounted.next?_eq_some_iff]
  constructor
  · rintro ⟨saved, ⟨follows, isSaved⟩, sameOutcome, isMarked⟩
    refine ⟨saved, isSaved, isMarked, ?_⟩
    intro earlier _ departs
    rcases PathStep.departs_append.mp departs with before | ⟨rfl, other, isOther, differs⟩
    · exact follows earlier before
    · rw [isSaved, Option.some.injEq] at isOther
      apply differs
      rw [isFork, ← isOther, outline, outline, sameOutcome]
  · rintro ⟨saved, isSaved, isMarked, follows⟩
    refine ⟨saved, ⟨?_, isSaved⟩, ?_, isMarked⟩
    · intro earlier departs
      apply follows earlier (Nat.le_of_lt departs.lt_length)
      exact PathStep.departs_append.mpr (.inl departs)
    · by_contra otherOutcome
      apply follows _ le_rfl
      apply PathStep.departs_append.mpr
      refine .inr ⟨rfl, .branch saved, isSaved, ?_⟩
      simpa [isFork, outline, eq_comm] using otherOutcome

theorem append (records : trail.Records call step) :
    Accounted expected (calls ++ [call]) (trail.make call) := by
  have notMark (mark : Mark) : call ≠ .mark mark := by
    rintro rfl
    exact absurd records.outline?_eq nofun
  have sameMarks (mark : Mark) (index : Nat) :
      MarkedWhileLast expected (calls ++ [call]) mark index ↔
        MarkedWhileLast expected calls mark index := by
    rw [markedWhileLast_append]
    simp [notMark mark]
  constructor
  · rw [makeAll_append, accounted.isTrail]
  · exact records.expected_eq.trans accounted.expects
  · simp [records.steps_eq, accounted.outlines, records.outline?_eq]
  · rw [records.steps_eq]
    exact accounted.append_diverged records
  · intro index mark isMarked
    have := accounted.recorded index mark ((sameMarks mark index).mp isMarked)
    rw [records.steps_eq, List.length_append]
    omega
  · intro index fork isFork mark
    rw [records.steps_eq] at isFork ⊢
    rw [sameMarks]
    rcases getElem?_concat_eq_some.mp isFork with inSteps | ⟨rfl, isStep⟩
    · rw [PathStep.inherits_append_of_lt (List.getElem?_eq_some_iff.mp inSteps).1]
      exact accounted.marks index fork inSteps mark
    · rw [accounted.append_marked_iff records isStep]
      -- No earlier mark can have reached the branch that is recorded only now.
      have notYet : ¬MarkedWhileLast expected calls mark trail.steps.length :=
        fun isMarked => Nat.lt_irrefl _ (accounted.recorded _ mark isMarked)
      simp [notYet]

theorem append_mark (put : Mark) :
    Accounted expected (calls ++ [.mark put]) (trail.make (.mark put)) := by
  have sameWay := PathStep.outlines_changeLastBranch (Branch.taken_mark · put) trail.steps
  have sameLength :=
    (PathStep.forall₂_changeLastBranch (Branch.mark · put) trail.steps).length_eq.symm
  constructor
  · rw [makeAll_append, accounted.isTrail]
  · exact (congrArg Trail.expected (make_mark trail put)).trans accounted.expects
  · rw [make_mark]
    simp [sameWay, accounted.outlines, Call.outline?]
  · rw [make_mark]
    simp only [PathStep.departs_congr sameWay]
    exact accounted.diverged
  · intro index mark isMarked
    rw [make_mark, sameLength]
    rcases markedWhileLast_append.mp isMarked with before | ⟨_, isLast⟩
    · exact accounted.recorded index mark before
    · rw [accounted.isTrail] at isLast
      exact isLast.lt_length
  · intro index fork isFork mark
    rw [make_mark] at isFork ⊢
    rw [PathStep.inherits_congr sameWay, markedWhileLast_append, accounted.isTrail, Call.mark.injEq,
      ← or_assoc]
    by_cases isLast : IsLast trail.steps index
    · rcases isLast.1 with ⟨last, wasFork⟩
      rw [PathStep.getElem?_changeLastBranch_of_isLast _ isLast wasFork] at isFork
      have isLastMarked : last.mark put = fork := by simpa using isFork
      rw [← accounted.marks index last wasFork, ← isLastMarked, Branch.marked_mark]
      simp [isLast]
    · rw [PathStep.getElem?_changeLastBranch_of_not_isLast _ isLast] at isFork
      rw [← accounted.marks index fork isFork]
      simp [isLast]

end Accounted

theorem accounted_makeAll (expected : List PathStep) (calls : List Call) :
    Accounted expected calls ((expecting expected).makeAll calls) := by
  -- Which branch a mark reached is a matter of the calls before it, so the last call is taken off.
  induction calls using List.reverseRecOn with
  | nil =>
      refine ⟨rfl, rfl, rfl, ?_, ?_, nofun⟩
      · simp [makeAll, expecting, Departs]
      · rintro index mark ⟨before, after, isSplit, _⟩
        simp at isSplit
  | append_singleton rest call ih =>
      rw [makeAll_append]
      cases call with
      | branch taken condition site =>
          rcases records_branch ((expecting expected).makeAll rest) taken condition site with
            ⟨step, records⟩
          exact ih.append records
      | scope edge => exact ih.append (records_scope _ edge)
      | mark put => exact ih.append_mark put

/-- Whatever was expected and whatever calls are made, the trail has diverged just if some recorded
step departs from the expected one; a branch before any departure has the expected marks and those
that were put on it while it was the last branch, every other branch has the latter only; and a mark
reaches no step but the last branch. -/
theorem marks_of_makeAll (expected : List PathStep) (calls : List Call) :
    let trail := (expecting expected).makeAll calls
    trail.steps.map outline = calls.filterMap Call.outline? ∧
    (trail.diverged = true ↔ ∃ index, Departs expected trail.steps index) ∧
    (∀ index fork, trail.steps[index]? = some (.branch fork) →
      (index < expected.length → (∀ earlier ≤ index, ¬Departs expected trail.steps earlier) →
        ∃ saved, expected[index]? = some (.branch saved) ∧ saved.taken = fork.taken ∧
          ∀ mark, fork.marked mark = true ↔
            saved.marked mark = true ∨ MarkedWhileLast expected calls mark index) ∧
      (expected.length ≤ index ∨ (∃ earlier ≤ index, Departs expected trail.steps earlier) →
        ∀ mark, fork.marked mark = true ↔ MarkedWhileLast expected calls mark index)) ∧
    (∀ mark, let marked := trail.make (.mark mark)
      marked.conditions = trail.conditions ∧ marked.expected = trail.expected ∧
      marked.diverged = trail.diverged ∧ marked.steps.length = trail.steps.length ∧
      ∀ index, (¬IsLast trail.steps index → marked.steps[index]? = trail.steps[index]?) ∧
        ∀ fork, IsLast trail.steps index → trail.steps[index]? = some (.branch fork) →
          marked.steps[index]? = some (.branch (fork.mark mark))) := by
  intro trail
  have accounted := accounted_makeAll expected calls
  refine ⟨accounted.outlines, accounted.diverged, ?_, ?_⟩
  · intro index fork isFork
    constructor
    · intro inside follows
      rcases PathStep.exists_expected_branch isFork inside (follows index le_rfl) with
        ⟨saved, isSaved, sameOutcome⟩
      refine ⟨saved, isSaved, sameOutcome, ?_⟩
      intro mark
      rw [accounted.marks index fork isFork mark, PathStep.inherits_iff_marked isSaved follows]
    · intro outside mark
      rw [accounted.marks index fork isFork mark]
      exact or_iff_right (PathStep.not_inherits outside)
  · intro mark marked
    have isMarked : marked = _ := make_mark trail mark
    rw [isMarked]
    refine ⟨rfl, rfl, rfl, ?_, ?_⟩
    · exact (PathStep.forall₂_changeLastBranch _ trail.steps).length_eq.symm
    · intro index
      constructor
      · exact PathStep.getElem?_changeLastBranch_of_not_isLast _
      · intro fork isLast isFork
        exact PathStep.getElem?_changeLastBranch_of_isLast _ isLast isFork

/-- The first branch takes over a mark, and a mark passes over the scope to it; the second departs
and takes over nothing. -/
example :
    let expected : List PathStep :=
      [.branch ⟨true, true, false, none, 1⟩, .scope .opening, .branch ⟨true, true, true, none, 2⟩]
    let calls : List Call :=
      [.branch true none 1, .scope .opening, .mark .done, .branch false none 2, .mark .forced]
    ((expecting expected).makeAll calls).steps =
        [.branch ⟨true, true, true, none, 1⟩, .scope .opening,
          .branch ⟨false, true, false, none, 2⟩] ∧
      ((expecting expected).makeAll calls).diverged = true := by
  decide

end Trail

end Concolic
