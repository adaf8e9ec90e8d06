import Mathlib
import Concolic.Search

/-!
# Following an expectation and searching a trail

Recording has one lemma for each way in which a step can meet what was expected. A search finds an
open branch and ends with the answer that turned it aside. If no outcome is forced, then the trail is
one segment, and the branch that is found is the deepest one that can be turned aside.
-/

namespace Concolic

namespace Trail

variable {trail : Trail}

/-- A branch with the expected outcome takes over the marks of the expected branch. -/
theorem recordBranch_of_expected {saved : Branch} {taken : Bool}
    (expected : trail.next? = some (.branch saved)) (agrees : saved.taken = taken)
    (condition : Option PathCondition) (site : UInt32) :
    trail.recordBranch taken condition site =
      { trail with
        steps := trail.steps ++ [.branch
          { taken, site, forced := saved.forced, done := saved.done
            condition := condition.map fun _ => trail.conditions.length }]
        conditions := trail.conditions ++ condition.toList } := by
  simp [recordBranch, expected, meet, agrees]

/-- A branch of which nothing was expected has no marks. -/
theorem recordBranch_of_unexpected (unexpected : trail.next? = none) (taken : Bool)
    (condition : Option PathCondition) (site : UInt32) :
    trail.recordBranch taken condition site =
      { trail with
        steps := trail.steps ++ [.branch
          { taken, site, condition := condition.map fun _ => trail.conditions.length }]
        conditions := trail.conditions ++ condition.toList } := by
  simp [recordBranch, unexpected, meet]

/-- The edge of a scope that was expected, or of which nothing was expected, is just recorded. -/
theorem recordScope_of_expected {edge : ScopeEdge}
    (expected : ∀ step, trail.next? = some step → step = .scope edge) :
    trail.recordScope edge = { trail with steps := trail.steps ++ [.scope edge] } := by
  simp only [recordScope]
  split
  · rename_i step isNext
    rw [expected step isNext]
    simp
  · simp

theorem getElem?_flippedPrefix {position : Nat} (inRange : position < trail.steps.length)
    (index : Nat) :
    (trail.flippedPrefix position)[index]? =
      if index < position then trail.steps[index]?
      else if index = position then trail.steps[index]?.map PathStep.flipped
      else none := by
  have taken : (trail.steps.take position).length = position := by
    rw [List.length_take]
    omega
  rw [flippedPrefix, List.getElem?_append, taken]
  split
  · rw [List.getElem?_take_of_lt (by assumption)]
  · rw [List.getElem?_map, List.getElem?_take]
    split
    · rename_i notBefore isFirst
      have same : index = position := by omega
      subst same
      simp
    · rename_i notBefore notFirst
      rw [if_neg (by omega)]
      rfl

theorem flippedPrefix_eq {position : Nat} {fork : Branch}
    (isStep : trail.steps[position]? = some (.branch fork)) :
    trail.flippedPrefix position = trail.steps.take position ++ [.branch fork.flipped] := by
  rcases List.getElem?_eq_some_iff.mp isStep with ⟨inRange, isFork⟩
  rw [flippedPrefix, List.drop_eq_getElem_cons inRange, isFork]
  rfl

theorem length_flippedPrefix {position : Nat} (inRange : position < trail.steps.length) :
    (trail.flippedPrefix position).length = position + 1 := by
  simp only [flippedPrefix, List.length_append, List.length_take, List.length_map, List.length_drop]
  omega

end Trail

namespace Search

variable {State Failure : Type} {ask : Ask State Failure} {state after : State}

/-- A question that was answered with no led from one state to the other. -/
def Refuses (ask : Ask State Failure) (before after : State) : Prop :=
  ∃ number, ask number before = (.ok false, after)

/-- How a search among candidates can end: all of them are refused, or all up to the one whose answer
ends it. -/
inductive Ends (ask : Ask State Failure) (isCandidate : Candidate → Prop) (state : State) :
    Except Failure (Option Nat) → State → Prop where
  | refused {after : State} (refused : Relation.ReflTransGen (Refuses ask) state after) :
      Ends ask isCandidate state (.ok none) after
  | found {candidate : Candidate} {before after : State} (isOne : isCandidate candidate)
      (refused : Relation.ReflTransGen (Refuses ask) state before)
      (answered : ask candidate.condition before = (.ok true, after)) :
      Ends ask isCandidate state (.ok (some candidate.position)) after
  | failed {candidate : Candidate} {before after : State} {failure : Failure}
      (isOne : isCandidate candidate)
      (refused : Relation.ReflTransGen (Refuses ask) state before)
      (answered : ask candidate.condition before = (.error failure, after)) :
      Ends ask isCandidate state (.error failure) after

namespace Ends

variable {isCandidate other : Candidate → Prop} {result : Except Failure (Option Nat)}

theorem mono (ends : Ends ask isCandidate state result after)
    (subset : ∀ candidate, isCandidate candidate → other candidate) :
    Ends ask other state result after := by
  cases ends with
  | refused refused => exact .refused refused
  | found isOne refused answered => exact .found (subset _ isOne) refused answered
  | failed isOne refused answered => exact .failed (subset _ isOne) refused answered

/-- A search may come after refusals. -/
theorem after_refusals {next : State} (refusals : Relation.ReflTransGen (Refuses ask) state next)
    (ends : Ends ask isCandidate next result after) : Ends ask isCandidate state result after := by
  cases ends with
  | refused refused => exact .refused (refusals.trans refused)
  | found isOne refused answered => exact .found isOne (refusals.trans refused) answered
  | failed isOne refused answered => exact .failed isOne (refusals.trans refused) answered

end Ends

/-- Candidates are asked about up to the first that is not refused. -/
theorem ends_firstFeasible (ask : Ask State Failure) (candidates : List Candidate) (state : State) :
    Ends ask (· ∈ candidates) state (firstFeasible ask candidates state).1
      (firstFeasible ask candidates state).2 := by
  induction candidates generalizing state with
  | nil => exact .refused .refl
  | cons candidate rest ih =>
      simp only [firstFeasible]
      split
      · rename_i next answered
        exact .found List.mem_cons_self .refl answered
      · rename_i next answered
        apply Ends.after_refusals (.single ⟨candidate.condition, answered⟩)
        exact (ih next).mono fun _ isLater => List.mem_cons_of_mem _ isLater
      · rename_i failure next answered
        exact .failed List.mem_cons_self .refl answered

/-- A candidate is an open branch of a list of steps that starts at a position. -/
def IsOpenIn (steps : List PathStep) (start : Nat) (candidate : Candidate) : Prop :=
  ∃ offset branch, steps[offset]? = some (.branch branch) ∧
    candidate.position = start + offset ∧ branch.open? = some candidate.condition

theorem IsOpenIn.cons {steps : List PathStep} {start : Nat} {candidate : Candidate}
    (isOpen : IsOpenIn steps (start + 1) candidate) (step : PathStep) :
    IsOpenIn (step :: steps) start candidate := by
  obtain ⟨offset, branch, isStep, isPosition, isCondition⟩ := isOpen
  exact ⟨offset + 1, branch, isStep, by omega, isCondition⟩

theorem mem_push {position : Nat} {branch : Branch} {waiting : List Candidate}
    {candidate : Candidate} :
    candidate ∈ push position branch waiting ↔
      candidate.position = position ∧ branch.open? = some candidate.condition ∨
        candidate ∈ waiting := by
  cases isOpen : branch.open? with
  | none => simp [push, isOpen]
  | some number =>
      rcases candidate with ⟨place, condition⟩
      simp [push, isOpen, eq_comm]

theorem IsOpenIn.of_mem_push {start : Nat} {branch : Branch} {waiting : List Candidate}
    {candidate : Candidate} (isPushed : candidate ∈ push start branch waiting)
    (rest : List PathStep) :
    candidate ∈ waiting ∨ IsOpenIn (.branch branch :: rest) start candidate := by
  rcases mem_push.mp isPushed with ⟨isPosition, isCondition⟩ | wasWaiting
  · exact .inr ⟨0, branch, rfl, isPosition, isCondition⟩
  · exact .inl wasWaiting

/-- A walk asks about candidates that were waiting before or are open branches of the steps. -/
theorem ends_walk (ask : Ask State Failure) (steps : List PathStep) (start : Nat)
    (waiting : List Candidate) (state : State) :
    Ends ask (fun candidate => candidate ∈ waiting ∨ IsOpenIn steps start candidate) state
      (walk ask steps start waiting state).1 (walk ask steps start waiting state).2 := by
  induction steps generalizing start waiting state with
  | nil => exact (ends_firstFeasible ask waiting state).mono fun _ isWaiting => .inl isWaiting
  | cons step rest ih =>
      -- From an empty stack on, only the later branches count.
      have later (step : PathStep) (next : State) :
          Ends ask (fun candidate => candidate ∈ waiting ∨ IsOpenIn (step :: rest) start candidate)
            next (walk ask rest (start + 1) [] next).1 (walk ask rest (start + 1) [] next).2 := by
        apply (ih (start + 1) [] next).mono
        intro candidate isCandidate
        exact .inr ((isCandidate.resolve_left (by simp)).cons step)
      cases step with
      | scope edge =>
          apply (ih (start + 1) waiting state).mono
          intro candidate isCandidate
          exact isCandidate.imp_right (·.cons _)
      | branch branch =>
          simp only [walk]
          split
          · apply (ih (start + 1) (push start branch waiting) state).mono
            intro candidate isCandidate
            exact isCandidate.elim (IsOpenIn.of_mem_push · rest) fun isLater => .inr (isLater.cons _)
          · split
            · exact later _ state
            · have ends := (ends_firstFeasible ask (push start branch waiting) state).mono
                fun _ isPushed => IsOpenIn.of_mem_push isPushed rest
              split
              · rename_i next nothing
                rw [nothing] at ends
                cases ends with
                | refused refused => exact (later _ next).after_refusals refused
              · exact ends

/-- A search asks about open branches of the trail. -/
theorem ends_depthFirst (ask : Ask State Failure) (trail : Trail) (state : State) :
    Ends ask (IsOpenIn trail.steps 0) state (depthFirst ask trail state).1
      (depthFirst ask trail state).2 := by
  apply (ends_walk ask trail.steps 0 [] state).mono
  intro candidate isCandidate
  exact isCandidate.resolve_left (by simp)

/-- A search finds an open branch and ends with the answer that it can be turned aside. -/
theorem exists_answer_of_depthFirst {trail : Trail} {position : Nat}
    (found : depthFirst ask trail state = (.ok (some position), after)) :
    ∃ branch number before, trail.steps[position]? = some (.branch branch) ∧
      branch.open? = some number ∧ ask number before = (.ok true, after) := by
  have ends := ends_depthFirst ask trail state
  rw [found] at ends
  cases ends with
  | @found candidate before _ isOne refused answered =>
      obtain ⟨offset, branch, isStep, isPosition, isOpen⟩ := isOne
      rw [Nat.zero_add] at isPosition
      exact ⟨branch, candidate.condition, before, isPosition ▸ isStep, isOpen, answered⟩

/-! ### Trails without forced outcomes -/

/-- The candidates that wait at the end of a trail without forced outcomes. -/
def stack : List PathStep → Nat → List Candidate → List Candidate
  | [], _, waiting => waiting
  | .scope _ :: rest, position, waiting => stack rest (position + 1) waiting
  | .branch branch :: rest, position, waiting =>
      stack rest (position + 1) (push position branch waiting)

theorem walk_of_unforced {steps : List PathStep}
    (unforced : ∀ branch, .branch branch ∈ steps → branch.forced = false) (start : Nat)
    (waiting : List Candidate) (state : State) :
    walk ask steps start waiting state = firstFeasible ask (stack steps start waiting) state := by
  induction steps generalizing start waiting with
  | nil => rfl
  | cons step rest ih =>
      have unforcedRest (branch : Branch) (isStep : .branch branch ∈ rest) :
          branch.forced = false := unforced branch (List.mem_cons_of_mem _ isStep)
      cases step with
      | scope edge => exact ih unforcedRest _ _
      | branch branch =>
          simp only [walk, unforced branch List.mem_cons_self, Bool.not_false, if_true]
          exact ih unforcedRest _ _

theorem mem_stack {steps : List PathStep} {start : Nat} {waiting : List Candidate}
    {candidate : Candidate} :
    candidate ∈ stack steps start waiting ↔
      candidate ∈ waiting ∨ IsOpenIn steps start candidate := by
  induction steps generalizing start waiting with
  | nil => simp [stack, IsOpenIn]
  | cons step rest ih =>
      have split (base : Candidate) : IsOpenIn (step :: rest) start base ↔
          (∃ branch, step = .branch branch ∧ base.position = start ∧
            branch.open? = some base.condition) ∨ IsOpenIn rest (start + 1) base := by
        constructor
        · rintro ⟨offset, branch, isStep, isPosition, isCondition⟩
          cases offset with
          | zero => exact .inl ⟨branch, by simpa using isStep, by omega, isCondition⟩
          | succ offset => exact .inr ⟨offset, branch, isStep, by omega, isCondition⟩
        · rintro (⟨branch, rfl, isPosition, isCondition⟩ | isLater)
          · exact ⟨0, branch, rfl, isPosition, isCondition⟩
          · exact isLater.cons _
      rw [split]
      cases step with
      | scope edge => simp [stack, ih]
      | branch branch =>
          simp only [stack, ih, mem_push, PathStep.branch.injEq, exists_eq_left']
          tauto

/-- The deepest candidate is on top. -/
theorem pairwise_stack {steps : List PathStep} {start : Nat} {waiting : List Candidate}
    (ordered : waiting.Pairwise fun upper lower => lower.position < upper.position)
    (before : ∀ candidate ∈ waiting, candidate.position < start) :
    (stack steps start waiting).Pairwise fun upper lower => lower.position < upper.position := by
  induction steps generalizing start waiting with
  | nil => exact ordered
  | cons step rest ih =>
      cases step with
      | scope edge =>
          exact ih ordered fun candidate isWaiting => Nat.lt_succ_of_lt (before candidate isWaiting)
      | branch branch =>
          apply ih
          · cases isOpen : branch.open? with
            | none => simpa [push, isOpen] using ordered
            | some number => simpa [push, isOpen] using ⟨before, ordered⟩
          · intro candidate isPushed
            rcases mem_push.mp isPushed with ⟨isPosition, _⟩ | isWaiting
            · omega
            · exact Nat.lt_succ_of_lt (before candidate isWaiting)

/-- What can be turned aside is decided by every answer. -/
def Decides (ask : Ask State Failure) (feasible : Prop) (number : Nat) : Prop :=
  ∀ state, ∃ answer after, ask number state = (.ok answer, after) ∧ (answer = true ↔ feasible)

/-- Candidates are asked about in order, up to the first that can be turned aside. -/
theorem firstFeasible_of_decides {feasible : Nat → Prop} {candidates : List Candidate}
    (decides : ∀ candidate ∈ candidates, Decides ask (feasible candidate.condition)
      candidate.condition) (state : State) :
    (∃ after, firstFeasible ask candidates state = (.ok none, after) ∧
      ∀ candidate ∈ candidates, ¬feasible candidate.condition) ∨
    ∃ earlier candidate later before after, candidates = earlier ++ candidate :: later ∧
      (∀ other ∈ earlier, ¬feasible other.condition) ∧
      ask candidate.condition before = (.ok true, after) ∧
      firstFeasible ask candidates state = (.ok (some candidate.position), after) := by
  induction candidates generalizing state with
  | nil => exact .inl ⟨state, rfl, by simp⟩
  | cons first rest ih =>
      obtain ⟨answer, next, answered, isRight⟩ := decides first List.mem_cons_self state
      cases answer with
      | true =>
          exact .inr ⟨[], first, rest, state, next, rfl, by simp, answered, by
            simp [firstFeasible, answered]⟩
      | false =>
          have infeasible : ¬feasible first.condition := fun holds => by simpa using isRight.mpr holds
          have continues : firstFeasible ask (first :: rest) state = firstFeasible ask rest next := by
            simp [firstFeasible, answered]
          rw [continues]
          rcases ih (fun other isOther => decides other (List.mem_cons_of_mem _ isOther)) next with
            ⟨after, nothing, allInfeasible⟩ | ⟨earlier, candidate, later, before, after, rfl,
              earlierInfeasible, asked, found⟩
          · exact .inl ⟨after, nothing, List.forall_mem_cons.mpr ⟨infeasible, allInfeasible⟩⟩
          · exact .inr ⟨first :: earlier, candidate, later, before, after, rfl,
              List.forall_mem_cons.mpr ⟨infeasible, earlierInfeasible⟩, asked, found⟩

/-- If no outcome is forced, then a search finds the deepest open branch that can be turned aside, or
there is none. -/
theorem depthFirst_of_unforced {trail : Trail} {feasible : Nat → Prop}
    (unforced : ∀ branch, .branch branch ∈ trail.steps → branch.forced = false)
    (decides : ∀ branch number, .branch branch ∈ trail.steps → branch.open? = some number →
      Decides ask (feasible number) number) (state : State) :
    (∃ after, depthFirst ask trail state = (.ok none, after) ∧
      ∀ branch number, .branch branch ∈ trail.steps → branch.open? = some number →
        ¬feasible number) ∨
    ∃ (found : Nat) (branch : Branch) (number : Nat) (before after : State),
      trail.steps[found]? = some (.branch branch) ∧ branch.open? = some number ∧
      ask number before = (.ok true, after) ∧
      depthFirst ask trail state = (.ok (some found), after) ∧
      ∀ (position : Nat) (other : Branch) (deeper : Nat), found < position →
        trail.steps[position]? = some (.branch other) → other.open? = some deeper →
        ¬feasible deeper := by
  have isCandidate {position number : Nat} {branch : Branch}
      (isStep : trail.steps[position]? = some (.branch branch)) (isOpen : branch.open? = some number) :
      ⟨position, number⟩ ∈ stack trail.steps 0 [] :=
    mem_stack.mpr (.inr ⟨position, branch, isStep, (Nat.zero_add _).symm, isOpen⟩)
  have ordered : (stack trail.steps 0 []).Pairwise
      fun upper lower => lower.position < upper.position :=
    pairwise_stack .nil (by simp)
  have candidatesDecided : ∀ candidate ∈ stack trail.steps 0 [],
      Decides ask (feasible candidate.condition) candidate.condition := by
    intro candidate member
    obtain ⟨offset, branch, isStep, _, isOpen⟩ := (mem_stack.mp member).resolve_left (by simp)
    exact decides branch _ (List.mem_of_getElem? isStep) isOpen
  rw [depthFirst, walk_of_unforced unforced]
  rcases firstFeasible_of_decides candidatesDecided state with
    ⟨after, nothing, infeasible⟩ | ⟨earlier, candidate, later, before, after, isStack, infeasible,
      asked, found⟩
  · refine .inl ⟨after, nothing, ?_⟩
    intro branch number isStep isOpen
    obtain ⟨position, isPosition⟩ := List.mem_iff_getElem?.mp isStep
    exact infeasible _ (isCandidate isPosition isOpen)
  · right
    have member : candidate ∈ stack trail.steps 0 [] := by simp [isStack]
    obtain ⟨offset, branch, isStep, isPosition, isOpen⟩ :=
      (mem_stack.mp member).resolve_left (by simp)
    rw [Nat.zero_add] at isPosition
    refine ⟨candidate.position, branch, candidate.condition, before, after, isPosition ▸ isStep,
      isOpen, asked, found, ?_⟩
    intro position other deeper isDeeper otherStep otherOpen
    have otherMember := isCandidate otherStep otherOpen
    rw [isStack] at otherMember ordered
    have laterShallower := (List.pairwise_cons.mp (List.pairwise_append.mp ordered).2.1).1
    rcases List.mem_append.mp otherMember with isEarlier | isRest
    · exact infeasible _ isEarlier
    · rcases List.mem_cons.mp isRest with isSame | isLater
      · rw [← isSame] at isDeeper
        exact absurd isDeeper (Nat.lt_irrefl _)
      · exact absurd (laterShallower _ isLater) (Nat.lt_asymm isDeeper)

end Search

end Concolic
