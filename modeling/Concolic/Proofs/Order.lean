import Mathlib
import Concolic.Proofs.Trail

/-!
# The order of the search

Forced branches cut a trail into segments, and each closes the segment that it stands in. A search
asks about the open branches of the segments that a branch with the false outcome closes and of the
last segment, if nothing closes it. It takes the segments in their order and each of them from its
deepest branch upwards, and it stops at the first answer that is no refusal.

`IsCandidate` and `Precedes` say this of positions in the trail. The walk along the trail is compared
with them through the list of candidates that it asks about (`candidatesFrom`). The walk is the same
for every `ask`, so one list serves all of them.
-/

namespace Concolic

/-- The branch of a step with a forced outcome. -/
def PathStep.forced? (step : PathStep) : Option Branch :=
  step.branch?.filter Branch.forced

namespace Search

variable {State Failure : Type} {ask : Ask State Failure}

/-- The first forced branch of a list of steps. -/
def closing? (steps : List PathStep) : Option Branch :=
  steps.findSome? PathStep.forced?

/-- The segment of a position: the number of forced branches before it. -/
def segment (steps : List PathStep) (position : Nat) : Nat :=
  (steps.take position).countP fun step => step.forced?.isSome

/-- A branch that is not done and has a condition, and the first forced branch at or after it took
the false side or does not exist. -/
def IsCandidate (steps : List PathStep) (candidate : Candidate) : Prop :=
  (∃ branch, steps[candidate.position]? = some (.branch branch) ∧ branch.done = false ∧
      branch.condition = some candidate.condition) ∧
    ∀ forced, closing? (steps.drop candidate.position) = some forced → forced.taken = false

/-- One candidate comes before another: in an earlier segment, or deeper in the same one. -/
def Precedes (steps : List PathStep) (first second : Candidate) : Prop :=
  segment steps first.position < segment steps second.position ∨
    segment steps first.position = segment steps second.position ∧
      second.position < first.position

/-- Candidates are asked about one after another, up to and including the first that is not refused:
the candidates that were asked about, the result and the state after the last answer. -/
inductive Asks (ask : Ask State Failure) : List Candidate → State → List Candidate →
    Except Failure (Option Nat) → State → Prop where
  | exhausted {state : State} : Asks ask [] state [] (.ok none) state
  | refused {candidate : Candidate} {rest asked : List Candidate} {state next after : State}
      {result : Except Failure (Option Nat)}
      (answered : ask candidate.condition state = (.ok false, next))
      (later : Asks ask rest next asked result after) :
      Asks ask (candidate :: rest) state (candidate :: asked) result after
  | found {candidate : Candidate} {rest : List Candidate} {state after : State}
      (answered : ask candidate.condition state = (.ok true, after)) :
      Asks ask (candidate :: rest) state [candidate] (.ok (some candidate.position)) after
  | failed {candidate : Candidate} {rest : List Candidate} {state after : State} {failure : Failure}
      (answered : ask candidate.condition state = (.error failure, after)) :
      Asks ask (candidate :: rest) state [candidate] (.error failure) after

/-- The same answers, with the numbers that were asked about kept in order. -/
def logged (ask : Ask State Failure) : Ask (State × List Nat) Failure := fun number log =>
  ((ask number log.1).1, (ask number log.1).2, log.2 ++ [number])

/-! ### Asking about a list of candidates -/

namespace Asks

variable {candidates asked : List Candidate} {state after : State}
  {result : Except Failure (Option Nat)}

theorem firstFeasible_eq (asks : Asks ask candidates state asked result after) :
    firstFeasible ask candidates state = (result, after) := by
  induction asks with
  | exhausted => rfl
  | refused answered later ih => simp only [firstFeasible, answered, ih]
  | found answered => simp only [firstFeasible, answered]
  | failed answered => simp only [firstFeasible, answered]

/-- The log of the calls holds the conditions of the candidates that were asked about. -/
theorem logged (asks : Asks ask candidates state asked result after) (calls : List Nat) :
    Asks (logged ask) candidates (state, calls) asked result
      (after, calls ++ asked.map Candidate.condition) := by
  induction asks generalizing calls with
  | exhausted => simpa using Asks.exhausted
  | @refused candidate rest asked state next after result answered later ih =>
      have step : Search.logged ask candidate.condition (state, calls) =
          (.ok false, next, calls ++ [candidate.condition]) := by
        simp [Search.logged, answered]
      apply Asks.refused step
      simpa using ih (calls ++ [candidate.condition])
  | found answered =>
      apply Asks.found
      simp [Search.logged, answered]
  | failed answered =>
      apply Asks.failed
      simp [Search.logged, answered]

theorem isPrefix (asks : Asks ask candidates state asked result after) : asked <+: candidates := by
  induction asks with
  | exhausted => exact List.prefix_refl _
  | refused answered later ih => exact List.cons_prefix_cons.mpr ⟨rfl, ih⟩
  | found answered => exact ⟨_, rfl⟩
  | failed answered => exact ⟨_, rfl⟩

/-- What is found was asked about. -/
theorem mem_of_found (asks : Asks ask candidates state asked result after) {position : Nat}
    (found : result = .ok (some position)) :
    ∃ candidate ∈ asked, candidate.position = position := by
  induction asks with
  | exhausted => cases found
  | refused answered later ih =>
      rcases ih found with ⟨candidate, isAsked, isPosition⟩
      exact ⟨candidate, List.mem_cons_of_mem _ isAsked, isPosition⟩
  | found answered =>
      cases found
      exact ⟨_, List.mem_cons_self, rfl⟩
  | failed answered => cases found

end Asks

theorem exists_asks (ask : Ask State Failure) (candidates : List Candidate) (state : State) :
    ∃ asked result after, Asks ask candidates state asked result after := by
  induction candidates generalizing state with
  | nil => exact ⟨[], _, _, .exhausted⟩
  | cons candidate rest ih =>
      rcases answered : ask candidate.condition state with ⟨failure | (_ | _), next⟩
      · exact ⟨_, _, _, .failed answered⟩
      · rcases ih next with ⟨asked, result, after, later⟩
        exact ⟨_, _, _, .refused answered later⟩
      · exact ⟨_, _, _, .found answered⟩

theorem firstFeasible_append_of_refused {earlier : List Candidate} {state next : State}
    (refused : firstFeasible ask earlier state = (.ok none, next)) (later : List Candidate) :
    firstFeasible ask (earlier ++ later) state = firstFeasible ask later next := by
  induction earlier generalizing state with
  | nil =>
      cases refused
      rfl
  | cons candidate rest ih =>
      simp only [List.cons_append, firstFeasible] at refused ⊢
      split at refused
      · cases refused
      · exact ih refused
      · cases refused

theorem firstFeasible_append_of_settled {earlier : List Candidate} {state : State}
    (settled : ∀ next, firstFeasible ask earlier state ≠ (.ok none, next))
    (later : List Candidate) :
    firstFeasible ask (earlier ++ later) state = firstFeasible ask earlier state := by
  induction earlier generalizing state with
  | nil => exact absurd rfl (settled state)
  | cons candidate rest ih =>
      simp only [List.cons_append, firstFeasible] at settled ⊢
      split
      · rfl
      · rename_i next refused
        rw [refused] at settled
        exact ih settled
      · rfl

/-! ### The candidates of a trail -/

/-- The candidates in the order in which the rest of a trail lets them be asked about, where some
wait in the current segment. -/
def candidatesFrom : List PathStep → Nat → List Candidate → List Candidate
  | [], _, waiting => waiting
  | .scope _ :: rest, position, waiting => candidatesFrom rest (position + 1) waiting
  | .branch branch :: rest, position, waiting =>
      if !branch.forced then candidatesFrom rest (position + 1) (push position branch waiting)
      else if branch.taken then candidatesFrom rest (position + 1) []
      else push position branch waiting ++ candidatesFrom rest (position + 1) []

theorem walk_eq_firstFeasible (ask : Ask State Failure) (steps : List PathStep) (start : Nat)
    (waiting : List Candidate) (state : State) :
    walk ask steps start waiting state =
      firstFeasible ask (candidatesFrom steps start waiting) state := by
  induction steps generalizing start waiting state with
  | nil => rfl
  | cons step rest ih =>
      cases step with
      | scope edge => exact ih _ _ _
      | branch branch =>
          simp only [walk, candidatesFrom]
          split
          · exact ih _ _ _
          · split
            · exact ih _ _ _
            · split
              · rename_i next refused
                rw [firstFeasible_append_of_refused refused]
                exact ih _ _ _
              · rename_i settled
                rw [firstFeasible_append_of_settled settled]

section Steps

variable {steps rest : List PathStep} {step : PathStep} {start : Nat} {waiting : List Candidate}
  {candidate : Candidate}

theorem getElem?_of_drop (isRest : steps.drop start = step :: rest) :
    steps[start]? = some step ∧ steps.drop (start + 1) = rest := by
  constructor
  · rw [← List.head?_drop, isRest]
    rfl
  · rw [← List.drop_drop, isRest]
    rfl

theorem segment_succ (isRest : steps.drop start = step :: rest) :
    segment steps (start + 1) = segment steps start + if step.forced?.isSome then 1 else 0 := by
  rw [segment, List.take_add_one, (getElem?_of_drop isRest).1, List.countP_append]
  simp [segment]

/-- The candidates at a branch and after it. -/
theorem isCandidate_from (isRest : steps.drop start = step :: rest) :
    start ≤ candidate.position ∧ IsCandidate steps candidate ↔
      (candidate.position = start ∧ (∃ branch, step = .branch branch ∧
        branch.open? = some candidate.condition) ∧
        ∀ forced, closing? (step :: rest) = some forced → forced.taken = false) ∨
      start + 1 ≤ candidate.position ∧ IsCandidate steps candidate := by
  have here : candidate.position = start → (IsCandidate steps candidate ↔
      (∃ branch, step = .branch branch ∧ branch.open? = some candidate.condition) ∧
        ∀ forced, closing? (step :: rest) = some forced → forced.taken = false) := by
    intro isHere
    rw [IsCandidate, isHere, isRest, (getElem?_of_drop isRest).1]
    simp only [Branch.open?, Option.some.injEq]
    constructor
    · rintro ⟨⟨branch, isBranch, notDone, hasCondition⟩, closes⟩
      exact ⟨⟨branch, isBranch, by simp [notDone, hasCondition]⟩, closes⟩
    · rintro ⟨⟨branch, isBranch, isOpen⟩, closes⟩
      cases isDone : branch.done with
      | true => simp [isDone] at isOpen
      | false => exact ⟨⟨branch, isBranch, isDone, by simpa [isDone] using isOpen⟩, closes⟩
  constructor
  · rintro ⟨notBefore, isCandidate⟩
    rcases Nat.eq_or_lt_of_le notBefore with isHere | isLater
    · exact .inl ⟨isHere.symm, (here isHere.symm).mp isCandidate⟩
    · exact .inr ⟨isLater, isCandidate⟩
  · rintro (⟨isHere, isCandidate⟩ | ⟨isLater, isCandidate⟩)
    · exact ⟨isHere.ge, (here isHere).mpr isCandidate⟩
    · exact ⟨by omega, isCandidate⟩

/-- The walk asks about the candidates of the trail. Those that wait are candidates if the current
segment is closed with the false outcome or not at all. -/
theorem mem_candidatesFrom (isRest : steps.drop start = rest) :
    candidate ∈ candidatesFrom rest start waiting ↔
      (candidate ∈ waiting ∧ ∀ forced, closing? rest = some forced → forced.taken = false) ∨
        start ≤ candidate.position ∧ IsCandidate steps candidate := by
  induction rest generalizing start waiting with
  | nil =>
      have noneLater : ¬(start ≤ candidate.position ∧ IsCandidate steps candidate) := by
        rintro ⟨notBefore, ⟨branch, isBranch, _⟩, _⟩
        have inRange := (List.getElem?_eq_some_iff.mp isBranch).1
        have := List.drop_eq_nil_iff.mp isRest
        omega
      simp [candidatesFrom, closing?, noneLater]
  | cons step rest ih =>
      have later := (getElem?_of_drop isRest).2
      rw [isCandidate_from isRest]
      cases step with
      | scope edge =>
          have passes : closing? (.scope edge :: rest) = closing? rest := rfl
          rw [candidatesFrom, ih later, passes]
          simp
      | branch branch =>
          simp only [candidatesFrom]
          cases isForced : branch.forced with
          | false =>
              have passes : closing? (.branch branch :: rest) = closing? rest := by
                simp [closing?, PathStep.forced?, PathStep.branch?, isForced]
              simp only [Bool.not_false, if_true, ih later, mem_push, passes,
                PathStep.branch.injEq, exists_eq_left']
              tauto
          | true =>
              have closes : closing? (.branch branch :: rest) = some branch := by
                simp [closing?, PathStep.forced?, PathStep.branch?, isForced]
              cases isTaken : branch.taken with
              | true => simp [ih later, closes, isTaken]
              | false =>
                  simp only [Bool.not_true, Bool.false_eq_true, if_false, List.mem_append,
                    ih later, mem_push, closes, PathStep.branch.injEq, exists_eq_left',
                    Option.some.injEq, forall_eq', isTaken, List.not_mem_nil, false_and, false_or,
                    and_true]
                  tauto

/-- The walk takes segments in their order and each of them upwards. What waits is in the current
segment, and everything else comes later. -/
theorem pairwise_candidatesFrom (isRest : steps.drop start = rest)
    (waits : ∀ candidate ∈ waiting, candidate.position < start ∧
      segment steps candidate.position = segment steps start)
    (ordered : waiting.Pairwise (Precedes steps)) :
    (candidatesFrom rest start waiting).Pairwise (Precedes steps) ∧
      ∀ candidate ∈ candidatesFrom rest start waiting,
        segment steps start ≤ segment steps candidate.position := by
  induction rest generalizing start waiting with
  | nil => exact ⟨ordered, fun candidate isWaiting => (waits candidate isWaiting).2.ge⟩
  | cons step rest ih =>
      have later := (getElem?_of_drop isRest).2
      have next := segment_succ isRest
      -- After a forced branch nothing waits, and the next segment begins.
      have fresh := ih later (by simp) (List.Pairwise.nil : [].Pairwise (Precedes steps))
      cases step with
      | scope edge =>
          have same : segment steps (start + 1) = segment steps start := next
          rw [candidatesFrom, ← same]
          apply ih later _ ordered
          intro candidate isWaiting
          rcases waits candidate isWaiting with ⟨isBefore, inSegment⟩
          exact ⟨by omega, by omega⟩
      | branch branch =>
          have pushed : ∀ candidate ∈ push start branch waiting, candidate.position < start + 1 ∧
              segment steps candidate.position = segment steps start := by
            intro candidate isPushed
            rcases mem_push.mp isPushed with ⟨isHere, _⟩ | isWaiting
            · rw [isHere]
              exact ⟨by omega, rfl⟩
            · rcases waits candidate isWaiting with ⟨isBefore, inSegment⟩
              exact ⟨by omega, inSegment⟩
          have pushedOrdered : (push start branch waiting).Pairwise (Precedes steps) := by
            cases isOpen : branch.open? with
            | none => simpa [push, isOpen] using ordered
            | some number =>
                simp only [push, isOpen]
                apply List.pairwise_cons.mpr ⟨_, ordered⟩
                intro candidate isWaiting
                rcases waits candidate isWaiting with ⟨isBefore, inSegment⟩
                exact .inr ⟨inSegment.symm, isBefore⟩
          simp only [candidatesFrom]
          cases isForced : branch.forced with
          | false =>
              have same : segment steps (start + 1) = segment steps start := by
                simpa [PathStep.forced?, PathStep.branch?, isForced] using next
              simp only [Bool.not_false, if_true]
              rw [← same]
              apply ih later _ pushedOrdered
              intro candidate isPushed
              rw [same]
              exact pushed candidate isPushed
          | true =>
              have beyond : segment steps (start + 1) = segment steps start + 1 := by
                simpa [PathStep.forced?, PathStep.branch?, isForced] using next
              cases isTaken : branch.taken with
              | true =>
                  refine ⟨fresh.1, fun candidate isLater => ?_⟩
                  have := fresh.2 candidate isLater
                  omega
              | false =>
                  simp only [Bool.not_true, Bool.false_eq_true, if_false]
                  constructor
                  · apply List.pairwise_append.mpr ⟨pushedOrdered, fresh.1, _⟩
                    intro first isPushed second isLater
                    have := (pushed first isPushed).2
                    have := fresh.2 second isLater
                    exact .inl (by omega)
                  · intro candidate isMember
                    rcases List.mem_append.mp isMember with isPushed | isLater
                    · exact (pushed candidate isPushed).2.ge
                    · have := fresh.2 candidate isLater
                      omega

end Steps

/-- No branch comes before itself. -/
theorem Precedes.position_ne {steps : List PathStep} {first second : Candidate}
    (precedes : Precedes steps first second) : first.position ≠ second.position := by
  intro same
  rw [Precedes, same] at precedes
  omega

/-- The calls of a search are the conditions of the candidates in their order, up to and including the
first call that is not refused, and the answer to that call is the result. The candidates and their
order depend on the trail alone. No branch is asked about twice, and none that is done is found. -/
theorem depthFirst_asks_in_order (trail : Trail) :
    ∃ candidates : List Candidate,
      (∀ candidate, candidate ∈ candidates ↔ IsCandidate trail.steps candidate) ∧
      candidates.Pairwise (Precedes trail.steps) ∧
      ∀ (State Failure : Type) (ask : Ask State Failure) (state : State),
        ∃ asked result after, Asks ask candidates state asked result after ∧
          depthFirst ask trail state = (result, after) ∧
          depthFirst (logged ask) trail (state, []) =
            (result, after, asked.map Candidate.condition) ∧
          (asked.map Candidate.position).Nodup ∧
          ∀ position, result = .ok (some position) →
            ∃ branch, trail.steps[position]? = some (.branch branch) ∧ branch.done = false := by
  have isWhole : trail.steps.drop 0 = trail.steps := rfl
  have isCandidate (candidate : Candidate) : candidate ∈ candidatesFrom trail.steps 0 [] ↔
      IsCandidate trail.steps candidate := by
    rw [mem_candidatesFrom isWhole]
    simp
  have ordered : (candidatesFrom trail.steps 0 []).Pairwise (Precedes trail.steps) :=
    (pairwise_candidatesFrom isWhole (by simp) .nil).1
  refine ⟨candidatesFrom trail.steps 0 [], isCandidate, ordered, ?_⟩
  intro State Failure ask state
  rcases exists_asks ask (candidatesFrom trail.steps 0 []) state with ⟨asked, result, after, asks⟩
  refine ⟨asked, result, after, asks, ?_, ?_, ?_, ?_⟩
  · rw [depthFirst, walk_eq_firstFeasible, asks.firstFeasible_eq]
  · rw [depthFirst, walk_eq_firstFeasible, (asks.logged []).firstFeasible_eq, List.nil_append]
  · apply List.pairwise_map.mpr
    exact (ordered.sublist asks.isPrefix.sublist).imp Precedes.position_ne
  · intro position found
    rcases asks.mem_of_found found with ⟨candidate, isAsked, rfl⟩
    rcases (isCandidate candidate).mp (asks.isPrefix.subset isAsked) with
      ⟨⟨branch, isBranch, notDone, _⟩, _⟩
    exact ⟨branch, isBranch, notDone⟩

end Search

end Concolic
