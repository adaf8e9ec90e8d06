import Mathlib
import Concolic.Proofs.Alignment
import Concolic.Proofs.Rerun

/-!
# Written lines are read in step

A scope passes over a line only if it is the marker, while an input takes the next line whatever it
is, so a run may take fewer lines than it makes records, and it may take a marker for a value. The
lines that are written from the records have one line for each of them, and a run that makes the
same calls takes exactly these: when it comes to a call, the next line is the one that was written
for the record of that call (`Recording.InStep`). So a scope finds its marker, an input finds its
value, and nothing is left in the end.
-/

namespace Concolic

open InputRecord

namespace Recording

variable {recording first second : Recording} {solution : Assignment} {event : Event}
  {rest : List InputRecord}

/-- What a call adds to the records. Branches and marks add nothing. -/
def newRecord? (recording : Recording) : Event → Option InputRecord
  | .intInput => some (.value recording.nextVar (.int recording.int.2.1))
  | .longInput => some (.value recording.nextVar (.long recording.long.2.1))
  | .floatInput => some (.value recording.nextVar (.float recording.float.1))
  | .textInput =>
      some (.value recording.nextVar (.text recording.text.1.value (recording.nextVar + 1)))
  | .beginScope => some .scopeBegin
  | .endScope => some .scopeEnd
  | .branch _ _ _ | .branchDone | .branchForced => none

/-- What calls add to the records. -/
def newRecords : Recording → List Event → List InputRecord
  | _, [] => []
  | recording, event :: later =>
      (recording.newRecord? event).toList ++ (recording.report event).newRecords later

theorem skipMarker_cons (marker : String) (source : List String) :
    skipMarker marker (marker :: source) = source :=
  if_pos rfl

theorem source_text (recording : Recording) : recording.text.2.source = recording.source.tail := by
  rw [text_eq]
  simp only [settle_eq]
  rfl

theorem records_report (recording : Recording) (event : Event) :
    (recording.report event).records =
      recording.records ++ (recording.newRecord? event).toList := by
  cases event with
  | textInput => exact recording.records_text
  | branch | branchDone | branchForced => exact (List.append_nil _).symm
  | _ => rfl

theorem records_reportAll (recording : Recording) (events : List Event) :
    (recording.reportAll events).records = recording.records ++ recording.newRecords events := by
  induction events generalizing recording with
  | nil => exact (List.append_nil _).symm
  | cons event later ih =>
      rw [newRecords, ← List.append_assoc, ← records_report]
      exact ih (recording.report event)

theorem format_report (recording : Recording) (event : Event) :
    (recording.report event).format = recording.format := by
  cases event with
  | textInput => exact recording.grows_text.format
  | _ => rfl

theorem format_reportAll (recording : Recording) (events : List Event) :
    (recording.reportAll events).format = recording.format := by
  induction events generalizing recording with
  | nil => rfl
  | cons event later ih => exact (ih (recording.report event)).trans (recording.format_report event)

theorem newRecords_append (recording : Recording) (before after : List Event) :
    recording.newRecords (before ++ after) =
      recording.newRecords before ++ (recording.reportAll before).newRecords after := by
  induction before generalizing recording with
  | nil => rfl
  | cons event later ih =>
      rw [List.cons_append, newRecords, newRecords, List.append_assoc, ih]
      rfl

/-- The second of two runs is about to read the lines that were written for what the first one is
about to record. -/
structure InStep (solution : Assignment) (awaited : List InputRecord) (first second : Recording) :
    Prop where
  format : second.format = first.format
  nextVar : second.nextVar = first.nextVar
  source : second.source = lines awaited solution first.format

namespace InStep

variable (inStep : InStep solution ((first.newRecord? event).toList ++ rest) first second)

include inStep

/-- The second run takes the line of the record, if the call makes one, and no other line. -/
theorem source_eq :
    second.source = lines (first.newRecord? event).toList solution first.format ++
      (second.report event).source := by
  have source := inStep.source
  rw [lines, List.map_append] at source
  -- An input takes whatever line comes next, even if it reads like a marker.
  cases event with
  | intInput | longInput | floatInput =>
      rw [source]
      exact congrArg (_ :: ·) (congrArg List.tail source).symm
  | textInput =>
      rw [report, source_text, source]
      rfl
  | beginScope =>
      -- The first run may have found no marker here, but one was written for its record.
      have isMarker : (second.report .beginScope).source = lines rest solution first.format := by
        rw [report, beginScope, inStep.format, source]
        exact skipMarker_cons _ _
      rw [source, isMarker]
      rfl
  | endScope =>
      have isMarker : (second.report .endScope).source = lines rest solution first.format := by
        rw [report, endScope, inStep.format, source]
        exact skipMarker_cons _ _
      rw [source, isMarker]
      rfl
  | branch | branchDone | branchForced => rfl

theorem newRecord?_eq :
    second.newRecord? event = (first.newRecord? event).map (again solution first.format) := by
  have source := inStep.source
  rw [lines, List.map_append] at source
  cases event with
  | intInput =>
      rw [newRecord?, newRecord?, Option.map_some, again, reread, inStep.nextVar, int,
        nextValue_of_cons source]
  | longInput =>
      rw [newRecord?, newRecord?, Option.map_some, again, reread, inStep.nextVar, long,
        nextValue_of_cons source]
  | floatInput =>
      rw [newRecord?, newRecord?, Option.map_some, again, reread, inStep.nextVar, float,
        nextValue_of_cons source]
  | textInput =>
      rw [newRecord?, newRecord?, Option.map_some, again, reread, inStep.nextVar, text, source]
      rfl
  | _ => rfl

/-- What one call preserves. -/
protected theorem report : InStep solution rest (first.report event) (second.report event) := by
  refine ⟨?_, ?_, ?_⟩
  · rw [format_report, format_report, inStep.format]
  · rw [nextVar_report, nextVar_report, inStep.nextVar]
  · have source := inStep.source_eq
    rw [inStep.source, lines, List.map_append] at source
    rw [format_report]
    exact (List.append_cancel_left source).symm

end InStep

/-- What calls preserve. -/
theorem InStep.reportAll {before after : List Event}
    (inStep : InStep solution (first.newRecords (before ++ after)) first second) :
    InStep solution ((first.reportAll before).newRecords after) (first.reportAll before)
      (second.reportAll before) := by
  induction before generalizing first second with
  | nil => exact inStep
  | cons event later ih => exact ih inStep.report

/-- The second run records what it reads from the written lines. -/
theorem InStep.newRecords_eq {events : List Event}
    (inStep : InStep solution (first.newRecords events) first second) :
    second.newRecords events = (first.newRecords events).map (again solution first.format) := by
  induction events generalizing first second with
  | nil => rfl
  | cons event later ih =>
      rw [newRecords, newRecords, List.map_append, inStep.newRecord?_eq, ih inStep.report,
        format_report]
      cases first.newRecord? event <;> rfl

/-! ### What the second run hands out -/

theorem InStep.int_of_solved {solved : Int64}
    (inStep : InStep solution ((first.newRecord? .intInput).toList ++ rest) first second)
    (isSolved : solution.int? first.nextVar = some solved) (low : -2 ^ 31 ≤ solved.toInt)
    (high : solved.toInt < 2 ^ 31) : second.int.2.1 = Int32.ofInt solved.toInt := by
  have isRead := inStep.newRecord?_eq
  rw [newRecord?, newRecord?, Option.map_some, Option.some.injEq, again, inStep.nextVar,
    reread_int_of_solved isSolved low high] at isRead
  simpa using isRead

theorem InStep.long_of_solved {solved : Int64}
    (inStep : InStep solution ((first.newRecord? .longInput).toList ++ rest) first second)
    (isSolved : solution.int? first.nextVar = some solved) : second.long.2.1 = solved := by
  have isRead := inStep.newRecord?_eq
  rw [newRecord?, newRecord?, Option.map_some, Option.some.injEq, again, inStep.nextVar,
    reread_long_of_solved isSolved] at isRead
  simpa using isRead

/-- The second of two runs answers a call with the solved value, or else with the one that the first
run has got, and under the same variables. -/
def Answers (solution : Assignment) (first second : Recording) : Event → Prop
  | .intInput => second.int.1 = first.int.1 ∧
      second.int.2.1.toInt64 = (solution.int? first.int.1).getD first.int.2.1.toInt64
  | .longInput => second.long.1 = first.long.1 ∧
      second.long.2.1 = (solution.int? first.long.1).getD first.long.2.1
  | .textInput => second.text.1.symbol = first.text.1.symbol ∧
      second.text.1.length = first.text.1.length ∧
      second.text.1.value.toList = InputValue.solvedText solution first.format first.text.1.symbol
        first.text.1.length first.text.1.value.toList
  | _ => True

namespace InStep

variable (inStep : InStep solution ((first.newRecord? event).toList ++ rest) first second)

include inStep

theorem answers
    (narrow : ∀ symbol given solved, first.newRecord? event = some (.value symbol (.int given)) →
      solution.int? symbol = some solved → -2 ^ 31 ≤ solved.toInt ∧ solved.toInt < 2 ^ 31)
    (unbound : ∀ symbol text length,
      first.newRecord? event = some (.value symbol (.text text length)) →
        solution.int? symbol = none) :
    Answers solution first second event := by
  have sameVar := inStep.nextVar
  have isRead := inStep.newRecord?_eq
  cases event with
  | intInput =>
      refine ⟨sameVar, ?_⟩
      rw [newRecord?, newRecord?, Option.map_some, Option.some.injEq, again, sameVar] at isRead
      have sameSymbol : first.int.1 = first.nextVar := rfl
      rw [sameSymbol]
      cases isSolved : solution.int? first.nextVar with
      | none =>
          rw [reread_int_of_unsolved isSolved] at isRead
          have sameValue : second.int.2.1 = first.int.2.1 := by simpa using isRead
          rw [sameValue, Option.getD_none]
      | some solved =>
          rcases narrow _ _ solved rfl isSolved with ⟨low, high⟩
          rw [inStep.int_of_solved isSolved low high, toInt64_ofInt low high, Option.getD_some]
  | longInput =>
      refine ⟨sameVar, ?_⟩
      rw [newRecord?, newRecord?, Option.map_some, Option.some.injEq, again, sameVar] at isRead
      have sameSymbol : first.long.1 = first.nextVar := rfl
      rw [sameSymbol]
      cases isSolved : solution.int? first.nextVar with
      | none =>
          rw [reread_long_of_unsolved isSolved] at isRead
          simpa using isRead
      | some solved => exact inStep.long_of_solved isSolved
  | textInput =>
      refine ⟨sameVar, congrArg (· + 1) sameVar, ?_⟩
      rw [newRecord?, newRecord?, Option.map_some, Option.some.injEq, again, sameVar,
        reread_text (unbound _ _ _ rfl)] at isRead
      simp only [InputRecord.value.injEq, InputValue.text.injEq, true_and, and_true] at isRead
      rw [isRead, String.toList_ofList]
      rfl
  | _ => trivial

end InStep

end Recording

/-! ### The empty solution -/

theorem InputValue.solvedText_empty (format : InputFormat) (symbol length : UInt32)
    (previous : List Char) : solvedText ∅ format symbol length previous = previous := by
  have noLength : (∅ : Assignment).int? length = none := rfl
  have noChar (index : UInt32) : (∅ : Assignment).char? symbol index = none := rfl
  apply List.ext_getElem
  · simp [solvedText, solvedLength, noLength]
  · intro index _ inside
    simp [solvedText, solvedChar, noChar, inside]

/-- What is written from a record without a solution is read as the record, unless it is a
float. -/
theorem Recording.again_newRecord? {recording : Recording} {event : Event} {record : InputRecord}
    (format : InputFormat) (notFloat : event ≠ .floatInput)
    (isNew : recording.newRecord? event = some record) : record.again ∅ format = record := by
  cases event with
  | intInput =>
      cases isNew
      exact reread_int_of_unsolved rfl
  | longInput =>
      cases isNew
      exact reread_long_of_unsolved rfl
  | floatInput => exact absurd rfl notFloat
  | textInput =>
      cases isNew
      rw [again, reread_text rfl, InputValue.solvedText_empty, String.ofList_toList]
  | beginScope | endScope =>
      cases isNew
      rfl
  | branch | branchDone | branchForced => simp [newRecord?] at isNew

namespace Recording

theorem map_again_newRecords {recording : Recording} {events : List Event} (format : InputFormat)
    (noFloat : .floatInput ∉ events) :
    (recording.newRecords events).map (again ∅ format) = recording.newRecords events := by
  induction events generalizing recording with
  | nil => rfl
  | cons event later ih =>
      rw [List.mem_cons, not_or] at noFloat
      rw [newRecords, List.map_append, ih noFloat.2]
      cases isNew : recording.newRecord? event with
      | none => rfl
      | some record =>
          rw [Option.toList_some, List.map_singleton,
            again_newRecord? format (Ne.symm noFloat.1) isNew]

theorem newRecord?_mem_newRecords {recording : Recording} {before after : List Event}
    {event : Event} {record : InputRecord}
    (isNew : (recording.reportAll before).newRecord? event = some record) :
    record ∈ recording.newRecords (before ++ event :: after) := by
  rw [newRecords_append, newRecords, isNew]
  simp

/-- The lines that are written from the records of a run are read in step by a run that makes the
same calls. At every call it takes the line of its record, if the call makes one, and nothing else,
under the same variables, and it gets the solved value or else the previous one. In the end no line
is left, and without a solution the records are the same again. -/
theorem reportAll_lines_inStep (source : List String) (expected expected' : List PathStep)
    (format : InputFormat) (maxLength maxLength' : Int64) (lexicon lexicon' : Lexicon)
    (events : List Event) (solution : Assignment) :
    let first := start source expected format maxLength lexicon
    let records := (first.reportAll events).records
    let second := start (lines records solution format) expected' format maxLength' lexicon'
    (∀ symbol given solved, .value symbol (.int given) ∈ records →
      solution.int? symbol = some solved → -2 ^ 31 ≤ solved.toInt ∧ solved.toInt < 2 ^ 31) →
    (∀ symbol text length, .value symbol (.text text length) ∈ records →
      solution.int? symbol = none) →
    (∀ before event after, events = before ++ event :: after →
      let earlier := first.reportAll before
      let rerun := second.reportAll before
      rerun.nextVar = earlier.nextVar ∧
      rerun.source = lines (earlier.newRecord? event).toList solution format ++
        (rerun.report event).source ∧
      Answers solution earlier rerun event) ∧
    (second.reportAll events).source = [] ∧
    (solution = ∅ → .floatInput ∉ events → (second.reportAll events).records = records) := by
  intro first records second narrow unbound
  have areNew : records = first.newRecords events := first.records_reportAll events
  have inStep : InStep solution (first.newRecords events) first second := by
    refine ⟨rfl, rfl, ?_⟩
    rw [← areNew]
    rfl
  rw [areNew] at narrow unbound ⊢
  refine ⟨?_, ?_, ?_⟩
  · rintro before event after rfl
    have stillInStep := inStep.reportAll
    rw [newRecords] at stillInStep
    have sameFormat : (first.reportAll before).format = format := format_reportAll first before
    refine ⟨stillInStep.nextVar, ?_, stillInStep.answers ?_ ?_⟩
    · rw [← sameFormat]
      exact stillInStep.source_eq
    · intro symbol given solved isNew
      exact narrow symbol given solved (newRecord?_mem_newRecords isNew)
    · intro symbol text length isNew
      exact unbound symbol text length (newRecord?_mem_newRecords isNew)
  · rw [← List.append_nil events] at inStep
    exact inStep.reportAll.source
  · rintro rfl noFloat
    rw [records_reportAll, inStep.newRecords_eq, map_again_newRecords _ noFloat]
    rfl

/-- The calls of a program that opens a scope, asks for a number and a name, closes the scope and
asks for another name. -/
def introduction : List Event :=
  [.beginScope, .intInput, .textInput, .branch true none 1, .endScope, .textInput]

/-- What the program records if its input has no markers and the first name looks like one. -/
def introduced : List InputRecord :=
  ((start ["7", "[", "hi"] [] {} 100 {}).reportAll introduction).records

/-- A solution for the number, for the length of the first name and for a letter of the second. -/
def introductionSolution : Assignment :=
  .ofList [(.int 1, -5), (.int 3, 2), (.char 4 0, 72)]

/-- The next run of the program, before its first call. -/
def introducedAgain (solution : Assignment) : Recording :=
  start (lines introduced solution {}) [] {} 100 {}

theorem introduction_lines_inStep :
    lines introduced introductionSolution {} = ["[", "-5", "[a", "]", "Hi"] ∧
      ((introducedAgain introductionSolution).reportAll introduction).source = [] ∧
      ((introducedAgain introductionSolution).reportAll [.beginScope]).int.2.1.toInt64 = -5 ∧
      ((introducedAgain ∅).reportAll introduction).records = introduced := by
  have areIds : introduced.map ids = [[], [1], [2, 3], [], [4, 5]] := by decide +kernel
  have narrow : ∀ symbol given solved, .value symbol (.int given) ∈ introduced →
      introductionSolution.int? symbol = some solved →
        -2 ^ 31 ≤ solved.toInt ∧ solved.toInt < 2 ^ 31 := by
    intro symbol given solved _ isSolved
    have isBound := VarMap.mem_of_get?_ofList isSolved
    simp only [List.mem_cons, List.not_mem_nil, Prod.mk.injEq, reduceCtorEq, false_and,
      or_false] at isBound
    rcases isBound with ⟨_, rfl⟩ | ⟨_, rfl⟩
    · decide
    · decide
  have unbound : ∀ symbol text length, .value symbol (.text text length) ∈ introduced →
      introductionSolution.int? symbol = none := by
    intro symbol text length isRecord
    have isText : [symbol, length] ∈ introduced.map ids := List.mem_map.mpr ⟨_, isRecord, rfl⟩
    rw [areIds] at isText
    have isOne : symbol = 2 ∧ length = 3 ∨ symbol = 4 ∧ length = 5 := by simpa using isText
    rcases isOne with ⟨rfl, _⟩ | ⟨rfl, _⟩
    · decide +kernel
    · decide +kernel
  rcases reportAll_lines_inStep ["7", "[", "hi"] [] [] {} 100 100 {} {} introduction
    introductionSolution narrow unbound with ⟨atCalls, atEnd, _⟩
  rcases reportAll_lines_inStep ["7", "[", "hi"] [] [] {} 100 100 {} {} introduction ∅
    (fun _ _ _ _ => nofun) (fun _ _ _ _ => rfl) with ⟨_, _, sameAgain⟩
  refine ⟨by decide +kernel, atEnd, ?_, sameAgain rfl (by simp [introduction])⟩
  have isAnswer := (atCalls [.beginScope] .intInput _ rfl).2.2.2
  refine isAnswer.trans ?_
  decide +kernel

end Recording

end Concolic
