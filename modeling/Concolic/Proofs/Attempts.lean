import Mathlib
import Concolic.Proofs.Files
import Concolic.Proofs.Solving
import Concolic.Proofs.VarMap

/-!
# The attempts of a call

A call to turn a path aside makes one attempt after another. The log of a call lists them with the
formulas that they sent and the answers that came back (`Problem.Logged`). It is fixed by what was
sent and by what the solver said to it: each formula is that of a layer, under the models that were
excluded so far, and each answer is read from the lines of the solver in that call.

Only the last attempt of a call that succeeds reaches the solution. What it found in both layers is
the whole of the solution, and all other calls keep the solution as it is.
-/

namespace Concolic

/-- One layer of an attempt. -/
structure Inquiry where
  /-- The formula, if one was sent. -/
  formula : Option String
  answer : Except SolverFailure Verdict

/-- One attempt. The characters are asked for once there is an integer model. -/
structure Attempt where
  integers : Inquiry
  characters : Option Inquiry

namespace Inquiry

/-- The model that was found. -/
def model? (inquiry : Inquiry) : Option Model :=
  match inquiry.answer with
  | .ok (.sat model) => some model
  | _ => none

theorem model?_eq_some_iff {inquiry : Inquiry} {model : Model} :
    inquiry.model? = some model ↔ inquiry.answer = .ok (.sat model) := by
  rcases inquiry with ⟨formula, failure | model | _⟩ <;> simp [model?]

end Inquiry

namespace Attempt

/-- The formulas in the order of sending. -/
def formulas (attempt : Attempt) : List String :=
  attempt.integers.formula.toList ++ (attempt.characters.bind Inquiry.formula).toList

/-- The integer model. -/
def model? (attempt : Attempt) : Option Model :=
  attempt.integers.model?

/-- The integer layer gave a model that can be excluded, and the character layer gave none. -/
def Refuses (attempt : Attempt) (model : Model) : Prop :=
  attempt.model? = some model ∧ model ≠ [] ∧
    ∃ inquiry, attempt.characters = some inquiry ∧ inquiry.answer = .ok .unsat

/-- Both layers gave a model. -/
def Finds (attempt : Attempt) (integers characters : Model) : Prop :=
  attempt.model? = some integers ∧
    ∃ inquiry, attempt.characters = some inquiry ∧ inquiry.model? = some characters

end Attempt

namespace Problem

variable {problem : Problem} {number : Nat} {layer : Layer} {extra : Option String}
  {assignment : Assignment} {bench after : Bench}

/-- The verdict of the solver on a formula, by the number of the call. -/
def verdict (problem : Problem) (call : Nat) (text : String) : Except SolverFailure Verdict :=
  match problem.solver call text with
  | .error failure => .error failure
  | .ok lines =>
      match Verdict.read lines with
      | .error fault => .error (.badAnswer fault)
      | .ok verdict => .ok verdict

/-- The query of a layer for the condition of the given number. -/
def query? (problem : Problem) (number : Nat) (layer : Layer) (extra : Option String)
    (assignment : Assignment) : Option Query :=
  Query.build? problem.conditions number problem.lexicon problem.narrow layer assignment extra

/-- The ways in which a layer can be asked after so many calls of the solver. -/
inductive Inquired (problem : Problem) (number : Nat) (layer : Layer) (extra : Option String)
    (assignment : Assignment) (calls : Nat) : Inquiry → Prop where
  /-- Nothing is left to ask, which the empty model answers. -/
  | settled {query : Query} (built : problem.query? number layer extra assignment = some query)
      (isTrivial : query.isTrivial = true) :
      Inquired problem number layer extra assignment calls ⟨none, .ok (.sat [])⟩
  | answered {query : Query} (built : problem.query? number layer extra assignment = some query)
      (isOpen : query.isTrivial = false) :
      Inquired problem number layer extra assignment calls
        ⟨some query.text, problem.verdict calls query.text⟩
  /-- There is no such condition, or the formula cannot be written to its file. -/
  | unsent (failure : SolverFailure) :
      Inquired problem number layer extra assignment calls ⟨none, .error failure⟩

/-- An attempt is made, with some models excluded, after so many calls of the solver. -/
structure Made (problem : Problem) (number : Nat) (excluded : List Model) (calls : Nat)
    (attempt : Attempt) : Prop where
  integers : problem.Inquired number .integers (exclusion? excluded) ∅ calls attempt.integers
  characters : ∀ inquiry, attempt.characters = some inquiry → ∃ model,
    attempt.model? = some model ∧
      problem.Inquired number .characters none (model.onto ∅)
        (calls + attempt.integers.formula.toList.length) inquiry

/-- Attempts one after another, of which all but the last are refused. -/
inductive Logged (problem : Problem) (number : Nat) : List Model → Nat → List Attempt → Prop where
  | nil (excluded : List Model) (calls : Nat) : Logged problem number excluded calls []
  | last {excluded : List Model} {calls : Nat} {attempt : Attempt}
      (made : problem.Made number excluded calls attempt) :
      Logged problem number excluded calls [attempt]
  | retry {excluded : List Model} {calls : Nat} {attempt : Attempt} {model : Model}
      {rest : List Attempt} (made : problem.Made number excluded calls attempt)
      (refused : attempt.Refuses model)
      (logged : Logged problem number (excluded ++ [model]) (calls + attempt.formulas.length)
        rest) :
      Logged problem number excluded calls (attempt :: rest)

/-- The solution after attempts: that of the last one if they succeed, and the former one if not. -/
inductive Concludes (problem : Problem) (before after : Bench) :
    List Attempt → Except SolverFailure Bool → Prop where
  | kept {log : List Attempt} {result : Except SolverFailure Bool} (failed : result ≠ .ok true)
      (solution : after.solution = before.solution) : Concludes problem before after log result
  | adopted {earlier : List Attempt} {last : Attempt} {integers characters : Model}
      (finds : last.Finds integers characters)
      (solution : after.solution = some (characters.onto (integers.onto ∅)))
      (written : after.directory.read problem.inputsFile = .ok (Text.unlines
        (InputRecord.lines problem.records (characters.onto (integers.onto ∅)) problem.format))) :
      Concludes problem before after (earlier ++ [last]) (.ok true)

theorem send_cases (problem : Problem) (query : Query) (bench : Bench) :
    problem.send query bench = (.error .io, bench) ∨
      ∃ directory, problem.send query bench =
        (problem.verdict bench.sent.length query.text,
          { bench with
            directory
            sent := bench.sent ++ [query.text]
            tally := { bench.tally with solverCalls := bench.tally.solverCalls + 1 } }) := by
  rw [send, verdict]
  cases bench.directory.write problem.settings.formulaFile query.text with
  | error fault => exact .inl rfl
  | ok directory =>
      right
      refine ⟨directory, ?_⟩
      cases problem.solver bench.sent.length query.text with
      | error failure => rfl
      | ok lines =>
          dsimp only
          cases Verdict.read lines <;> rfl

/-- Asking a layer sends the formula of an inquiry and leaves the solution alone. -/
theorem exists_inquired_of_ask {answer : Except SolverFailure Verdict}
    (asked : problem.ask number layer extra assignment bench = (answer, after)) :
    ∃ formula,
      problem.Inquired number layer extra assignment bench.sent.length ⟨formula, answer⟩ ∧
      after.sent = bench.sent ++ formula.toList ∧ after.solution = bench.solution := by
  simp only [ask] at asked
  split at asked
  · cases asked
    exact ⟨none, .unsent _, by simp, rfl⟩
  · rename_i query built
    split at asked
    · rename_i isTrivial
      cases asked
      exact ⟨none, .settled built isTrivial, by simp, rfl⟩
    · rename_i isOpen
      rcases problem.send_cases query bench with unsent | ⟨directory, sent⟩
      · rw [unsent] at asked
        cases asked
        exact ⟨none, .unsent _, by simp, rfl⟩
      · rw [sent] at asked
        cases asked
        exact ⟨some query.text, .answered built (by simpa using isOpen), rfl, rfl⟩

/-- The integer layer is asked like any layer, unless the path repeats a test. -/
theorem askIntegers_cases {answer : Except SolverFailure Verdict}
    (asked : problem.askIntegers number extra bench = (answer, after)) :
    answer = .ok .unsat ∧ after.sent = bench.sent ∧ after.solution = bench.solution ∨
      problem.ask number .integers extra ∅ bench = (answer, after) := by
  rw [askIntegers] at asked
  split at asked
  · cases asked
    exact .inl ⟨rfl, rfl, rfl⟩
  · exact .inr asked

/-- A log tells how attempts led from one bench to another. -/
structure Tells (problem : Problem) (number : Nat) (excluded : List Model) (before after : Bench)
    (result : Except SolverFailure Bool) (log : List Attempt) : Prop where
  logged : problem.Logged number excluded before.sent.length log
  sent : after.sent = before.sent ++ log.flatMap Attempt.formulas
  concludes : problem.Concludes before after log result

section Attempts

variable {excluded : List Model} {result : Except SolverFailure Bool} {model : Model}
  {next last : Bench}

/-- An attempt may end at the integer layer. -/
theorem exists_tells_of_integers {answer : Except SolverFailure Verdict}
    (asked : problem.ask number .integers (exclusion? excluded) ∅ bench = (answer, after))
    (failed : result ≠ .ok true) :
    ∃ log, problem.Tells number excluded bench after result log := by
  rcases exists_inquired_of_ask asked with ⟨formula, inquired, sent, solution⟩
  refine ⟨[⟨⟨formula, answer⟩, none⟩], .last ⟨inquired, by simp⟩, ?_, .kept failed solution⟩
  simpa [Attempt.formulas] using sent

/-- Otherwise it asks both layers. -/
theorem exists_made_of_both {answer : Except SolverFailure Verdict}
    (asked : problem.ask number .integers (exclusion? excluded) ∅ bench = (.ok (.sat model), next))
    (askedAgain : problem.ask number .characters none (model.onto ∅) next = (answer, last)) :
    ∃ attempt inquiry, problem.Made number excluded bench.sent.length attempt ∧
      attempt.model? = some model ∧ attempt.characters = some inquiry ∧ inquiry.answer = answer ∧
      last.sent = bench.sent ++ attempt.formulas ∧ last.solution = bench.solution := by
  rcases exists_inquired_of_ask asked with ⟨formula, inquired, sent, solution⟩
  rcases exists_inquired_of_ask askedAgain with
    ⟨characters, inquiredAgain, sentAgain, solutionAgain⟩
  rw [sent, List.length_append] at inquiredAgain
  refine ⟨⟨⟨formula, .ok (.sat model)⟩, some ⟨characters, answer⟩⟩, _, ⟨inquired, ?_⟩, rfl, rfl,
    rfl, ?_, solutionAgain.trans solution⟩
  · rintro inquiry ⟨⟩
    exact ⟨model, rfl, inquiredAgain⟩
  · simp [sentAgain, sent, Attempt.formulas]

/-- Attempts end with the character layer if it fails, or if an empty model cannot be excluded. -/
theorem exists_tells_of_characters {answer : Except SolverFailure Verdict}
    (asked : problem.ask number .integers (exclusion? excluded) ∅ bench = (.ok (.sat model), next))
    (askedAgain : problem.ask number .characters none (model.onto ∅) next = (answer, last))
    (failed : result ≠ .ok true) (sameSent : after.sent = last.sent)
    (sameSolution : after.solution = last.solution) :
    ∃ log, problem.Tells number excluded bench after result log := by
  rcases exists_made_of_both asked askedAgain with ⟨attempt, _, made, _, _, _, sent, solution⟩
  refine ⟨[attempt], .last made, ?_, .kept failed (sameSolution.trans solution)⟩
  simpa [sameSent] using sent

/-- Attempts end with a solution, which may fail to be written. -/
theorem exists_tells_of_adopt {characters : Model}
    (asked : problem.ask number .integers (exclusion? excluded) ∅ bench = (.ok (.sat model), next))
    (askedAgain : problem.ask number .characters none (model.onto ∅) next =
      (.ok (.sat characters), last))
    (adopted : problem.adopt (characters.onto (model.onto ∅)) last = (result, after)) :
    ∃ log, problem.Tells number excluded bench after result log := by
  rcases exists_made_of_both asked askedAgain with
    ⟨attempt, inquiry, made, found, isInquiry, isAnswer, sent, solution⟩
  have finds : attempt.Finds model characters :=
    ⟨found, inquiry, isInquiry, Inquiry.model?_eq_some_iff.mpr isAnswer⟩
  rcases adopt_cases adopted with
    ⟨rfl, directory, written, rfl⟩ | ⟨rfl, fault, directory, unwritten, rfl⟩
  · refine ⟨[] ++ [attempt], .last made, ?_, .adopted finds rfl (read_of_writeInputs written)⟩
    simpa using sent
  · refine ⟨[attempt], .last made, ?_, .kept (by simp) solution⟩
    simpa using sent

/-- Attempts go on with one more model excluded. -/
theorem exists_tells_of_retry
    (asked : problem.ask number .integers (exclusion? excluded) ∅ bench = (.ok (.sat model), next))
    (askedAgain : problem.ask number .characters none (model.onto ∅) next = (.ok .unsat, last))
    (nonempty : model ≠ []) {log : List Attempt}
    (tells : problem.Tells number (excluded ++ [model])
      (last.count fun tally => { tally with retries := tally.retries + 1 }) after result log) :
    ∃ log, problem.Tells number excluded bench after result log := by
  rcases exists_made_of_both asked askedAgain with
    ⟨attempt, inquiry, made, found, isInquiry, isAnswer, sent, solution⟩
  rcases tells with ⟨logged, sentLater, concludes⟩
  simp only [Bench.count, sent, List.length_append] at logged sentLater
  refine ⟨attempt :: log, .retry made ⟨found, nonempty, inquiry, isInquiry, isAnswer⟩ logged, ?_,
    ?_⟩
  · simp [sentLater]
  · cases concludes with
    | kept failed same => exact .kept failed (same.trans solution)
    | adopted finds isSolution written =>
        rw [← List.cons_append]
        exact .adopted finds isSolution written

/-- Attempts leave a log. The induction is on the budget, while the excluded models grow. -/
theorem exists_tells_of_attempts {budget : Nat}
    (ended : problem.attempts number budget excluded bench = (result, after)) :
    ∃ log, problem.Tells number excluded bench after result log := by
  induction budget generalizing excluded bench with
  | zero =>
      cases ended
      exact ⟨[], .nil _ _, by simp, .kept (by simp) rfl⟩
  | succ budget ih =>
      simp only [attempts] at ended
      split at ended
      · rename_i failure next asked
        cases ended
        rcases askIntegers_cases asked with ⟨impossible, _⟩ | asked
        · cases impossible
        · exact exists_tells_of_integers asked (by simp)
      · rename_i next asked
        cases ended
        rcases askIntegers_cases asked with ⟨_, sent, solution⟩ | asked
        · exact ⟨[], .nil _ _, by simpa using sent, .kept (by simp) solution⟩
        · exact exists_tells_of_integers asked (by simp)
      · rename_i model next asked
        rcases askIntegers_cases asked with ⟨impossible, _⟩ | asked
        · cases impossible
        split at ended
        · rename_i failure last askedAgain
          cases ended
          exact exists_tells_of_characters asked askedAgain (by simp) rfl rfl
        · rename_i characters last askedAgain
          exact exists_tells_of_adopt asked askedAgain ended
        · rename_i last askedAgain
          split at ended
          · cases ended
            exact exists_tells_of_characters asked askedAgain (by simp) rfl rfl
          · rename_i nonempty
            rcases ih ended with ⟨log, tells⟩
            exact exists_tells_of_retry asked askedAgain (by simpa using nonempty) tells

/-- A call leaves a log, with nothing excluded at first. -/
theorem exists_tells_of_solveAt (solved : problem.solveAt number bench = (result, after)) :
    ∃ log, problem.Tells number [] bench after result log := by
  simp only [solveAt] at solved
  split at solved
  · rename_i feasible ended isEnded
    cases solved
    rcases exists_tells_of_attempts isEnded with ⟨log, logged, sent, concludes⟩
    refine ⟨log, logged, sent, ?_⟩
    cases concludes with
    | kept failed solution => exact .kept failed solution
    | adopted finds solution written => exact .adopted finds solution written
  · rename_i failure ended isEnded
    rcases exists_tells_of_attempts isEnded with ⟨log, logged, sent, concludes⟩
    have solution : ended.solution = bench.solution := by
      cases concludes with
      | kept _ solution => exact solution
    split at solved
    · cases solved
      exact ⟨log, logged, sent, .kept (by simp) solution⟩
    · cases solved
      exact ⟨log, logged, sent, .kept (by simp) solution⟩

end Attempts

/-! ### One call after another -/

/-- A call, with its result and with the benches before and after it. -/
structure Call where
  number : Nat
  before : Bench
  result : Except SolverFailure Bool
  after : Bench

/-- Calls one after another. -/
def calls (problem : Problem) : List Nat → Bench → List Call
  | [], _ => []
  | number :: rest, bench =>
      let solved := problem.solveAt number bench
      ⟨number, bench, solved.1, solved.2⟩ :: problem.calls rest solved.2

/-- The bench after calls. -/
def finish (problem : Problem) (numbers : List Nat) (bench : Bench) : Bench :=
  numbers.foldl (fun bench number => (problem.solveAt number bench).2) bench

theorem solveAt_of_mem_calls {numbers : List Nat} {call : Call}
    (member : call ∈ problem.calls numbers bench) :
    problem.solveAt call.number call.before = (call.result, call.after) := by
  induction numbers generalizing bench with
  | nil => simp [calls] at member
  | cons number rest ih =>
      rcases List.mem_cons.mp member with rfl | isLater
      · rfl
      · exact ih isLater

/-- A call that does not succeed keeps the solution. -/
theorem solution_of_not_feasible {result : Except SolverFailure Bool}
    (solved : problem.solveAt number bench = (result, after)) (failed : result ≠ .ok true) :
    after.solution = bench.solution := by
  rcases exists_tells_of_solveAt solved with ⟨log, _, _, concludes⟩
  cases concludes with
  | kept _ solution => exact solution
  | adopted => exact absurd rfl failed

/-- After calls, the solution is that of the last one that succeeded. -/
theorem solution_finish (problem : Problem) (numbers : List Nat) (bench : Bench) :
    (problem.finish numbers bench).solution =
      (((problem.calls numbers bench).filter fun call => call.result = .ok true).getLast?.map
        fun call => call.after.solution).getD bench.solution := by
  induction numbers generalizing bench with
  | nil => rfl
  | cons number rest ih =>
      have step : problem.finish (number :: rest) bench =
          problem.finish rest (problem.solveAt number bench).2 := rfl
      rw [step, ih, calls]
      by_cases succeeds : (problem.solveAt number bench).1 = .ok true
      · rw [List.filter_cons_of_pos (by simpa using succeeds), List.getLast?_cons]
        cases (List.filter (fun call : Call => call.result = .ok true)
          (problem.calls rest (problem.solveAt number bench).2)).getLast? <;> rfl
      · rw [List.filter_cons_of_neg (by simpa using succeeds),
          solution_of_not_feasible (problem.solveAt number bench).eta.symm succeeds]

end Problem

/-- A model laid over an assignment gives each variable the value of its last line. -/
theorem Model.get?_onto_eq_lookup (model : Model) (base : Assignment) (var : Variable) :
    (model.onto base).get? var = (model.reverse.lookup var).or (base.get? var) := by
  induction model generalizing base with
  | nil => rfl
  | cons entry rest ih =>
      have step : onto (entry :: rest) base = onto rest (base.insert entry.1 entry.2) := rfl
      rw [step, ih, List.reverse_cons, List.lookup_append, Option.or_assoc, VarMap.get?_insert]
      by_cases same : entry.1 = var
      · simp [List.lookup, same]
      · have apart : (var == entry.1) = false := by simpa using Ne.symm same
        simp [List.lookup, same, apart]

namespace Problem

/-- For every solver and any calls one after another, a call changes the solution only if it
succeeds. Then the solution gives each variable the value of the last line for it among those of the
integer model and those of the character model, in this order, that the last attempt of this call
has found. Nothing else is in it, and what the input file holds afterwards are the lines of the
run's records under it. So the solution after all calls is that of the last one that succeeded. -/
theorem solution_of_calls (problem : Problem) (numbers : List Nat) (bench : Bench) :
    (∀ call ∈ problem.calls numbers bench, call.result ≠ .ok true →
      call.after.solution = call.before.solution) ∧
    (∀ call ∈ problem.calls numbers bench, call.result = .ok true →
      ∃ earlier last integers characters solution,
        problem.Logged call.number [] call.before.sent.length (earlier ++ [last]) ∧
        call.after.sent = call.before.sent ++ (earlier ++ [last]).flatMap Attempt.formulas ∧
        last.Finds integers characters ∧
        call.after.solution = some solution ∧
        (∀ var, solution.get? var = (integers ++ characters).reverse.lookup var) ∧
        call.after.directory.read problem.inputsFile = .ok (Text.unlines
          (InputRecord.lines problem.records solution problem.format))) ∧
    (problem.finish numbers bench).solution =
      (((problem.calls numbers bench).filter fun call => call.result = .ok true).getLast?.map
        fun call => call.after.solution).getD bench.solution := by
  refine ⟨?_, ?_, problem.solution_finish numbers bench⟩
  · intro call member failed
    exact solution_of_not_feasible (solveAt_of_mem_calls member) failed
  · rintro ⟨number, before, result, after⟩ member (rfl : result = .ok true)
    rcases exists_tells_of_solveAt (solveAt_of_mem_calls member) with
      ⟨log, logged, sent, concludes⟩
    cases concludes with
    | kept failed _ => exact absurd rfl failed
    | @adopted earlier last integers characters finds solution written =>
        refine ⟨earlier, last, integers, characters, _, logged, sent, finds, solution, ?_, written⟩
        intro var
        rw [Model.get?_onto_eq_lookup, Model.get?_onto_eq_lookup, List.reverse_append,
          List.lookup_append]
        simp

/-- The answers of a solver that takes a length back, and then gives another one twice. Asked once
more it finds a length and falls silent. -/
def waveringAnswers : List (List String) :=
  [["sat", "x2 : INT = 1;", "x9 : INT = 4;"], ["unsat"],
    ["sat", "x2 : INT = 7;", "x2 : INT = 2;"],
    ["sat", "x1__0 : INT = 97;", "x1__1 : INT = 98;"],
    ["sat", "x2 : INT = 5;"], []]

/-- A string that was not `ab` is to be made so. -/
def wavering : Problem where
  solver := fun call _ => (waveringAnswers[call]?.map Except.ok).getD (.error .spawn)
  settings := {}
  inputsFile := "inputs"
  format := {}
  conditions := [.test false { kind := .equals, subject := .input 1 2, pattern := .literal ⟨0⟩ }]
  records := [.value 1 (.text "zz" 2)]
  lexicon := .ofTexts ["ab"]

/-- The first call succeeds with its second attempt, and nothing of its first attempt or of the
second call is in the solution. -/
theorem wavering_solution_of_calls :
    ∃ first second solution, wavering.calls [0, 0] {} = [first, second] ∧
      first.result = .ok true ∧ second.result = .error (.badAnswer .silent) ∧
      first.after.solution = some solution ∧
      solution.get? (.int 2) = some 2 ∧ solution.get? (.int 9) = none ∧
      solution.get? (.char 1 0) = some 97 ∧
      first.after.directory.read "inputs" = .ok "ab\n" ∧
      second.after.solution = some solution ∧
      (wavering.finish [0, 0] {}).solution = some solution := by
  rcases wavering.solution_of_calls [0, 0] {} with ⟨keeps, adopts, _⟩
  have succeeds : (wavering.solveAt 0 {}).1 = .ok true := by decide +kernel
  have fails : (wavering.solveAt 0 (wavering.solveAt 0 {}).2).1 = .error (.badAnswer .silent) := by
    decide +kernel
  have isFirst : ⟨0, {}, _, (wavering.solveAt 0 {}).2⟩ ∈ wavering.calls [0, 0] {} :=
    List.mem_cons_self
  have isSecond : ⟨0, (wavering.solveAt 0 {}).2, _,
      (wavering.solveAt 0 (wavering.solveAt 0 {}).2).2⟩ ∈ wavering.calls [0, 0] {} :=
    List.mem_cons_of_mem _ List.mem_cons_self
  rcases adopts _ isFirst succeeds with ⟨_, _, _, _, solution, _, _, _, isSolution, _, written⟩
  have entries : (wavering.solveAt 0 {}).2.solution.map VarMap.entries =
      some [(.int 2, 2), (.char 1 0, 97), (.char 1 1, 98)] := by
    decide +kernel
  obtain rfl : solution = .ofList [(.int 2, 2), (.char 1 0, 97), (.char 1 1, 98)] := by
    rw [isSolution, Option.map_some, Option.some.injEq] at entries
    exact VarMap.ext (entries.trans (by decide))
  have kept := (keeps _ isSecond (by simp [fails])).trans isSolution
  refine ⟨_, _, _, rfl, succeeds, fails, isSolution, by decide, by decide, by decide, ?_, kept,
    kept⟩
  exact written.trans (by decide +kernel)

end Problem

end Concolic
