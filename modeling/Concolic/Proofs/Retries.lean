import Mathlib
import Concolic.Proofs.Attempts
import Concolic.Proofs.Statements
import Concolic.Proofs.Turning

/-!
# Retries make progress

The formulas that the attempts of a call send to the integer layer differ in one line, which asserts
the exclusion clauses of all integer models that were refused before. Everything else is made from
the path alone.

So if the solver assigns the declared variables and respects the assertions, then it cannot return a
model again. For this nothing has to be assumed of the check at the end of a formula, and therefore
assertions are read apart from it here (`Presentation.MeetsAssertions`).
-/

namespace Concolic

namespace Presentation

/-- A valuation satisfies the assertions of a text, whatever it makes of the check. -/
def MeetsAssertions (valuation : Variable → Int) (text : String) : Prop :=
  ∀ formula ∈ assertions text.toList, meaning? valuation formula = some true

instance (valuation : Variable → Int) (text : String) :
    Decidable (MeetsAssertions valuation text) :=
  inferInstanceAs (Decidable (∀ formula ∈ assertions text.toList,
    meaning? valuation formula = some true))

end Presentation

open Presentation

namespace Query

/-- Whoever satisfies the assertions of a query differs from all models that it excludes. -/
theorem excludes_of_meetsAssertions {query : Query} {models : List Model}
    (isExclusion : query.extra = Problem.exclusion? models) {valuation : Variable → Int}
    (meets : MeetsAssertions valuation query.text) : Model.excludes valuation models = true := by
  rcases exists_assertions_lines (isStatement_extra isExclusion) with ⟨ints, chars, _, _, asserts⟩
  rw [← forall_extra_holds isExclusion]
  intro statement isExtra
  have isAsserted : lexemes statement.toList ∈ Presentation.assertions query.text.toList := by
    rw [text_eq_join, asserts]
    exact List.mem_append_right _ (List.mem_map_of_mem isExtra)
  simp [Command.holds, meets _ isAsserted]

end Query

namespace Model

variable {first second : Model} {valuation : Variable → Int}

/-- What a solver may answer to a text: a value for each variable that the text declares and for no
other one, such that the assertions of the text are satisfied. -/
structure Solves (model : Model) (text : String) : Prop where
  complete : ∀ var, (∃ value, (var, value) ∈ model) ↔ var ∈ Presentation.declared text
  sound : ∃ valuation, model.agrees valuation = true ∧ MeetsAssertions valuation text

/-- If the lines of a model do not contradict each other, then each of them gives the value. -/
theorem get?_onto_of_agrees (consistent : first.agrees valuation = true) {entry : Variable × Int64}
    (member : entry ∈ first) : (first.onto ∅).get? entry.1 = some entry.2 := by
  have agrees : ∀ line ∈ first, valuation line.1 = line.2.toInt := by
    simpa [agrees] using consistent
  cases found : (first.onto ∅).get? entry.1 with
  | none =>
      rw [get?_onto_eq_lookup, Option.or_eq_none_iff, List.lookup_eq_none_iff] at found
      have differs := found.1 entry (List.mem_reverse.mpr member)
      simp at differs
  | some value =>
      have isLine : (entry.1, value) ∈ first := (mem_of_get?_onto found).resolve_right (by simp)
      have same : value.toInt = entry.2.toInt := (agrees _ isLine).symm.trans (agrees _ member)
      rw [Int64.toInt_inj.mp same]

theorem agrees_of_onto_eq {other : Variable → Int} (consistent : first.agrees other = true)
    (same : first.onto ∅ = second.onto ∅) (secondAgrees : second.agrees valuation = true) :
    first.agrees valuation = true := by
  have agrees : ∀ line ∈ second, valuation line.1 = line.2.toInt := by
    simpa [agrees] using secondAgrees
  simp only [Model.agrees, List.all_eq_true, beq_iff_eq]
  intro entry member
  have found := get?_onto_of_agrees consistent member
  rw [same] at found
  exact agrees _ ((mem_of_get?_onto found).resolve_right (by simp))

end Model

/-- The clause that excludes the integer model of an attempt. -/
def Attempt.clause? (attempt : Attempt) : Option String :=
  attempt.model?.bind Model.exclusion?

namespace Problem

/-- The line that asserts all of some clauses; there is none without clauses. -/
def exclusionLines (clauses : List String) : List String :=
  if clauses = [] then [] else [Query.assertion (String.intercalate " AND " clauses)]

variable {problem : Problem} {number calls : Nat} {excluded : List Model} {attempt : Attempt}
  {text : String}

/-- What an attempt sends to the integer layer is made from the path, with one further assertion. -/
theorem Made.integers_sent (made : problem.Made number excluded calls attempt)
    (isSent : attempt.integers.formula = some text) :
    ∃ query, problem.query? number .integers none ∅ = some query ∧
      text = String.join
        (query.opening ++ (exclusion? excluded).toList.map Query.assertion ++ query.closing) ∧
      Presentation.declared text = query.declared.keys ∧
      (∀ valuation, MeetsAssertions valuation text → Model.excludes valuation excluded = true) ∧
      attempt.integers.answer = problem.verdict calls text := by
  have inquired := made.integers
  generalize attempt.integers = inquiry at inquired isSent
  cases inquired with
  | settled | unsent => cases isSent
  | @answered query built isOpen =>
      have isText : query.text = text := Option.some.inj isSent
      subst isText
      have isExclusion : query.extra = exclusion? excluded := (Query.fields_of_build? built).2.2
      refine ⟨{ query with extra := none }, ?_, ?_, ?_, ?_, rfl⟩
      · rcases Option.map_eq_some_iff.mp built with ⟨last, found, rfl⟩
        exact Option.map_eq_some_iff.mpr ⟨last, found, rfl⟩
      · rw [Query.text_eq_join, isExclusion]
        rfl
      · exact (Query.satisfies_and_declared isExclusion fun _ => 0).2
      · exact fun valuation meets => Query.excludes_of_meetsAssertions isExclusion meets

/-- An attempt with an integer model has sent a formula, unless the model is empty. -/
theorem Made.exists_integers_sent (made : problem.Made number excluded calls attempt)
    {model : Model} (found : attempt.model? = some model) (nonempty : model ≠ []) :
    ∃ text, attempt.integers.formula = some text := by
  have inquired := made.integers
  rw [Attempt.model?, Inquiry.model?_eq_some_iff] at found
  generalize attempt.integers = inquiry at inquired found
  cases inquired with
  | settled =>
      cases found
      exact absurd rfl nonempty
  | answered => exact ⟨_, rfl⟩
  | unsent => cases found

namespace Logged

variable {log : List Attempt} {position : Nat} {models : List Model}

/-- An attempt excludes the models of all attempts before it. The induction goes along the log,
while the excluded models grow. -/
theorem exists_made (logged : problem.Logged number excluded calls log)
    (isAttempt : log[position]? = some attempt) :
    ∃ models : List Model, (log.take position).map Attempt.model? = models.map some ∧
      (∀ model ∈ models, model ≠ []) ∧
      problem.Made number (excluded ++ models)
        (calls + ((log.take position).flatMap Attempt.formulas).length) attempt := by
  induction logged generalizing position with
  | nil => simp at isAttempt
  | last made =>
      cases position with
      | zero =>
          cases isAttempt
          exact ⟨[], rfl, by simp, by simpa using made⟩
      | succ position => simp at isAttempt
  | @retry excluded calls former model rest made refused _ ih =>
      cases position with
      | zero =>
          cases isAttempt
          exact ⟨[], rfl, by simp, by simpa using made⟩
      | succ position =>
          rcases ih isAttempt with ⟨models, found, nonempty, madeLater⟩
          refine ⟨model :: models, ?_, ?_, ?_⟩
          · simp [refused.1, found]
          · simpa using ⟨refused.2.1, nonempty⟩
          · simpa [Nat.add_assoc] using madeLater

/-- Nothing is excluded but the clauses of the models that were found before. -/
theorem exists_clauses (found : (log.take position).map Attempt.model? = models.map some)
    (nonempty : ∀ model ∈ models, model ≠ []) :
    (log.take position).map Attempt.clause? = (models.map Model.clauseText).map some ∧
      (exclusion? models).toList.map Query.assertion =
        exclusionLines (models.map Model.clauseText) := by
  have noneEmpty : models.filter (fun model => !model.isEmpty) = models := by
    simpa using nonempty
  have clauses : ∀ model ∈ models, model.exclusion? = some model.clauseText := by
    intro model isModel
    rw [Model.exclusion?, if_neg (by simpa using nonempty model isModel)]
    rfl
  constructor
  · have asBind : (log.take position).map Attempt.clause? =
        ((log.take position).map Attempt.model?).map (Option.bind · Model.exclusion?) := by
      rw [List.map_map]
      rfl
    rw [asBind, found, List.map_map, List.map_map]
    exact List.map_congr_left clauses
  · rw [exclusion?, Model.filterMap_exclusion?, noneEmpty]
    cases models <;> rfl

/-- Every integer model of a log solves the formula that it answers. -/
def Answered (log : List Attempt) : Prop :=
  ∀ attempt ∈ log, ∀ text model, attempt.integers.formula = some text →
    attempt.model? = some model → model.Solves text

/-- A model with values answers a formula with the declarations of the path, and solves it. -/
theorem exists_solves (logged : problem.Logged number [] calls log) (answered : Answered log)
    (isOne : attempt ∈ log) {model : Model} (found : attempt.model? = some model)
    (nonempty : model ≠ []) :
    ∃ text query, problem.query? number .integers none ∅ = some query ∧
      Presentation.declared text = query.declared.keys ∧ model.Solves text := by
  rcases List.mem_iff_getElem?.mp isOne with ⟨position, isAttempt⟩
  rcases logged.exists_made isAttempt with ⟨_, _, _, made⟩
  rcases made.exists_integers_sent found nonempty with ⟨text, isSent⟩
  rcases made.integers_sent isSent with ⟨query, built, _, isDeclared, _⟩
  exact ⟨text, query, built, isDeclared, answered attempt isOne text model isSent found⟩

section Earlier

variable {earlier : Attempt} {former : Model}

/-- A model that was found is not found again. -/
theorem onto_ne_of_earlier (logged : problem.Logged number [] calls log) (answered : Answered log)
    (isAttempt : log[position]? = some attempt) (isEarlier : earlier ∈ log.take position)
    (foundFormer : earlier.model? = some former) {model : Model}
    (found : attempt.model? = some model) : former.onto ∅ ≠ model.onto ∅ := by
  intro same
  rcases logged.exists_made isAttempt with ⟨models, foundBefore, nonempty, made⟩
  have isExcluded : former ∈ models := by
    have isSome : some former ∈ models.map some := by
      rw [← foundBefore, ← foundFormer]
      exact List.mem_map_of_mem isEarlier
    simpa using isSome
  have hasValues := nonempty former isExcluded
  rcases logged.exists_solves answered (List.mem_of_mem_take isEarlier) foundFormer hasValues with
    ⟨_, _, _, _, _, _, consistent, _⟩
  by_cases isEmpty : model = []
  · subst isEmpty
    rcases List.exists_mem_of_ne_nil former hasValues with ⟨entry, member⟩
    have isValue := Model.get?_onto_of_agrees consistent member
    rw [same] at isValue
    simp [Model.onto] at isValue
  -- The values of this model satisfy the clause of the former one, so they cannot be the same.
  · rcases made.exists_integers_sent found isEmpty with ⟨text, isSent⟩
    rcases (answered attempt (List.mem_of_getElem? isAttempt) text model isSent found).sound with
      ⟨valuation, agrees, meets⟩
    rcases made.integers_sent isSent with ⟨_, _, _, _, excludes, _⟩
    have differs := List.all_eq_true.mp (excludes valuation meets) former isExcluded
    rw [Model.agrees_of_onto_eq consistent same agrees] at differs
    simp [hasValues] at differs

/-- What a clause names was declared when its model was found, and it is declared again. -/
theorem declared_of_earlier (logged : problem.Logged number [] calls log) (answered : Answered log)
    (isAttempt : log[position]? = some attempt) (isSent : attempt.integers.formula = some text)
    (isEarlier : earlier ∈ log.take position) (foundFormer : earlier.model? = some former)
    {entry : Variable × Int64} (member : entry ∈ former) :
    entry.1 ∈ Presentation.declared text := by
  rcases logged.exists_made isAttempt with ⟨_, _, _, made⟩
  rcases made.integers_sent isSent with ⟨query, built, _, isDeclared, _⟩
  rcases logged.exists_solves answered (List.mem_of_mem_take isEarlier) foundFormer
    (List.ne_nil_of_mem member) with ⟨_, same, builtSame, isDeclaredBefore, solves⟩
  have wasDeclared := (solves.complete entry.1).mp ⟨entry.2, member⟩
  rw [built, Option.some.injEq] at builtSame
  rwa [isDeclared, builtSame, ← isDeclaredBefore]

end Earlier

theorem getElem?_formulas (isAttempt : log[position]? = some attempt)
    (isSent : attempt.integers.formula = some text) :
    (log.flatMap Attempt.formulas)[((log.take position).flatMap Attempt.formulas).length]? =
      some text := by
  have isLog : log = log.take position ++ attempt :: log.drop (position + 1) := by
    rcases List.getElem?_eq_some_iff.mp isAttempt with ⟨inRange, rfl⟩
    simp
  have isFormulas : log.flatMap Attempt.formulas = (log.take position).flatMap Attempt.formulas ++
      (attempt.formulas ++ (log.drop (position + 1)).flatMap Attempt.formulas) := by
    conv_lhs => rw [isLog]
    rw [List.flatMap_append, List.flatMap_cons]
  rw [isFormulas, List.getElem?_append_right (Nat.le_refl _), Nat.sub_self, Attempt.formulas,
    isSent]
  rfl

end Logged

/-- The models among the answers to what was sent between two benches solve their formulas. -/
def SolvedBetween (problem : Problem) (before after : Bench) : Prop :=
  ∀ call text model, before.sent.length ≤ call → after.sent[call]? = some text →
    problem.verdict call text = .ok (.sat model) → model.Solves text

theorem Logged.answered {before after : Bench} {log : List Attempt}
    (logged : problem.Logged number [] before.sent.length log)
    (sent : after.sent = before.sent ++ log.flatMap Attempt.formulas)
    (solved : problem.SolvedBetween before after) : Logged.Answered log := by
  intro attempt isOne text model isSent found
  rcases List.mem_iff_getElem?.mp isOne with ⟨position, isAttempt⟩
  rcases logged.exists_made isAttempt with ⟨_, _, _, made⟩
  rcases made.integers_sent isSent with ⟨_, _, _, _, _, isVerdict⟩
  apply solved _ text model (Nat.le_add_right _ _)
  · rw [sent, List.getElem?_append_right (Nat.le_add_right _ _), Nat.add_sub_cancel_left]
    exact getElem?_formulas isAttempt isSent
  · rw [← isVerdict]
    exact Inquiry.model?_eq_some_iff.mp found

/-- The attempts of a call send the same formula to the integer layer, apart from one line, which
asserts the clauses of the models found so far and is missing at first. If the models that the
solver returns during the call solve what they are returned for, then no two integer models are the
same, and what a clause names is declared where it is asserted. -/
theorem retries_exclude_and_differ (problem : Problem) (number : Nat) (bench : Bench) :
    ∃ log, problem.Logged number [] bench.sent.length log ∧
      (problem.solveAt number bench).2.sent = bench.sent ++ log.flatMap Attempt.formulas ∧
      (∀ position attempt text, log[position]? = some attempt →
        attempt.integers.formula = some text →
        ∃ query clauses, problem.query? number .integers none ∅ = some query ∧
          (log.take position).map Attempt.clause? = clauses.map some ∧
          text = String.join (query.opening ++ exclusionLines clauses ++ query.closing) ∧
          (problem.SolvedBetween bench (problem.solveAt number bench).2 → ∀ clause ∈ clauses,
            ∀ var ∈ names clause.toList, var ∈ Presentation.declared text)) ∧
      (problem.SolvedBetween bench (problem.solveAt number bench).2 →
        (log.filterMap Attempt.model?).Pairwise
          fun former model => former.onto ∅ ≠ model.onto ∅) := by
  rcases exists_tells_of_solveAt (problem.solveAt number bench).eta.symm with ⟨log, logged, sent, _⟩
  refine ⟨log, logged, sent, ?_, ?_⟩
  · intro position attempt text isAttempt isSent
    rcases logged.exists_made isAttempt with ⟨models, found, nonempty, made⟩
    rcases made.integers_sent isSent with ⟨query, built, isText, _⟩
    rcases Logged.exists_clauses found nonempty with ⟨isClauses, isLine⟩
    refine ⟨query, models.map Model.clauseText, built, isClauses, ?_, ?_⟩
    · rw [isText, ← isLine, List.nil_append]
    · intro solved clause isClause var isNamed
      rcases List.mem_map.mp isClause with ⟨former, isFormer, rfl⟩
      have reads : Reads (fun _ => 0) false former.clauseText.toList _ _ :=
        former.reads_clauseText (nonempty former isFormer)
      rw [reads.named] at isNamed
      rcases List.mem_map.mp isNamed with ⟨entry, member, rfl⟩
      have wasFound : some former ∈ (log.take position).map Attempt.model? := by
        rw [found]
        exact List.mem_map_of_mem isFormer
      rcases List.mem_map.mp wasFound with ⟨earlier, isEarlier, foundFormer⟩
      exact logged.declared_of_earlier (logged.answered sent solved) isAttempt isSent isEarlier
        foundFormer member
  · intro solved
    rw [List.pairwise_filterMap, List.pairwise_iff_getElem]
    intro before position beforeInRange inRange isBefore former foundFormer model found
    apply logged.onto_ne_of_earlier (logged.answered sent solved)
      (List.getElem?_eq_getElem inRange) _ foundFormer found
    exact List.mem_take_iff_getElem.mpr ⟨before, by omega, rfl⟩

/-- A string that starts with `b` is to have no `b` in it. The solver finds one length after
another. -/
def dwindling : Problem where
  solver := fun call _ =>
    if call % 2 = 0 then .ok ["sat", "x2 : INT = " ++ Numeral.text (call / 2 + 1 : Nat) ++ ";"]
    else .ok ["unsat"]
  settings := { retryBudget := 3 }
  inputsFile := "inputs"
  format := {}
  conditions := [
    .test true { kind := .startsWith 0, subject := .input 1 2, pattern := .literal ⟨0⟩ },
    .test true { kind := .contains, subject := .input 1 2, pattern := .literal ⟨0⟩ }]
  records := []
  lexicon := .ofTexts ["b"]

/-- A formula is sent for each of three lengths, one more model being excluded each time. -/
theorem dwindling_retries_differ :
    dwindling.SolvedBetween {} (dwindling.solveAt 1 {}).2 ∧
    ∃ log, dwindling.Logged 1 [] 0 log ∧
      (log.flatMap Attempt.formulas)[4]? = some ("x2 : INT;\nASSERT x2*(1)+(-1) >= 0;\n" ++
        "ASSERT (NOT ((x2 = 1 ))) AND (NOT ((x2 = 2 )));\nCHECKSAT  TRUE ;\nCOUNTERMODEL;\n") ∧
      (log.filterMap Attempt.model?).Pairwise fun former model => former.onto ∅ ≠ model.onto ∅ := by
  have solves {text : String} (value : Int64) (isDeclared : Presentation.declared text = [.int 2])
      (meets : MeetsAssertions (fun _ => value.toInt) text) : Model.Solves [(.int 2, value)] text :=
    ⟨by simp [isDeclared], _, by simp [Model.agrees], meets⟩
  have isLength : (dwindling.solveAt 1 {}).2.sent.length = 6 := by decide +kernel
  have checked : ∀ attempt < 3, ∀ text ∈ (dwindling.solveAt 1 {}).2.sent[2 * attempt]?,
      Presentation.declared text = [.int 2] ∧
        MeetsAssertions (fun _ => (Int64.ofNat (attempt + 1)).toInt) text := by
    decide +kernel
  have finds (attempt : Nat) (inRange : attempt < 3) (text : String) :
      dwindling.verdict (2 * attempt) text = .ok (.sat [(.int 2, Int64.ofNat (attempt + 1))]) := by
    interval_cases attempt <;> rfl
  have refuses (attempt : Nat) (inRange : attempt < 3) (text : String) :
      dwindling.verdict (2 * attempt + 1) text = .ok .unsat := by
    interval_cases attempt <;> rfl
  have solved : dwindling.SolvedBetween {} (dwindling.solveAt 1 {}).2 := by
    intro call text model _ isSent answered
    rcases List.getElem?_eq_some_iff.mp isSent with ⟨inRange, _⟩
    rw [isLength] at inRange
    rcases Nat.even_or_odd' call with ⟨attempt, rfl | rfl⟩
    · rw [finds attempt (by omega), Except.ok.injEq, Verdict.sat.injEq] at answered
      rcases checked attempt (by omega) text isSent with ⟨isDeclared, meets⟩
      rw [← answered]
      exact solves _ isDeclared meets
    · rw [refuses attempt (by omega), Except.ok.injEq] at answered
      exact absurd answered (by simp)
  rcases dwindling.retries_exclude_and_differ 1 {} with ⟨log, logged, sent, _, differ⟩
  refine ⟨solved, log, logged, ?_, differ solved⟩
  have isFormula : (dwindling.solveAt 1 {}).2.sent[4]? =
      some ("x2 : INT;\nASSERT x2*(1)+(-1) >= 0;\n" ++
        "ASSERT (NOT ((x2 = 1 ))) AND (NOT ((x2 = 2 )));\nCHECKSAT  TRUE ;\nCOUNTERMODEL;\n") := by
    decide +kernel
  rw [sent] at isFormula
  exact isFormula

end Problem

end Concolic
