import Mathlib
import Concolic.Proofs.Linear
import Concolic.Proofs.Statements
import Concolic.Proofs.Stream
import Concolic.Proofs.Turning

/-!
# Answers of a solver are read back

A line of an answer counts exactly if it has five words, and then it must be right: a model is read as
it was printed among whatever other lines (`Verdict.Printed`), and one line that is wrong spoils all
of it (`Verdict.Faulty`).

A solver that finds a query satisfied prints one line for each declared variable, with an integer of
any size. Reading such an answer fails exactly if a value does not fit into 64 bits
(`Verdict.read_answer`, `Verdict.read_answer_of_wide`). The bounds in a query keep the solved `int`
inputs within 32 bits and the characters within the printable ones, but nothing bounds a `long` input:
a comparison with the greatest word has answers, and none of them can be read.

From an answer that is read, the lines of the next run are written. A number that it solves is what
that run gets at the same call.
-/

namespace Concolic

/-! ### Words of a line -/

namespace Text

/-- A text without blanks is one word, and words after a blank are on their own. -/
theorem words_append {word : List Char} (nonempty : word ≠ [])
    (solid : ∀ character ∈ word, isBlank character = false) (rest : List Char) :
    words (word ++ ' ' :: rest) = word :: words rest := by
  rw [words, splitWhere_append (by decide), splitWhere_of_forall solid, List.filter_append]
  rw [List.filter_cons_of_pos (by simpa using nonempty)]
  rfl

theorem words_of_forall {word : List Char} (nonempty : word ≠ [])
    (solid : ∀ character ∈ word, isBlank character = false) : words word = [word] := by
  rw [words, splitWhere_of_forall solid, List.filter_cons_of_pos (by simpa using nonempty)]
  rfl

end Text

theorem Variable.isBlank_eq_false_of_mem_nameChars {var : Variable} {character : Char}
    (member : character ∈ var.nameChars) : Text.isBlank character = false := by
  have wordy := Presentation.wordy_of_mem_nameChars member
  by_contra blank
  rw [Bool.not_eq_false] at blank
  simp [Presentation.shape, blank] at wordy

namespace Numeral

theorem int64?_ofInt_of_fitsWord {value : Int} (fits : FitsWord value) :
    int64? (ofInt value) = some (Int64.ofInt value) := by
  have reads := int64?_ofInt (Int64.ofInt value)
  rwa [toInt_ofInt_of_fitsWord fits] at reads

theorem int64?_ofInt_of_not_fitsWord {value : Int} (wide : ¬FitsWord value) :
    int64? (ofInt value) = none := by
  have outside : ¬within int64Range.1 int64Range.2 value = true := by
    simp only [within, int64Range, Bool.and_eq_true]
    rintro ⟨low, high⟩
    have low := of_decide_eq_true low
    have high := of_decide_eq_true high
    exact wide ⟨by omega, by omega⟩
  simp [int64?, signed?_ofInt, outside]

end Numeral

/-! ### Answers -/

namespace Verdict

variable {valuation : Variable → Int} {vars : List Variable}

/-- The line that gives a variable its value. -/
def line (valuation : Variable → Int) (var : Variable) : String :=
  var.name ++ " : INT = " ++ Numeral.text (valuation var) ++ ";"

/-- The answer that gives variables their values. -/
def answer (valuation : Variable → Int) (vars : List Variable) : List String :=
  "sat" :: vars.map (line valuation)

theorem words_line (valuation : Variable → Int) (var : Variable) :
    Text.words (line valuation var).toList =
      [var.nameChars, [':'], ['I', 'N', 'T'], ['='],
        Numeral.ofInt (valuation var) ++ [';']] := by
  have parts : (line valuation var).toList =
      var.nameChars ++ ' ' :: ([':'] ++ ' ' :: (['I', 'N', 'T'] ++ ' ' :: (['='] ++
        ' ' :: (Numeral.ofInt (valuation var) ++ [';'])))) := by
    simp [line]
  have named : var.nameChars ≠ [] := by
    rcases Presentation.exists_nameChars_eq_cons var with ⟨rest, starts⟩
    simp [starts]
  have unblank {word : List Char} (unblank : word.all (fun letter => !Text.isBlank letter) = true) :
      ∀ character ∈ word, Text.isBlank character = false := by
    simpa using unblank
  have solid : ∀ character ∈ Numeral.ofInt (valuation var) ++ [';'],
      Text.isBlank character = false := by
    intro character member
    rcases List.mem_append.mp member with inNumeral | isEnd
    · exact Numeral.isBlank_eq_false_of_mem_ofInt inNumeral
    · rw [List.mem_singleton.mp isEnd]
      decide
  rw [parts, Text.words_append named fun _ => Variable.isBlank_eq_false_of_mem_nameChars,
    Text.words_append (by simp) (unblank (by decide)),
    Text.words_append (by simp) (unblank (by decide)),
    Text.words_append (by simp) (unblank (by decide)), Text.words_of_forall (by simp) solid]

theorem takeWhile_value (value : Int) :
    (Numeral.ofInt value ++ [';']).takeWhile (· != ';') = Numeral.ofInt value := by
  rw [List.takeWhile_append_of_pos]
  · simp
  · intro character member
    rcases Numeral.mem_ofInt member with rfl | digit
    · decide
    · have range := Numeral.toNat_of_isDigit digit
      rw [bne_iff_ne]
      rintro rfl
      simp at range

theorem readLine_line {var : Variable} (fits : FitsWord (valuation var)) :
    readLine (line valuation var) = .ok (some (var, Int64.ofInt (valuation var))) := by
  simp only [readLine, words_line, Variable.ofNameChars?_nameChars, takeWhile_value,
    Numeral.int64?_ofInt_of_fitsWord fits]

theorem readLine_line_of_wide {var : Variable} (wide : ¬FitsWord (valuation var)) :
    readLine (line valuation var) =
      .error (.badValue (Numeral.text (valuation var)) (line valuation var)) := by
  simp only [readLine, words_line, Variable.ofNameChars?_nameChars, takeWhile_value,
    Numeral.int64?_ofInt_of_not_fitsWord wide]
  rfl

end Verdict

/-! ### Lines of a model and other lines -/

namespace Verdict

variable {lines : List String}

/-- The lines in which a solver prints a model: one for each value, in order, and anywhere between
them lines that do not have five words. -/
inductive Printed : Model → List String → Prop
  | nil : Printed [] []
  | chatter {model lines line} (other : (Text.words line.toList).length ≠ 5)
      (rest : Printed model lines) : Printed model (line :: lines)
  | entry {model lines} (var : Variable) (value : Int64) (rest : Printed model lines) :
      Printed ((var, value) :: model)
        ((var.name ++ " : INT = " ++ Numeral.text value.toInt ++ ";") :: lines)

/-- A line of five words of which the first one is no variable, or the last one is no number up to
its semicolon. -/
def Faulty (line : String) : Prop :=
  ∃ name colon type sign last, Text.words line.toList = [name, colon, type, sign, last] ∧
    (Variable.ofNameChars? name = none ∨ Numeral.int64? (last.takeWhile (· != ';')) = none)

/-- A fault shows the line that it was found in. -/
def Shows (line : String) (fault : AnswerFault) : Prop :=
  (∃ name, fault = .badName name line) ∨ ∃ value, fault = .badValue value line

theorem readLine_of_length_ne {line : String} (other : (Text.words line.toList).length ≠ 5) :
    readLine line = .ok none := by
  simp only [readLine]
  split
  · rename_i isFive
    rw [isFive] at other
    exact absurd rfl other
  · rfl

theorem readLine_of_faulty {line : String} (faulty : Faulty line) :
    ∃ fault, readLine line = .error fault ∧ Shows line fault := by
  rcases faulty with ⟨name, colon, type, sign, last, areWords, isBad⟩
  simp only [readLine, areWords]
  cases isVar : Variable.ofNameChars? name with
  | none => exact ⟨_, rfl, .inl ⟨_, rfl⟩⟩
  | some var =>
      have noNumber : Numeral.int64? (last.takeWhile (· != ';')) = none := by
        simpa [isVar] using isBad
      simp only [noNumber]
      exact ⟨_, rfl, .inr ⟨_, rfl⟩⟩

theorem faulty_of_readLine {line : String} {fault : AnswerFault}
    (refused : readLine line = .error fault) : Faulty line := by
  simp only [readLine] at refused
  split at refused
  · rename_i name colon type sign last areWords
    refine ⟨name, colon, type, sign, last, areWords, ?_⟩
    cases isVar : Variable.ofNameChars? name with
    | none => exact .inl rfl
    | some var =>
        right
        cases isNumber : Numeral.int64? (last.takeWhile (· != ';')) with
        | none => rfl
        | some value => simp [isVar, isNumber] at refused
  · cases refused

theorem not_faulty_of_readLine {line : String} {entry : Option (Variable × Int64)}
    (isRead : readLine line = .ok entry) : ¬Faulty line := by
  intro faulty
  rcases readLine_of_faulty faulty with ⟨fault, refused, _⟩
  rw [isRead] at refused
  cases refused

instance (line : String) : Decidable (Faulty line) :=
  match isRead : readLine line with
  | .error _ => .isTrue (faulty_of_readLine isRead)
  | .ok _ => .isFalse (not_faulty_of_readLine isRead)

/-- Lines between those of a model add nothing to it. -/
theorem readModel_of_printed {model : Model} (printed : Printed model lines) :
    readModel lines = .ok model := by
  induction printed with
  | nil => rfl
  | chatter other rest ih =>
      rw [readModel, readLine_of_length_ne other, ih]
      rfl
  | entry var value rest ih =>
      have reads : readLine (line (fun _ => value.toInt) var) = .ok (some (var, value)) := by
        rw [readLine_line (fitsWord_toInt value), Int64.ofInt_toInt]
      change readModel (line (fun _ => value.toInt) var :: _) = _
      rw [readModel, reads, ih]
      rfl

/-- The first faulty line spoils a model, whatever stands around it. -/
theorem readModel_of_faulty (faulty : ∃ line ∈ lines, Faulty line) :
    ∃ before line after fault, lines = before ++ line :: after ∧
      (∀ earlier ∈ before, ¬Faulty earlier) ∧ readLine line = .error fault ∧
      readModel lines = .error fault := by
  induction lines with
  | nil => simp at faulty
  | cons first rest ih =>
      cases isRead : readLine first with
      | error fault =>
          refine ⟨[], first, rest, fault, rfl, by simp, isRead, ?_⟩
          rw [readModel, isRead]
      | ok entry =>
          have sound := not_faulty_of_readLine isRead
          have later : ∃ line ∈ rest, Faulty line := by
            simpa [sound] using faulty
          rcases ih later with ⟨before, line, after, fault, rfl, clean, refused, spoiled⟩
          refine ⟨first :: before, line, after, fault, rfl, ?_, refused, ?_⟩
          · simpa [sound] using clean
          · rw [readModel, isRead, spoiled]
            rfl

theorem exists_readModel (sound : ∀ line ∈ lines, ¬Faulty line) :
    ∃ model, readModel lines = .ok model := by
  induction lines with
  | nil => exact ⟨[], rfl⟩
  | cons first rest ih =>
      rcases ih fun line isLater => sound line (List.mem_cons_of_mem _ isLater) with ⟨model, reads⟩
      cases isRead : readLine first with
      | error fault => exact absurd (faulty_of_readLine isRead) (sound first List.mem_cons_self)
      | ok entry =>
          refine ⟨entry.toList ++ model, ?_⟩
          rw [readModel, isRead, reads]
          rfl

theorem read_of_starts {first : String} (starts : "sat".toList <+: first.toList)
    (lines : List String) : read (first :: lines) = (readModel lines).map .sat := by
  rw [read, if_pos (List.isPrefixOf_iff_prefix.mpr starts)]

/-- What a solver prints is what is read. After a first line that starts with `sat`, the values of a
model are read in their order, whatever other lines stand between them. An answer is refused exactly
if some line of five words names no variable or gives no number, however many values it has besides,
and the fault shows the first such line. -/
theorem read_printed_model {first : String} (starts : "sat".toList <+: first.toList)
    (lines : List String) :
    (∀ model, Printed model lines → read (first :: lines) = .ok (.sat model)) ∧
      ((∃ line ∈ lines, Faulty line) → ∃ before line after fault,
        lines = before ++ line :: after ∧ (∀ earlier ∈ before, ¬Faulty earlier) ∧ Faulty line ∧
          Shows line fault ∧ read (first :: lines) = .error fault) ∧
      ((∀ line ∈ lines, ¬Faulty line) → ∃ model, read (first :: lines) = .ok (.sat model)) := by
  rw [read_of_starts starts]
  refine ⟨?_, ?_, ?_⟩
  · intro model printed
    rw [readModel_of_printed printed]
    rfl
  · intro faulty
    rcases readModel_of_faulty faulty with
      ⟨before, line, after, fault, isSplit, clean, refused, spoiled⟩
    have isFaulty := faulty_of_readLine refused
    rcases readLine_of_faulty isFaulty with ⟨shown, sameRefused, isShown⟩
    obtain rfl : fault = shown := Except.error.inj (refused.symm.trans sameRefused)
    refine ⟨before, line, after, fault, isSplit, clean, isFaulty, isShown, ?_⟩
    rw [spoiled]
    rfl
  · intro sound
    rcases exists_readModel sound with ⟨model, reads⟩
    refine ⟨model, ?_⟩
    rw [reads]
    rfl

/-- The lines of a model with the greatest symbol and the least word, and two other lines. -/
def talkative : List String :=
  ["x4294967295__0 : INT = -9223372036854775808;", "", "x3 : INT =7;", "x3 : INT = 7;"]

theorem talkative_printed_model :
    Printed [(.char 4294967295 0, -9223372036854775808), (.int 3, 7)] talkative ∧
      read ("satisfied:" :: talkative) =
        .ok (.sat [(.char 4294967295 0, -9223372036854775808), (.int 3, 7)]) ∧
      (∀ line ∈ talkative, ¬Faulty line) ∧
      Faulty "x3 : INT = 9223372036854775808;" ∧
      ∃ fault, Shows "x3 : INT = 9223372036854775808;" fault ∧
        read ("satisfied:" :: (talkative ++ ["x3 : INT = 9223372036854775808;"])) =
          .error fault := by
  have starts : "sat".toList <+: "satisfied:".toList := by decide
  have areLines : talkative =
      [(Variable.char 4294967295 0).name ++ " : INT = " ++
        Numeral.text (-9223372036854775808 : Int64).toInt ++ ";", "", "x3 : INT =7;",
        (Variable.int 3).name ++ " : INT = " ++ Numeral.text (7 : Int64).toInt ++ ";"] := by
    decide +kernel
  have printed : Printed [(.char 4294967295 0, -9223372036854775808), (.int 3, 7)] talkative := by
    rw [areLines]
    exact .entry _ _ (.chatter (by decide) (.chatter (by decide +kernel) (.entry _ _ .nil)))
  have sound : ∀ line ∈ talkative, ¬Faulty line := by decide +kernel
  have faulty : Faulty "x3 : INT = 9223372036854775808;" := by decide +kernel
  refine ⟨printed, (read_printed_model starts _).1 _ printed, sound, faulty, ?_⟩
  have someFaulty : ∃ line ∈ talkative ++ ["x3 : INT = 9223372036854775808;"], Faulty line :=
    ⟨_, by simp, faulty⟩
  rcases (read_printed_model starts _).2.1 someFaulty with
    ⟨before, line, after, fault, isSplit, _, isFaulty, isShown, refused⟩
  have isLine : line ∈ talkative ++ ["x3 : INT = 9223372036854775808;"] := by
    rw [isSplit]
    simp
  rcases List.mem_append.mp isLine with isSound | isLast
  · exact absurd isFaulty (sound line isSound)
  · rw [List.mem_singleton.mp isLast] at isShown
    exact ⟨fault, isShown, refused⟩

end Verdict

/-- The words of a valuation. -/
def Model.ofValuation (valuation : Variable → Int) (vars : List Variable) : Model :=
  vars.map fun var => (var, Int64.ofInt (valuation var))

namespace Verdict

variable {valuation : Variable → Int} {vars : List Variable}

theorem printed_answer (fit : ∀ var ∈ vars, FitsWord (valuation var)) :
    Printed (Model.ofValuation valuation vars) (vars.map (line valuation)) := by
  induction vars with
  | nil => exact .nil
  | cons var rest ih =>
      have first := Printed.entry var (Int64.ofInt (valuation var))
        (ih fun other isOther => fit other (List.mem_cons_of_mem _ isOther))
      rwa [toInt_ofInt_of_fitsWord (fit var List.mem_cons_self)] at first

/-- Values of 64 bits are read as they are. -/
theorem read_answer (fit : ∀ var ∈ vars, FitsWord (valuation var)) :
    read (answer valuation vars) = .ok (.sat (Model.ofValuation valuation vars)) := by
  rw [answer, read_of_starts (by decide), readModel_of_printed (printed_answer fit)]
  rfl

/-- Values of more than 64 bits spoil the answer, and one of them is reported. -/
theorem read_answer_of_wide (wide : ∃ var ∈ vars, ¬FitsWord (valuation var)) :
    ∃ var ∈ vars, ¬FitsWord (valuation var) ∧
      read (answer valuation vars) =
        .error (.badValue (Numeral.text (valuation var)) (line valuation var)) := by
  have faulty : ∃ shown ∈ vars.map (line valuation), Faulty shown := by
    rcases wide with ⟨var, isVar, isWide⟩
    exact ⟨_, List.mem_map_of_mem isVar, faulty_of_readLine (readLine_line_of_wide isWide)⟩
  rcases readModel_of_faulty faulty with ⟨before, shown, after, fault, isSplit, _, refused, spoiled⟩
  have isLine : shown ∈ vars.map (line valuation) := by
    rw [isSplit]
    simp
  rcases List.mem_map.mp isLine with ⟨var, isVar, rfl⟩
  have isWide : ¬FitsWord (valuation var) := by
    intro fits
    rw [readLine_line fits] at refused
    cases refused
  rw [readLine_line_of_wide isWide] at refused
  cases refused
  refine ⟨var, isVar, isWide, ?_⟩
  rw [answer, read_of_starts (by decide), spoiled]
  rfl

end Verdict

theorem Model.get?_onto_ofValuation (valuation : Variable → Int) (vars : List Variable)
    (base : Assignment) (var : Variable) :
    ((ofValuation valuation vars).onto base).get? var =
      if var ∈ vars then some (Int64.ofInt (valuation var)) else base.get? var := by
  induction vars generalizing base with
  | nil => rfl
  | cons first rest ih =>
      have step : (ofValuation valuation (first :: rest)).onto base =
          (ofValuation valuation rest).onto
            (base.insert first (Int64.ofInt (valuation first))) := rfl
      rw [step, ih, VarMap.get?_insert]
      by_cases isLater : var ∈ rest
      · simp [isLater]
      · by_cases isFirst : first = var
        · simp [isFirst]
        · simp [isLater, isFirst, Ne.symm isFirst]

namespace Query

variable {query : Query} {valuation : Variable → Int}

/-- A solved `int` input has 32 bits. -/
theorem MetBy.int_range (met : query.MetBy valuation) {symbol : UInt32}
    (isNarrow : symbol ∈ query.narrow) (isDeclared : .int symbol ∈ query.declared.keys) :
    -2 ^ 31 ≤ valuation (.int symbol) ∧ valuation (.int symbol) < 2 ^ 31 := by
  have isBounded : .int symbol ∈ query.boundedInts := by
    apply List.mem_filter.mpr
    exact ⟨isDeclared, List.contains_iff_mem.mpr isNarrow⟩
  have range := met.ints _ isBounded
  simp only [Numeral.int32Range] at range
  omega

/-- A solved character is printable. -/
theorem MetBy.char_range (met : query.MetBy valuation) (isCharacters : query.layer = .characters)
    {symbol index : UInt32} (isDeclared : .char symbol index ∈ query.declared.keys) :
    32 ≤ valuation (.char symbol index) ∧ valuation (.char symbol index) ≤ 126 := by
  apply met.chars
  rw [boundedChars, isCharacters]
  exact List.mem_filter.mpr ⟨isDeclared, rfl⟩

end Query

/-! ### The next run -/

namespace Recording

open InputRecord

variable {first second : Recording} {event : Event} {rest : List InputRecord}
  {valuation : Variable → Int} {vars : List Variable}

/-- The query that turns a recorded run aside at one of its conditions. -/
def query? (recording : Recording) (target : Nat) (layer : Layer) (assignment : Assignment)
    (excluded : List Model) : Option Query :=
  Query.build? recording.conditions target recording.lexicon
    (recording.records.filterMap InputRecord.narrow?) layer assignment
    (Problem.exclusion? excluded)

/-- A call for a number gets the value of its variable, if that is one of the given ones. -/
def Gets (valuation : Variable → Int) (vars : List Variable) (recording : Recording) : Event → Prop
  | .intInput => .int recording.int.1 ∈ vars →
      recording.int.2.1.toInt = valuation (.int recording.int.1)
  | .longInput => .int recording.long.1 ∈ vars →
      recording.long.2.1.toInt = valuation (.int recording.long.1)
  | _ => True

theorem InStep.gets {base : Assignment}
    (inStep : InStep ((Model.ofValuation valuation vars).onto base)
      ((first.newRecord? event).toList ++ rest) first second)
    (fit : ∀ var ∈ vars, FitsWord (valuation var))
    (narrow : ∀ symbol given, first.newRecord? event = some (.value symbol (.int given)) →
      .int symbol ∈ vars → -2 ^ 31 ≤ valuation (.int symbol) ∧ valuation (.int symbol) < 2 ^ 31) :
    Gets valuation vars second event := by
  have isSolved (isVar : .int first.nextVar ∈ vars) :
      ((Model.ofValuation valuation vars).onto base).int? first.nextVar =
        some (Int64.ofInt (valuation (.int first.nextVar))) := by
    rw [Assignment.int?, Model.get?_onto_ofValuation, if_pos isVar]
  have sameVar := inStep.nextVar
  cases event with
  | intInput =>
      intro isVar
      have sameSymbol : second.int.1 = first.nextVar := sameVar
      rw [sameSymbol] at isVar ⊢
      have isValue := toInt_ofInt_of_fitsWord (fit _ isVar)
      rcases narrow _ _ rfl isVar with ⟨low, high⟩
      rw [inStep.int_of_solved (isSolved isVar) (by rwa [isValue]) (by rwa [isValue]), isValue,
        Int32.toInt_ofInt_of_le low high]
  | longInput =>
      intro isVar
      have sameSymbol : second.long.1 = first.nextVar := sameVar
      rw [sameSymbol] at isVar ⊢
      rw [inStep.long_of_solved (isSolved isVar), toInt_ofInt_of_fitsWord (fit _ isVar)]
  | _ => trivial

/-- Let a valuation satisfy the query of a recorded run, and let an answer give the declared variables
their values, in any order. The values of `int` inputs have 32 bits, and in the character layer those
of characters are printable. The answer is refused if some value does not fit into 64 bits. Otherwise
it is read as it is meant, and a run on the lines that are written from it gets, at every call for a
number that was solved, exactly that number. -/
theorem satisfying_answers_read_back (source : List String) (expected expected' : List PathStep)
    (format : InputFormat) (maxLength maxLength' : Int64) (lexicon lexicon' : Lexicon)
    (events : List Event) (target : Nat) (layer : Layer) (assignment : Assignment)
    (excluded : List Model) :
    let first := start source expected format maxLength lexicon
    let recording := first.reportAll events
    target < recording.conditions.length →
    ∃ query, recording.query? target layer assignment excluded = some query ∧
    ∀ (valuation : Variable → Int) (vars : List Variable),
      Presentation.Satisfies valuation query.text →
      vars.Perm (Presentation.declared query.text) →
      let model := Model.ofValuation valuation vars
      let second := start (lines recording.records (model.onto assignment) format) expected' format
        maxLength' lexicon'
      (∀ symbol given, .value symbol (.int given) ∈ recording.records → .int symbol ∈ vars →
        -2 ^ 31 ≤ valuation (.int symbol) ∧ valuation (.int symbol) < 2 ^ 31) ∧
      (layer = .characters → ∀ symbol index, .char symbol index ∈ vars →
        32 ≤ valuation (.char symbol index) ∧ valuation (.char symbol index) ≤ 126) ∧
      ((∃ var ∈ vars, ¬FitsWord (valuation var)) →
        ∃ var ∈ vars, ¬FitsWord (valuation var) ∧
          Verdict.read (Verdict.answer valuation vars) =
            .error (.badValue (Numeral.text (valuation var)) (Verdict.line valuation var))) ∧
      ((∀ var ∈ vars, FitsWord (valuation var)) →
        Verdict.read (Verdict.answer valuation vars) = .ok (.sat model) ∧
        ∀ before event after, events = before ++ event :: after →
          (second.reportAll before).nextVar = (first.reportAll before).nextVar ∧
          Gets valuation vars (second.reportAll before) event) := by
  intro first recording inRange
  rcases Query.exists_build? inRange with ⟨query, built⟩
  refine ⟨query, built, ?_⟩
  intro valuation vars satisfied permuted model second
  rcases Query.fields_of_build? built with ⟨isLayer, isNarrow, isExtra⟩
  rcases Query.satisfies_and_declared isExtra valuation with ⟨means, declares⟩
  have met : query.MetBy valuation := (means.mp satisfied).1
  have isDeclared {var : Variable} (isVar : var ∈ vars) : var ∈ query.declared.keys :=
    declares ▸ permuted.mem_iff.mp isVar
  have narrow : ∀ symbol given, .value symbol (.int given) ∈ recording.records →
      .int symbol ∈ vars →
        -2 ^ 31 ≤ valuation (.int symbol) ∧ valuation (.int symbol) < 2 ^ 31 := by
    intro symbol given isRecord isVar
    apply met.int_range _ (isDeclared isVar)
    rw [isNarrow]
    exact List.mem_filterMap.mpr ⟨_, isRecord, rfl⟩
  refine ⟨narrow, ?_, Verdict.read_answer_of_wide, ?_⟩
  · rintro rfl symbol index isVar
    exact met.char_range isLayer (isDeclared isVar)
  · intro fit
    refine ⟨Verdict.read_answer fit, ?_⟩
    rintro before event after rfl
    -- The second run starts on the lines of all records, so it is in step before the first call.
    have areNew : recording.records = first.newRecords (before ++ event :: after) :=
      first.records_reportAll _
    have inStep : InStep (model.onto assignment) (first.newRecords (before ++ event :: after)) first
        second := by
      refine ⟨rfl, rfl, ?_⟩
      rw [← areNew]
      rfl
    have stillInStep := inStep.reportAll
    rw [newRecords] at stillInStep
    refine ⟨stillInStep.nextVar, stillInStep.gets fit ?_⟩
    intro symbol given isNew isVar
    apply narrow symbol given _ isVar
    rw [areNew]
    exact newRecord?_mem_newRecords isNew

/-- The calls of a program that asks for an `int` and a `long` and compares their sum. -/
def balance : List Event :=
  [.intInput, .longInput, .branch false (some (.linear (((Linear.ofVar (.int 1)).plus
    (.ofVar (.int 2))).plusConstant (-3000000000)) .gt)) 1]

/-- What the program records if both are zero. -/
def balanced : Recording :=
  (start ["0", "0"] [] {} 100 {}).reportAll balance

/-- Values under which the sum is greater. -/
def balanceValues : Variable → Int
  | .int 1 => -5
  | _ => 3000000006

/-- The next run of the program, before its first call. -/
def balancedAgain : Recording :=
  start (lines balanced.records
    ((Model.ofValuation balanceValues [.int 2, .int 1]).onto ∅) {}) [] {} 100 {}

theorem balanced_answer_read_back :
    ∃ query, balanced.query? 0 .integers ∅ [] = some query ∧
      Presentation.Satisfies balanceValues query.text ∧
      [.int 2, .int 1].Perm (Presentation.declared query.text) ∧
      Verdict.answer balanceValues [.int 2, .int 1] =
        ["sat", "x2 : INT = 3000000006;", "x1 : INT = -5;"] ∧
      Verdict.read ["sat", "x2 : INT = 3000000006;", "x1 : INT = -5;"] =
        .ok (.sat [(.int 2, 3000000006), (.int 1, -5)]) ∧
      balancedAgain.int.2.1.toInt = -5 ∧
      (balancedAgain.reportAll [.intInput]).long.2.1.toInt = 3000000006 := by
  rcases satisfying_answers_read_back ["0", "0"] [] [] {} 100 100 {} {} balance 0 .integers ∅ []
    (by decide +kernel) with ⟨query, built, readsBack⟩
  have asked : (balanced.query? 0 .integers ∅ []).all (fun query =>
      decide (Presentation.Satisfies balanceValues query.text ∧
        [.int 2, .int 1].Perm (Presentation.declared query.text))) = true := by
    decide +kernel
  have isAnswer : Verdict.answer balanceValues [.int 2, .int 1] =
      ["sat", "x2 : INT = 3000000006;", "x1 : INT = -5;"] := by
    decide +kernel
  rw [balanced, built, Option.all_some, decide_eq_true_iff] at asked
  rcases asked with ⟨satisfied, permuted⟩
  rcases readsBack balanceValues _ satisfied permuted with ⟨_, _, _, reads⟩
  rcases reads (by decide) with ⟨isRead, gets⟩
  rw [isAnswer] at isRead
  refine ⟨query, built, satisfied, permuted, isAnswer, isRead, ?_, ?_⟩
  · exact (gets [] .intInput _ rfl).2 (by decide)
  · exact (gets [.intInput] .longInput _ rfl).2 (by decide)

/-- What a program records that compares a `long` input with the greatest word. -/
def outgrown : Recording :=
  (start ["0"] [] {} 100 {}).reportAll
    [.longInput, .branch false
      (some (.linear ((Linear.ofVar (.int 1)).plusConstant (-9223372036854775807)) .gt)) 1]

/-- Nothing bounds a `long` input, so the values that satisfy a query may all be too great. -/
theorem outgrown_answers_refused :
    ∃ query, outgrown.query? 0 .integers ∅ [] = some query ∧
      query.text =
        "x1 : INT;\nCHECKSAT x1*(1)+(-9223372036854775807) > 0;\nCOUNTERMODEL;\n" ∧
      Presentation.declared query.text = [.int 1] ∧
      Presentation.Satisfies (fun _ => 9223372036854775808) query.text ∧
      Verdict.answer (fun _ => 9223372036854775808) [.int 1] =
        ["sat", "x1 : INT = 9223372036854775808;"] ∧
      Verdict.read ["sat", "x1 : INT = 9223372036854775808;"] =
        .error (.badValue "9223372036854775808" "x1 : INT = 9223372036854775808;") ∧
      ∀ valuation, Presentation.Satisfies valuation query.text →
        ∀ verdict, Verdict.read (Verdict.answer valuation [.int 1]) ≠ .ok verdict := by
  refine ⟨_, rfl, by decide +kernel, by decide +kernel, by decide +kernel, by decide +kernel,
    by decide +kernel, ?_⟩
  intro valuation satisfied verdict isRead
  have met := ((@Query.satisfies_and_declared _ [] rfl valuation).1.mp satisfied).1
  have isSum : (((Linear.ofVar (.int 1)).plusConstant (-9223372036854775807)).substitute ∅).valueAt
      valuation = -9223372036854775807 + (1 * valuation (.int 1) + 0) := rfl
  have greater : 0 < -9223372036854775807 + (1 * valuation (.int 1) + 0) :=
    isSum ▸ of_decide_eq_true met.goal
  have wide : ¬FitsWord (valuation (.int 1)) := by
    simp only [FitsWord]
    omega
  rcases Verdict.read_answer_of_wide ⟨_, List.mem_singleton.mpr rfl, wide⟩ with
    ⟨_, _, _, isRefused⟩
  rw [isRead] at isRefused
  cases isRefused

end Recording

end Concolic
