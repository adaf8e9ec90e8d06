import Mathlib
import Concolic.Proofs.Meaning

/-!
# Symbolic texts under growing assignments

Once the lengths of a text are bound, its cells are fixed, and a larger assignment only fills open
cells in. So whatever a test on texts says under an assignment, it says under every larger one, and
substitution into path conditions can be done in stages.

The character of a filled cell and its code are the same information. `Cell.valueAt` reads a cell as
an integer, which is how formulas about characters read it.
-/

namespace Concolic

namespace Cell

/-- Fills an open cell in if its variable is bound. -/
def refine (assignment : Assignment) : Cell → Cell
  | .known code => .known code
  | .unknown key => ofVar assignment key

/-- The code at a cell under a valuation. -/
def valueAt (valuation : Variable → Int) : Cell → Int
  | .known code => code.toInt
  | .unknown key => valuation key

theorem refine_ofVar {small large : Assignment} (extension : large.Extends small) (key : Variable) :
    (ofVar small key).refine large = ofVar large key := by
  cases bound : small.get? key with
  | none => simp [ofVar, bound, refine]
  | some code => simp [ofVar, bound, refine, extension key code bound]

end Cell

/-- The code of a character, as an integer. -/
def charCode (character : Char) : Int :=
  character.toNat

theorem charCode_injective : Function.Injective charCode := by
  intro first second same
  simp only [charCode, Nat.cast_inj] at same
  exact Char.toNat_inj.mp same

theorem charCode_lt (character : Char) : charCode character < 1114112 := by
  have valid : character.toNat.isValidChar := character.valid
  simp only [charCode, Nat.isValidChar] at valid ⊢
  omega

theorem toInt_codeOf (character : Char) : (codeOf character).toInt = charCode character := by
  have := charCode_lt character
  simp only [charCode] at this
  rw [codeOf, Int64.toInt_ofNat_of_lt (by omega), charCode]

/-- Every code below the surrogates is that of a character. -/
theorem exists_charCode_eq {code : Int} (low : 0 ≤ code) (high : code < 0xD800) :
    ∃ character, charCode character = code := by
  have valid : code.toNat.isValidChar := .inl (by omega)
  refine ⟨Char.ofNat code.toNat, ?_⟩
  rw [charCode, Char.toNat_ofNat, if_pos valid]
  omega

/-- A code stands for a character exactly if it is the code of that character. -/
theorem scalar?_eq_some_iff {code : Int64} {character : Char} :
    scalar? code = some character ↔ code.toInt = charCode character := by
  constructor
  · intro found
    simp only [scalar?] at found
    split at found
    · rename_i valid
      cases found
      rw [charCode, Char.toNat_ofNat, if_pos valid.2]
      omega
    · simp at found
  · intro same
    have valid : character.toNat.isValidChar := character.valid
    have natural : code.toInt.toNat = character.toNat := by
      simp only [charCode] at same
      omega
    have nonneg : 0 ≤ code.toInt := by
      simp only [charCode] at same
      omega
    rw [scalar?, natural, if_pos ⟨nonneg, valid⟩, Char.ofNat_toNat]

namespace SymText

theorem cellChar?_eq_some_iff {cell : Cell} {character : Char} :
    cellChar? cell = some character ↔
      ∃ code, cell = .known code ∧ code.toInt = charCode character := by
  cases cell with
  | known code => simp [cellChar?, scalar?_eq_some_iff]
  | unknown key => simp [cellChar?]

end SymText

namespace Segment

variable {small large : Assignment} {lexicon : Lexicon} {cells : List Cell}

theorem cells?_of_extends {segment : Segment} (extension : large.Extends small)
    (known : segment.cells? small lexicon = some cells) :
    segment.cells? large lexicon = some (cells.map (Cell.refine large)) := by
  cases segment with
  | input symbol length =>
      obtain ⟨value, bound, rfl⟩ := Option.map_eq_some_iff.mp known
      simp only [cells?, Assignment.int?, extension _ _ bound, Option.map_some, List.map_map]
      congr 1
      apply List.map_congr_left
      intro index _
      exact (Cell.refine_ofVar extension _).symm
  | literal id =>
      cases known
      simp [cells?, Function.comp_def, Cell.refine]

end Segment

namespace SymText

variable {small large : Assignment} {lexicon : Lexicon} {cells : List Cell}
  {characters : List Char}

theorem cells?_nil (assignment : Assignment) (lexicon : Lexicon) :
    (SymText.mk []).cells? assignment lexicon = some [] :=
  rfl

theorem cells?_cons (segment : Segment) (rest : List Segment) (assignment : Assignment)
    (lexicon : Lexicon) :
    (SymText.mk (segment :: rest)).cells? assignment lexicon =
      (segment.cells? assignment lexicon).bind fun first =>
        ((SymText.mk rest).cells? assignment lexicon).map fun others => first ++ others := by
  simp only [cells?, List.mapM_cons]
  cases segment.cells? assignment lexicon with
  | none => rfl
  | some first =>
      cases rest.mapM (Segment.cells? assignment lexicon) with
      | none => rfl
      | some others => simp

theorem cells?_cons_eq_some {segment : Segment} {rest : List Segment} {assignment : Assignment} :
    (SymText.mk (segment :: rest)).cells? assignment lexicon = some cells ↔
      ∃ first others, segment.cells? assignment lexicon = some first ∧
        (SymText.mk rest).cells? assignment lexicon = some others ∧ cells = first ++ others := by
  rw [cells?_cons]
  cases segment.cells? assignment lexicon with
  | none => simp
  | some first =>
      cases (SymText.mk rest).cells? assignment lexicon with
      | none => simp
      | some others => simp [eq_comm]

/-- A larger assignment fills open cells in and changes nothing else. -/
theorem cells?_of_extends {text : SymText} (extension : large.Extends small)
    (known : text.cells? small lexicon = some cells) :
    text.cells? large lexicon = some (cells.map (Cell.refine large)) := by
  obtain ⟨segments⟩ := text
  induction segments generalizing cells with
  | nil =>
      cases known
      rfl
  | cons segment rest ih =>
      obtain ⟨first, others, firstKnown, othersKnown, rfl⟩ := cells?_cons_eq_some.mp known
      rw [List.map_append]
      exact cells?_cons_eq_some.mpr
        ⟨_, _, Segment.cells?_of_extends extension firstKnown, ih othersKnown, rfl⟩

theorem concrete?_eq_some_iff {text : SymText} {assignment : Assignment} :
    text.concrete? assignment lexicon = some characters ↔
      ∃ cells, text.cells? assignment lexicon = some cells ∧
        cells.mapM cellChar? = some characters := by
  simp [concrete?, Option.bind_eq_some_iff]

/-- Filling cells in is without effect on cells that hold characters. -/
theorem mapM_cellChar?_refine (assignment : Assignment)
    (filled : cells.mapM cellChar? = some characters) :
    (cells.map (Cell.refine assignment)).mapM cellChar? = some characters := by
  rw [← filled, List.mapM_map]
  induction cells generalizing characters with
  | nil => rfl
  | cons cell rest ih =>
      simp only [List.mapM_cons, Option.bind_eq_bind, Option.bind_eq_some_iff, Option.pure_def,
        Option.some.injEq] at filled
      obtain ⟨character, here, others, there, rfl⟩ := filled
      obtain ⟨code, rfl, _⟩ := cellChar?_eq_some_iff.mp here
      simp only [List.mapM_cons, ih there]
      rfl

/-- A text that is concrete stays as it is under larger assignments. -/
theorem concrete?_of_extends {text : SymText} (extension : large.Extends small)
    (known : text.concrete? small lexicon = some characters) :
    text.concrete? large lexicon = some characters := by
  obtain ⟨cells, cellsKnown, filled⟩ := concrete?_eq_some_iff.mp known
  exact concrete?_eq_some_iff.mpr
    ⟨_, cells?_of_extends extension cellsKnown, mapM_cellChar?_refine large filled⟩

/-- The cells of a text have the codes of its characters. -/
theorem map_valueAt_eq_map_charCode {text : SymText} (extension : large.Extends small)
    (known : text.cells? small lexicon = some cells)
    (concrete : text.concrete? large lexicon = some characters) :
    cells.map (Cell.valueAt large.valuation) = characters.map charCode := by
  obtain ⟨filledCells, filledKnown, filled⟩ := concrete?_eq_some_iff.mp concrete
  rw [cells?_of_extends extension known, Option.some.injEq] at filledKnown
  subst filledKnown
  clear known concrete
  rw [List.mapM_map] at filled
  induction cells generalizing characters with
  | nil =>
      cases filled
      rfl
  | cons cell rest ih =>
      simp only [List.mapM_cons, Option.bind_eq_bind, Option.bind_eq_some_iff, Option.pure_def,
        Option.some.injEq] at filled
      obtain ⟨character, here, others, there, rfl⟩ := filled
      obtain ⟨code, isKnown, sameCode⟩ := cellChar?_eq_some_iff.mp here
      have sameValue : cell.valueAt large.valuation = charCode character := by
        cases cell with
        | known own =>
            cases isKnown
            exact sameCode
        | unknown key =>
            simp only [Cell.refine, Cell.ofVar] at isKnown
            split at isKnown
            · rename_i own bound
              cases isKnown
              exact (Assignment.valuation_of_get? bound).trans sameCode
            · simp at isKnown
      rw [List.map_cons, List.map_cons, sameValue, ih there]

/-- A text has cells once the lengths of its inputs are bound. -/
theorem exists_cells? {text : SymText} {assignment : Assignment}
    (bound : ∀ symbol length, .input symbol length ∈ text.segments →
      ∃ value, assignment.int? length = some value) :
    ∃ cells, text.cells? assignment lexicon = some cells := by
  obtain ⟨segments⟩ := text
  induction segments with
  | nil => exact ⟨[], rfl⟩
  | cons segment rest ih =>
      obtain ⟨others, othersKnown⟩ := ih fun symbol length member =>
        bound symbol length (List.mem_cons_of_mem _ member)
      have first : ∃ cells, segment.cells? assignment lexicon = some cells := by
        cases segment with
        | input symbol length =>
            obtain ⟨value, isValue⟩ := bound symbol length List.mem_cons_self
            exact ⟨_, by rw [Segment.cells?, isValue]; rfl⟩
        | literal id => exact ⟨_, rfl⟩
      obtain ⟨cells, cellsKnown⟩ := first
      exact ⟨_, cells?_cons_eq_some.mpr ⟨cells, others, cellsKnown, othersKnown, rfl⟩⟩

theorem exists_cells?_of_binds {text : SymText} {assignment : Assignment}
    (binds : assignment.Binds text.lengthVars) :
    ∃ cells, text.cells? assignment lexicon = some cells := by
  apply exists_cells?
  intro symbol length isInput
  exact binds (.int length) (List.mem_filterMap.mpr ⟨_, isInput, rfl⟩)

/-- A cell is a character of a literal text, or it stands at a position of an input. -/
theorem mem_cells? {text : SymText} {assignment : Assignment}
    (known : text.cells? assignment lexicon = some cells) {cell : Cell} (member : cell ∈ cells) :
    (∃ character, cell = .known (codeOf character)) ∨
      ∃ symbol length value index, .input symbol length ∈ text.segments ∧
        assignment.int? length = some value ∧ index < cellCount value ∧
        cell = Cell.ofVar assignment (.char symbol (.ofNat index)) := by
  obtain ⟨segments⟩ := text
  induction segments generalizing cells with
  | nil =>
      cases known
      simp at member
  | cons segment rest ih =>
      obtain ⟨first, others, firstKnown, othersKnown, rfl⟩ := cells?_cons_eq_some.mp known
      rcases List.mem_append.mp member with inFirst | inOthers
      · cases segment with
        | input symbol length =>
            obtain ⟨value, bound, rfl⟩ := Option.map_eq_some_iff.mp firstKnown
            obtain ⟨index, inRange, rfl⟩ := List.mem_map.mp inFirst
            exact .inr ⟨symbol, length, value, index, List.mem_cons_self, bound,
              List.mem_range.mp inRange, rfl⟩
        | literal id =>
            cases firstKnown
            obtain ⟨character, _, rfl⟩ := List.mem_map.mp inFirst
            exact .inl ⟨character, rfl⟩
      · rcases ih inOthers othersKnown with
          isLiteral | ⟨symbol, length, value, index, isInput, bound, inRange, same⟩
        · exact .inl isLiteral
        · exact .inr ⟨symbol, length, value, index, List.mem_cons_of_mem _ isInput, bound, inRange,
            same⟩

/-- An unknown cell stands at a position of an input whose character is not bound. -/
theorem unknown_mem_cells? {text : SymText} {assignment : Assignment}
    (known : text.cells? assignment lexicon = some cells) {key : Variable}
    (member : .unknown key ∈ cells) :
    ∃ symbol length value index, .input symbol length ∈ text.segments ∧
      assignment.int? length = some value ∧ index < cellCount value ∧
      key = .char symbol (.ofNat index) ∧ assignment.get? key = none := by
  rcases mem_cells? known member with
    ⟨character, impossible⟩ | ⟨symbol, length, value, index, isInput, bound, inRange, same⟩
  · cases impossible
  · rw [Cell.ofVar] at same
    split at same
    · cases same
    · rename_i isNone
      cases same
      exact ⟨symbol, length, value, index, isInput, bound, inRange, rfl, isNone⟩

/-- A text is concrete once the lengths and the characters of its inputs are bound. -/
theorem exists_concrete? {text : SymText} {assignment : Assignment}
    (bound : ∀ symbol length, .input symbol length ∈ text.segments →
      ∃ value, assignment.int? length = some value ∧
        ∀ index < cellCount value, ∃ character,
          assignment.char? symbol (.ofNat index) = some (codeOf character)) :
    ∃ characters, text.concrete? assignment lexicon = some characters := by
  obtain ⟨cells, known⟩ : ∃ cells, text.cells? assignment lexicon = some cells :=
    exists_cells? fun symbol length member =>
      let ⟨value, isValue, _⟩ := bound symbol length member
      ⟨value, isValue⟩
  have allFilled : ∀ cell ∈ cells, ∃ character, cellChar? cell = some character := by
    intro cell member
    rcases mem_cells? known member with
      ⟨character, rfl⟩ | ⟨symbol, length, value, index, isInput, isValue, inRange, rfl⟩
    · exact ⟨character, cellChar?_eq_some_iff.mpr ⟨_, rfl, toInt_codeOf character⟩⟩
    · obtain ⟨own, isOwn, filled⟩ := bound symbol length isInput
      rw [isValue, Option.some.injEq] at isOwn
      subst isOwn
      obtain ⟨character, isCharacter⟩ := filled index inRange
      rw [Assignment.char?] at isCharacter
      refine ⟨character, cellChar?_eq_some_iff.mpr ⟨codeOf character, ?_, toInt_codeOf character⟩⟩
      rw [Cell.ofVar, isCharacter]
  have filled : ∃ characters, cells.mapM cellChar? = some characters := by
    clear known
    induction cells with
    | nil => exact ⟨[], rfl⟩
    | cons cell rest ih =>
        obtain ⟨character, isCharacter⟩ := allFilled cell List.mem_cons_self
        obtain ⟨others, areOthers⟩ := ih fun cell member =>
          allFilled cell (List.mem_cons_of_mem _ member)
        exact ⟨character :: others, by simp [isCharacter, areOthers]⟩
  obtain ⟨characters, areCharacters⟩ := filled
  exact ⟨characters, concrete?_eq_some_iff.mpr ⟨cells, known, areCharacters⟩⟩

/-- Only the low 32 bits of a length count, so a cell lies below the length in any case. -/
theorem toNat_lt_of_lt_cellCount {value : Int64} {index : Nat} (inRange : index < cellCount value) :
    ((UInt32.ofNat index).toNat : Int) < value.toInt := by
  rw [cellCount] at inRange
  rw [UInt32.toNat_ofNat']
  omega

/-- Every character variable of the text's inputs, up to the length that the first assignment gives,
has the code of a character under the second one. -/
def Lettered (text : SymText) (small large : Assignment) : Prop :=
  ∀ symbol length value, .input symbol length ∈ text.segments →
    small.int? length = some value → ∀ index : UInt32, (index.toNat : Int) < value.toInt →
      ∃ character, large.char? symbol index = some (codeOf character)

/-- A text whose lengths are bound is concrete once its characters are filled in. -/
theorem Lettered.exists_concrete? {text : SymText} {small large : Assignment}
    (lettered : text.Lettered small large) (extension : large.Extends small)
    (binds : small.Binds text.lengthVars) :
    ∃ characters, text.concrete? large lexicon = some characters := by
  apply SymText.exists_concrete?
  intro symbol length isInput
  obtain ⟨value, isValue⟩ := binds (.int length) (List.mem_filterMap.mpr ⟨_, isInput, rfl⟩)
  refine ⟨value, extension _ _ isValue, fun index inRange => ?_⟩
  exact lettered symbol length value isInput isValue _ (toNat_lt_of_lt_cellCount inRange)

end SymText

namespace TextTest

/-- A decided test stays decided in the same way. -/
theorem outcome?_of_extends {test : TextTest} {small large : Assignment} {lexicon : Lexicon}
    {actual : Bool} (extension : large.Extends small)
    (decided : test.outcome? small lexicon = some actual) :
    test.outcome? large lexicon = some actual := by
  simp only [outcome?, Option.bind_eq_bind, Option.bind_eq_some_iff] at decided ⊢
  obtain ⟨subject, subjectKnown, pattern, patternKnown, outcome⟩ := decided
  exact ⟨subject, SymText.concrete?_of_extends extension subjectKnown, pattern,
    SymText.concrete?_of_extends extension patternKnown, outcome⟩

/-- A test on concrete texts has an outcome, unless it is a match. -/
theorem exists_outcome? {test : TextTest} {assignment : Assignment} {lexicon : Lexicon}
    {subject pattern : List Char} (notRegex : test.kind ≠ .regex)
    (subjectKnown : test.subject.concrete? assignment lexicon = some subject)
    (patternKnown : test.pattern.toText.concrete? assignment lexicon = some pattern) :
    ∃ actual, test.outcome? assignment lexicon = some actual := by
  simp only [outcome?, subjectKnown, patternKnown, Option.bind_eq_bind, Option.bind_some]
  cases kind : test.kind with
  | regex => exact absurd kind notRegex
  | equals | startsWith offset | endsWith | contains => exact ⟨_, rfl⟩

end TextTest

/-! ### Growing lexicons -/

namespace Lexicon

/-- A text keeps its number while the lexicon grows. -/
theorem text_of_prefix {earlier later : Lexicon} (grown : earlier.texts <+: later.texts)
    {id : LiteralId} (isKnown : id.val.toNat < earlier.texts.length) :
    later.text id = earlier.text id := by
  obtain ⟨added, isAdded⟩ := grown
  rw [text, text, resolve?, resolve?, ← isAdded, List.getElem?_append_left isKnown]

theorem texts_prefix_intern (lexicon : Lexicon) (text : String) :
    lexicon.texts <+: (lexicon.intern text).2.texts := by
  rw [intern]
  split
  · exact List.prefix_refl _
  · exact List.prefix_append _ _

end Lexicon

section Lexicons

variable {assignment : Assignment} {first second : Lexicon}

theorem SymText.cells?_congr {text : SymText}
    (same : ∀ id ∈ text.literals, first.text id = second.text id) :
    text.cells? assignment first = text.cells? assignment second := by
  obtain ⟨segments⟩ := text
  induction segments with
  | nil => rfl
  | cons segment rest ih =>
      have sameRest : ∀ id ∈ (SymText.mk rest).literals, first.text id = second.text id :=
        fun id isLiteral => same id (List.mem_append_right _ isLiteral)
      have sameFirst : segment.cells? assignment first = segment.cells? assignment second := by
        cases segment with
        | input symbol length => rfl
        | literal id =>
            rw [Segment.cells?, Segment.cells?,
              same id (List.mem_append_left _ List.mem_cons_self)]
      rw [cells?_cons, cells?_cons, ih sameRest, sameFirst]

theorem TextTest.outcome?_congr {test : TextTest}
    (same : ∀ id ∈ test.literals, first.text id = second.text id) :
    test.outcome? assignment first = test.outcome? assignment second := by
  rw [outcome?, outcome?, SymText.concrete?, SymText.concrete?, SymText.concrete?,
    SymText.concrete?,
    SymText.cells?_congr fun id isLiteral => same id (List.mem_append_left _ isLiteral),
    SymText.cells?_congr fun id isLiteral => same id (List.mem_append_right _ isLiteral)]

/-- Substitution depends on the literal texts that occur. -/
theorem PathCondition.substitute_congr {condition : PathCondition}
    (same : ∀ id ∈ condition.literals, first.text id = second.text id) :
    condition.substitute assignment first = condition.substitute assignment second :=
  Condition.resolve_congr fun _ isTest => TextTest.outcome?_congr fun id isLiteral =>
    same id (List.mem_flatMap.mpr ⟨_, isTest, isLiteral⟩)

end Lexicons

namespace PathCondition

/-- Substituting in two stages is the same as substituting at once. -/
theorem substitute_substitute (condition : PathCondition) {small large : Assignment}
    (extension : large.Extends small) (lexicon : Lexicon) :
    substitute (condition.substitute small lexicon) large lexicon =
      condition.substitute large lexicon :=
  Condition.resolve_resolve extension
    (fun _ _ decided => TextTest.outcome?_of_extends extension decided) condition

theorem substitute_negate (condition : PathCondition) (assignment : Assignment)
    (lexicon : Lexicon) :
    substitute condition.negate assignment lexicon =
      (condition.substitute assignment lexicon).negate :=
  Condition.resolve_negate condition

/-- Substitution can be cut into stages. Whatever an earlier stage replaced, folded away or dropped,
the condition that a later one leaves is the same, and doing the same stage twice changes
nothing. -/
theorem substitute_stages (condition : PathCondition) (lexicon : Lexicon)
    {small large : Assignment} (extension : large.Extends small) :
    substitute (condition.substitute small lexicon) large lexicon =
        condition.substitute large lexicon ∧
      ∀ assignment, substitute (condition.substitute assignment lexicon) assignment lexicon =
        condition.substitute assignment lexicon :=
  ⟨condition.substitute_substitute extension lexicon,
    fun assignment => condition.substitute_substitute (.refl assignment) lexicon⟩

/-- A condition that every stage of substitution leaves in another shape. -/
def stagedCondition : PathCondition :=
  .allOf [.anyOf [.linear (.ofVar (.int 1)) .lt, .anyOf []],
    .test true { kind := .startsWith 0, subject := .input 2 3, pattern := .literal ⟨0⟩ },
    .compare (.mul (.var (.int 1)) (.var (.int 4))) (.const 0) .gt]

theorem stagedCondition_stages :
    stagedCondition.substitute (.ofList [(.int 1, 5)]) {} =
        .allOf [.anyOf [],
          .test true { kind := .startsWith 0, subject := .input 2 3, pattern := .literal ⟨0⟩ },
          .compare (.mul (.const 5) (.var (.int 4))) (.const 0) .gt] ∧
      substitute (stagedCondition.substitute (.ofList [(.int 1, 5)]) {})
          (.ofList [(.int 1, 5), (.int 3, 0), (.int 4, -1)]) {} =
        stagedCondition.substitute (.ofList [(.int 1, 5), (.int 3, 0), (.int 4, -1)]) {} ∧
      stagedCondition.substitute (.ofList [(.int 1, 5), (.int 3, 0), (.int 4, -1)]) {} =
        .falsity := by
  have extension : Assignment.Extends (.ofList [(.int 1, 5), (.int 3, 0), (.int 4, -1)])
      (.ofList [(.int 1, 5)]) := by
    intro key value bound
    obtain ⟨rfl, rfl⟩ : key = .int 1 ∧ value = 5 := by
      simpa using VarMap.mem_of_get?_ofList bound
    decide +kernel
  exact ⟨by decide +kernel, (substitute_stages stagedCondition {} extension).1, by decide +kernel⟩

/-- Negation is its own inverse, and it does not matter whether a condition is negated before or
after substitution. -/
theorem negate_involutive_and_substitute_comm (condition : PathCondition) :
    condition.negate.negate = condition ∧
      ∀ assignment lexicon, substitute condition.negate assignment lexicon =
        (condition.substitute assignment lexicon).negate :=
  ⟨condition.negate_negate, condition.substitute_negate⟩

end PathCondition

end Concolic
