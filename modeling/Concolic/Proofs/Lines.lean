import Mathlib
import Concolic.Proofs.Files
import Concolic.Proofs.Stream
import Concolic.Settings

/-!
# Which input lines survive the input file

An input file holds one line for each record, with a newline after every line. Reading it cuts it
at the newlines and takes a carriage return before a newline for a part of the line's end. So lines
are read as they were written exactly if there is one, and each of them holds no newline and does
not end with a carriage return (`Text.lines_unlines_iff`).

Numbers are such lines, and so is a string of solved characters and fillers. What is kept of a line
that was read holds no newline either, but it may hold a carriage return: harmless inside the line,
it is lost once a solved length makes it the last character. Settings do not keep line ends out of
the markers of scopes, and a run without records leaves one empty line where none was written.
-/

namespace Concolic

namespace Text

/-- A text that can stand in a file as one line. -/
def IsLine (text : String) : Prop :=
  '\n' ∉ text.toList ∧ text.toList.getLast? ≠ some '\r'

instance (text : String) : Decidable (IsLine text) :=
  inferInstanceAs (Decidable (_ ∧ _))

theorem isLine_of_forall {text : String}
    (visible : ∀ character ∈ text.toList, 32 ≤ character.toNat) : IsLine text := by
  constructor
  · intro member
    exact absurd (visible _ member) (by decide)
  · intro isLast
    exact absurd (visible _ (List.mem_of_getLast? isLast)) (by decide)

theorem not_separates_of_mem_splitWhere {separates : Char → Bool} {text piece : List Char}
    (isPiece : piece ∈ splitWhere separates text) :
    ∀ character ∈ piece, separates character = false := by
  induction text generalizing piece with
  | nil =>
      rw [splitWhere, List.mem_singleton] at isPiece
      simp [isPiece]
  | cons first rest ih =>
      rw [splitWhere] at isPiece
      split at isPiece
      · rcases List.mem_cons.mp isPiece with rfl | isLater
        · simp
        · exact ih isLater
      · rename_i isSolid
        rcases List.exists_cons_of_ne_nil (splitWhere_ne_nil separates rest) with
          ⟨head, pieces, isSplit⟩
        rw [isSplit] at isPiece ih
        rcases List.mem_cons.mp isPiece with rfl | isLater
        · intro character member
          rcases List.mem_cons.mp member with rfl | inHead
          · simpa using isSolid
          · exact ih List.mem_cons_self character inHead
        · exact ih (List.mem_cons_of_mem _ isLater)

theorem dropReturn_eq_self_iff {line : List Char} :
    dropReturn line = line ↔ line.getLast? ≠ some '\r' := by
  rw [dropReturn]
  split
  · rename_i endsSo
    have nonempty : line ≠ [] := by
      rintro rfl
      cases endsSo
    have shorter : line.dropLast ≠ line := by
      intro same
      have lengths := congrArg List.length same
      rw [List.length_dropLast] at lengths
      have := List.length_pos_iff.mpr nonempty
      omega
    simp [endsSo, shorter]
  · rename_i endsElse
    simpa using endsElse

theorem mem_closeLines {pieces : List (List Char)} {line : List Char}
    (isLine : line ∈ closeLines pieces) :
    ∃ piece ∈ pieces, ∀ character ∈ line, character ∈ piece := by
  fun_induction closeLines pieces with
  | case1 => simp at isLine
  | case2 unterminated isEmpty => simp at isLine
  | case3 unterminated nonempty =>
      rw [List.mem_singleton.mp isLine]
      exact ⟨unterminated, List.mem_singleton.mpr rfl, fun _ member => member⟩
  | case4 terminated rest notLast ih =>
      rcases List.mem_cons.mp isLine with rfl | isLater
      · refine ⟨terminated, List.mem_cons_self, ?_⟩
        intro character member
        rw [dropReturn] at member
        split at member
        · exact List.mem_of_mem_dropLast member
        · exact member
      · rcases ih isLater with ⟨piece, isPiece, within⟩
        exact ⟨piece, List.mem_cons_of_mem _ isPiece, within⟩

/-- A line that was read holds no newline. -/
theorem newline_notMem_of_mem_lines {text line : String} (isLine : line ∈ lines text) :
    '\n' ∉ line.toList := by
  rcases List.mem_map.mp isLine with ⟨characters, isClosed, rfl⟩
  rcases mem_closeLines isClosed with ⟨piece, isPiece, within⟩
  rw [String.toList_ofList]
  intro member
  have solid := not_separates_of_mem_splitWhere isPiece _ (within _ member)
  simp at solid

theorem toList_unlines {lines : List String} (nonempty : lines ≠ []) :
    (unlines lines).toList = lines.flatMap fun line => line.toList ++ ['\n'] := by
  rw [unlines]
  induction lines with
  | nil => exact absurd rfl nonempty
  | cons first rest ih =>
      cases rest with
      | nil => simp
      | cons second others =>
          have later := ih (List.cons_ne_nil _ _)
          rw [String.toList_append] at later
          rw [String.intercalate_cons_cons, String.toList_append, String.toList_append,
            String.toList_append, List.append_assoc, later]
          simp

theorem closeLines_append_nil (pieces : List (List Char)) :
    closeLines (pieces ++ [[]]) = pieces.map dropReturn := by
  induction pieces with
  | nil => rfl
  | cons piece rest ih =>
      rw [List.cons_append, closeLines, ih]
      · rfl
      · simp

/-- Lines without newlines are read as they were written, but for a carriage return at the end. -/
theorem lines_unlines {written : List String} (nonempty : written ≠ [])
    (clean : ∀ line ∈ written, '\n' ∉ line.toList) :
    lines (unlines written) = written.map fun line => String.ofList (dropReturn line.toList) := by
  have pieces : splitWhere (· == '\n') (written.flatMap fun line => line.toList ++ ['\n']) =
      written.map String.toList ++ [[]] := by
    clear nonempty
    induction written with
    | nil => rfl
    | cons first rest ih =>
        have solid := clean first List.mem_cons_self
        rw [List.flatMap_cons, List.append_assoc, List.singleton_append,
          splitWhere_append (by decide), splitWhere_of_notMem solid,
          ih fun line isLater => clean line (List.mem_cons_of_mem _ isLater)]
        rfl
  rw [lines, toList_unlines nonempty, pieces, closeLines_append_nil, List.map_map, List.map_map]
  rfl

/-- Lines are read as they were written exactly if there is one and none holds a line's end. -/
theorem lines_unlines_iff {written : List String} :
    lines (unlines written) = written ↔ written ≠ [] ∧ ∀ line ∈ written, IsLine line := by
  constructor
  · intro same
    have nonempty : written ≠ [] := by
      rintro rfl
      exact absurd same (by decide)
    have clean : ∀ line ∈ written, '\n' ∉ line.toList := by
      intro line isWritten
      rw [← same] at isWritten
      exact newline_notMem_of_mem_lines isWritten
    refine ⟨nonempty, ?_⟩
    intro line isWritten
    refine ⟨clean line isWritten, ?_⟩
    have kept : ∀ line ∈ written, String.ofList (dropReturn line.toList) = id line := by
      apply List.map_inj_left.mp
      rw [List.map_id, ← lines_unlines nonempty clean, same]
    apply dropReturn_eq_self_iff.mp
    rw [← String.toList_ofList (l := dropReturn line.toList), kept line isWritten, id]
  · rintro ⟨nonempty, areLines⟩
    rw [lines_unlines nonempty fun line isWritten => (areLines line isWritten).1]
    refine (List.map_congr_left ?_).trans (List.map_id written)
    intro line isWritten
    rw [dropReturn_eq_self_iff.mpr (areLines line isWritten).2, String.ofList_toList, id]

end Text

/-! ### Numbers -/

theorem Numeral.isLine_text (value : Int) : Text.IsLine (text value) := by
  apply Text.isLine_of_forall
  intro character member
  rw [text, String.toList_ofList] at member
  rcases mem_ofInt member with rfl | isDigit
  · decide
  · have := toNat_of_isDigit isDigit
    omega

namespace Decimal

theorem mem_plain {keepsPoint : Bool} {digits : List Char} {place : Int} {character : Char}
    (member : character ∈ plain keepsPoint digits place) :
    character ∈ digits ∨ character = '0' ∨ character = '.' := by
  simp only [plain] at member
  split at member
  · split at member <;> simp at member <;> tauto
  · split at member
    · simp only [List.mem_append, List.mem_cons] at member
      rcases member with inTake | isPoint | inDrop
      · exact .inl (List.mem_of_mem_take inTake)
      · exact .inr (.inr isPoint)
      · exact .inl (List.mem_of_mem_drop inDrop)
    · simp at member
      tauto

/-- A float is written in digits with a sign and a point, or as a word. -/
theorem isLine_text (value : Float) : Text.IsLine (floatLayout.text value) := by
  have signed (negative : Bool) {digits : List Char}
      (visible : ∀ character ∈ digits, 32 ≤ character.toNat) :
      Text.IsLine (String.ofList (if negative then '-' :: digits else digits)) := by
    apply Text.isLine_of_forall
    intro character member
    rw [String.toList_ofList] at member
    split at member
    · rcases List.mem_cons.mp member with rfl | isDigit
      · decide
      · exact visible character isDigit
    · exact visible character member
  simp only [Layout.text]
  split
  · decide
  · apply signed
    simp [floatLayout]
  · apply signed
    simp [floatLayout]
  · apply signed
    intro character member
    rcases mem_plain member with inDigits | rfl | rfl
    · have := Numeral.toNat_of_isDigit (Numeral.isDigit_of_mem_digits inDigits)
      omega
    · decide
    · decide

end Decimal

/-! ### Strings -/

/-- The solved characters are those that a query allows. -/
def Assignment.Printable (solution : Assignment) : Prop :=
  ∀ symbol index code, solution.char? symbol index = some code →
    Query.characterRange.1 ≤ code.toInt ∧ code.toInt ≤ Query.characterRange.2

namespace InputValue

variable {solution : Assignment} {format : InputFormat} {symbol length : UInt32}
  {previous : List Char} {index : Nat}

/-- The string keeps a carriage return of the previous one at its end. -/
def KeepsReturn (solution : Assignment) (symbol length : UInt32) (previous : List Char) : Prop :=
  ∃ last, solvedLength solution length previous = last + 1 ∧ previous[last]? = some '\r' ∧
    solution.char? symbol (.ofNat last) = none

theorem solvedChar_of_solved (printable : solution.Printable) {code : Int64}
    (isSolved : solution.char? symbol (.ofNat index) = some code) (format : InputFormat)
    (previous : List Char) : 32 ≤ (solvedChar solution format symbol previous index).toNat := by
  rcases printable _ _ _ isSolved with ⟨low, high⟩
  simp only [Query.characterRange] at low high
  have isCharacter : ∃ character, charCode character = code.toInt :=
    exists_charCode_eq (by omega) (by omega)
  rcases isCharacter with ⟨character, isCode⟩
  have isChar : solvedChar solution format symbol previous index = character := by
    simp [solvedChar, isSolved, scalar?_eq_some_iff.mpr isCode.symm]
  rw [isChar]
  simp only [charCode] at isCode
  omega

theorem solvedChar_of_unsolved (isUnsolved : solution.char? symbol (.ofNat index) = none) :
    solvedChar solution format symbol previous index = previous[index]?.getD format.filler := by
  simp [solvedChar, isUnsolved]

/-- A control character in a string is one that was kept. -/
theorem solvedChar_eq_iff (printable : solution.Printable) (visible : 32 ≤ format.filler.toNat)
    {control : Char} (isControl : control.toNat < 32) :
    solvedChar solution format symbol previous index = control ↔
      previous[index]? = some control ∧ solution.char? symbol (.ofNat index) = none := by
  cases isSolved : solution.char? symbol (.ofNat index) with
  | some code =>
      have shown := solvedChar_of_solved printable isSolved format previous
      simp only [reduceCtorEq, and_false, iff_false]
      rintro rfl
      omega
  | none =>
      rw [solvedChar_of_unsolved isSolved]
      cases previous[index]? with
      | some character => simp
      | none =>
          simp only [Option.getD_none, reduceCtorEq, false_and, iff_false]
          rintro rfl
          omega

theorem newline_notMem_solvedText (printable : solution.Printable)
    (visible : 32 ≤ format.filler.toNat) (clean : '\n' ∉ previous) :
    '\n' ∉ solvedText solution format symbol length previous := by
  intro member
  rcases List.mem_map.mp member with ⟨index, _, isNewline⟩
  have kept := (solvedChar_eq_iff printable visible (by decide)).mp isNewline
  exact clean (List.mem_of_getElem? kept.1)

theorem getLast?_solvedText_iff (printable : solution.Printable)
    (visible : 32 ≤ format.filler.toNat) :
    (solvedText solution format symbol length previous).getLast? = some '\r' ↔
      KeepsReturn solution symbol length previous := by
  rw [solvedText, KeepsReturn]
  cases solvedLength solution length previous with
  | zero => simp
  | succ last =>
      simp only [List.range_succ, List.map_append, List.map_singleton, List.getLast?_concat,
        Option.some.injEq, Nat.add_right_cancel_iff, exists_eq_left']
      exact solvedChar_eq_iff printable visible (by decide)

end InputValue

/-! ### Records -/

namespace InputRecord

variable {solution : Assignment} {format : InputFormat}

/-- The line that is written for a record can stand in a file as one line. Numbers always can. -/
def OneLine (solution : Assignment) (format : InputFormat) : InputRecord → Prop
  | .scopeBegin => Text.IsLine format.beginMarker
  | .scopeEnd => Text.IsLine format.endMarker
  | .value symbol (.text previous length) => solution.int? symbol = none →
      ¬InputValue.KeepsReturn solution symbol length previous.toList
  | .value _ _ => True

theorem isLine_line_iff {record : InputRecord} (printable : solution.Printable)
    (visible : 32 ≤ format.filler.toNat)
    (clean : ∀ symbol previous length, record = .value symbol (.text previous length) →
      '\n' ∉ previous.toList) :
    Text.IsLine (record.line solution format) ↔ record.OneLine solution format := by
  cases record with
  | scopeBegin | scopeEnd => exact Iff.rfl
  | value symbol given =>
      rw [line]
      cases isSolved : solution.int? symbol with
      | some solved =>
          have isLine := Numeral.isLine_text solved.toInt
          cases given <;> simp [OneLine, isLine, isSolved]
      | none =>
          cases given with
          | int given => exact iff_of_true (Numeral.isLine_text _) trivial
          | long given => exact iff_of_true (Numeral.isLine_text _) trivial
          | float given => exact iff_of_true (Decimal.isLine_text _) trivial
          | text previous length =>
              have noNewline : '\n' ∉
                  InputValue.solvedText solution format symbol length previous.toList :=
                InputValue.newline_notMem_solvedText printable visible
                  (clean symbol previous length rfl)
              simp only [InputValue.line, Text.IsLine, String.toList_ofList, OneLine, isSolved,
                InputValue.getLast?_solvedText_iff printable visible, noNewline, Ne,
                not_false_eq_true, true_and, forall_const]

end InputRecord

theorem Settings.visible_filler {settings : Settings} (valid : settings.validate = .ok ()) :
    32 ≤ settings.format.filler.toNat := by
  have noControl : isControl settings.format.filler = false := by
    simp only [validate] at valid
    split_ifs at valid with _ _ _ _ control
    simpa using control
  simp only [isControl, Bool.or_eq_false_iff, decide_eq_false_iff_not] at noControl
  omega

/-- The lines of an input file hold no newline. -/
theorem newline_notMem_of_readInputs {directory : Directory} {path : String} {source : List String}
    (isRead : readInputs directory path = .ok source) : ∀ line ∈ source, '\n' ∉ line.toList := by
  intro line isLine
  simp only [readInputs] at isRead
  split at isRead
  · cases isRead
    exact Text.newline_notMem_of_mem_lines isLine
  · cases isRead
    simp at isLine
  · cases isRead

namespace Recording

theorem source_report_suffix (recording : Recording) (event : Event) :
    (recording.report event).source <:+ recording.source := by
  cases event with
  | intInput | longInput | floatInput => exact List.tail_suffix _
  | textInput =>
      rw [report, source_text]
      exact List.tail_suffix _
  | beginScope | endScope => exact skipMarker_suffix _ _
  | branch | branchDone | branchForced => exact List.suffix_refl _

/-- The strings of a run are lines that it was given, or empty where none was left. -/
theorem text_of_mem_newRecords {recording : Recording} {events : List Event} {symbol : UInt32}
    {text : String} {length : UInt32}
    (isRecord : .value symbol (.text text length) ∈ recording.newRecords events) :
    text = "" ∨ text ∈ recording.source := by
  induction events generalizing recording with
  | nil => simp [newRecords] at isRecord
  | cons event later ih =>
      rw [newRecords] at isRecord
      rcases List.mem_append.mp isRecord with isNew | isLater
      · cases event with
        | textInput =>
            have isValue : text = recording.source.head?.getD "" := by
              simp only [newRecord?, Option.toList_some, List.mem_singleton,
                InputRecord.value.injEq, InputValue.text.injEq] at isNew
              exact isNew.2.1
            cases isSource : recording.source with
            | nil => simp [isValue, isSource]
            | cons line rest => simp [isValue, isSource]
        | _ => simp [newRecord?] at isNew
      · rcases ih isLater with isEmpty | isLine
        · exact .inl isEmpty
        · exact .inr ((recording.source_report_suffix event).subset isLine)

/-- Let a run under valid settings be recorded over the lines of an input file, and let its records
be written under a solution with printable characters. Where files can be put, writing succeeds. What
is read then is what was written exactly if there is some record, every marker that is written can
stand in a file as one line, and no string keeps a carriage return of the previous one at its end. -/
theorem written_lines_survive_iff {settings : Settings} (valid : settings.validate = .ok ())
    {directory : Directory} {path : String} {source : List String}
    (isRead : readInputs directory path = .ok source) (expected : List PathStep)
    (maxLength : Int64) (lexicon : Lexicon) (events : List Event) {solution : Assignment}
    (printable : solution.Printable) :
    let format := settings.format
    let records := ((start source expected format maxLength lexicon).reportAll events).records
    let written := InputRecord.lines records solution format
    ∀ later : Directory,
      (∀ place copy temporary, later.Offers path place → later.Offers (path ++ ".bak") copy →
        later.Offers (path ++ ".tmp") temporary →
          ∃ final, writeInputs later path written = (.ok (), final)) ∧
      ∀ final, writeInputs later path written = (.ok (), final) →
        (readInputs final path = .ok written ↔
          records ≠ [] ∧ ∀ record ∈ records, record.OneLine solution format) := by
  intro format records written later
  constructor
  · intro place copy temporary inputs backup draft
    rcases inputs.writeInputs backup draft written with ⟨final, isWritten, _⟩
    exact ⟨final, isWritten⟩
  · intro final isWritten
    have areNew : records = (start source expected format maxLength lexicon).newRecords events :=
      records_reportAll _ events
    have isLine_iff : ∀ record ∈ records,
        Text.IsLine (record.line solution format) ↔ record.OneLine solution format := by
      intro record isRecord
      apply InputRecord.isLine_line_iff printable (Settings.visible_filler valid)
      rintro symbol previous length rfl
      rw [areNew] at isRecord
      rcases text_of_mem_newRecords isRecord with rfl | isLine
      · decide
      · exact newline_notMem_of_readInputs isRead previous isLine
    have readsLines : readInputs final path = .ok (Text.lines (Text.unlines written)) := by
      rw [readInputs, read_of_writeInputs isWritten]
    rw [readsLines, Except.ok.injEq, Text.lines_unlines_iff]
    apply and_congr
    · exact not_congr List.map_eq_nil_iff
    · exact List.forall_mem_map.trans (forall₂_congr isLine_iff)

/-- A directory with an input file of one line, which holds a carriage return. -/
def parted : Directory where
  entries := [(.ofName "inputs", .text "a\rb\n")]

/-- That directory after lines were written to the input file. -/
def partedAfter (lines : List String) : Directory :=
  (writeInputs parted "inputs" lines).2

/-- What a program records that asks for a string, and what it records if it asks for nothing. -/
def partedRun (events : List Event) : Recording :=
  (start ["a\rb"] [] {} 100 {}).reportAll events

/-- A solution that cuts the string after its carriage return, and one that puts a letter there. -/
def cutting : Assignment :=
  .ofList [(.int 2, 2)]

def covering : Assignment :=
  .ofList [(.int 2, 2), (.char 1 1, 72)]

theorem parted_lines_survive_iff :
    Settings.validate {} = .ok () ∧ readInputs parted "inputs" = .ok ["a\rb"] ∧
      cutting.Printable ∧ covering.Printable ∧
      InputRecord.lines (partedRun [.textInput]).records cutting {} = ["a\r"] ∧
      readInputs (partedAfter ["a\r"]) "inputs" ≠ .ok ["a\r"] ∧
      InputRecord.lines (partedRun [.textInput]).records covering {} = ["aH"] ∧
      readInputs (partedAfter ["aH"]) "inputs" = .ok ["aH"] ∧
      InputRecord.lines (partedRun []).records cutting {} = [] ∧
      readInputs (partedAfter []) "inputs" ≠ .ok [] := by
  have valid : Settings.validate {} = .ok () := by decide +kernel
  have isRead : readInputs parted "inputs" = .ok ["a\rb"] := by decide +kernel
  have cuts : cutting.Printable := by
    intro symbol index code isSolved
    simpa using VarMap.mem_of_get?_ofList isSolved
  have covers : covering.Printable := by
    intro symbol index code isSolved
    have isBound := VarMap.mem_of_get?_ofList isSolved
    simp only [List.mem_cons, List.not_mem_nil, Prod.mk.injEq, reduceCtorEq, false_and, false_or,
      or_false] at isBound
    rw [isBound.2]
    decide
  have survive {solution : Assignment} (printable : solution.Printable) (events : List Event)
      {written : List String}
      (areLines : InputRecord.lines (partedRun events).records solution {} = written)
      (isWritten : (writeInputs parted "inputs" written).1 = .ok ()) :
      readInputs (partedAfter written) "inputs" = .ok written ↔
        (partedRun events).records ≠ [] ∧
          ∀ record ∈ (partedRun events).records, record.OneLine solution {} := by
    subst areLines
    exact (written_lines_survive_iff valid isRead [] 100 {} events printable parted).2 _
      (Prod.ext isWritten rfl)
  have areRecords : (partedRun [.textInput]).records = [.value 1 (.text "a\rb" 2)] := rfl
  have cutLines : InputRecord.lines (partedRun [.textInput]).records cutting {} = ["a\r"] := by
    decide +kernel
  have coveredLines : InputRecord.lines (partedRun [.textInput]).records covering {} = ["aH"] := by
    decide +kernel
  have noLines : InputRecord.lines (partedRun []).records cutting {} = [] := rfl
  refine ⟨valid, isRead, cuts, covers, cutLines, ?_, coveredLines, ?_, noLines, ?_⟩
  · rw [Ne, survive cuts [.textInput] cutLines (by decide +kernel), areRecords]
    rintro ⟨_, oneLine⟩
    apply oneLine _ List.mem_cons_self (by decide +kernel)
    exact ⟨1, by decide +kernel, by decide +kernel, by decide +kernel⟩
  · rw [survive covers [.textInput] coveredLines (by decide +kernel), areRecords]
    refine ⟨List.cons_ne_nil _ _, ?_⟩
    intro record isRecord
    rw [List.mem_singleton.mp isRecord]
    rintro _ ⟨last, isLast, _, isUnsolved⟩
    have isSecond : InputValue.solvedLength covering 2 "a\rb".toList = 2 := by decide +kernel
    obtain rfl : last = 1 := by omega
    exact absurd isUnsolved (by decide +kernel)
  · rw [Ne, survive cuts [] noLines (by decide +kernel)]
    rintro ⟨nonempty, _⟩
    exact nonempty rfl

end Recording

end Concolic
