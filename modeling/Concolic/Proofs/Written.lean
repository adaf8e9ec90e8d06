import Mathlib
import Concolic.Input
import Concolic.Proofs.Texts

/-!
# The text that is written and the text that was solved

Two ways lead from a solution to the characters of a string input. The solver layer reads them off
the cells of the input's symbolic text, and of a length it counts the low 32 bits only. The input
file gets a line of the full length, in which a character that the solution leaves open is filled
in. Where the solver layer knows a text, the line starts with it, whatever the previous text and the
filler were; and the line is that text exactly if the length is below 2^32.
-/

namespace Concolic

namespace SymText

variable {assignment : Assignment} {symbol length : UInt32} {lexicon : Lexicon} {text : List Char}

theorem cellChar?_ofVar (assignment : Assignment) (key : Variable) :
    cellChar? (Cell.ofVar assignment key) = (assignment.get? key).bind scalar? := by
  rw [Cell.ofVar]
  cases assignment.get? key <;> rfl

/-- A string input is concrete if its length is bound and each of its cells holds a character. -/
theorem exists_of_concrete?_input
    (known : (input symbol length).concrete? assignment lexicon = some text) :
    ∃ value, assignment.int? length = some value ∧
      (List.range (cellCount value)).mapM
        (fun index => (assignment.char? symbol (.ofNat index)).bind scalar?) = some text := by
  rcases concrete?_eq_some_iff.mp known with ⟨cells, isCells, characters⟩
  rcases cells?_cons_eq_some.mp isCells with ⟨first, others, isFirst, isOthers, rfl⟩
  rcases Option.map_eq_some_iff.mp isFirst with ⟨value, isValue, rfl⟩
  rw [cells?_nil, Option.some.injEq] at isOthers
  subst isOthers
  refine ⟨value, isValue, ?_⟩
  rw [List.append_nil, List.mapM_map] at characters
  simpa only [Function.comp_def, cellChar?_ofVar, Assignment.char?] using characters

end SymText

namespace InputValue

variable {assignment : Assignment} {format : InputFormat} {symbol : UInt32} {previous : List Char}

/-- Characters that are known are written, one for each position. -/
theorem eq_map_solvedChar {positions : List Nat} {text : List Char}
    (known : positions.mapM
      (fun index => (assignment.char? symbol (.ofNat index)).bind scalar?) = some text) :
    text = positions.map (solvedChar assignment format symbol previous) := by
  induction positions generalizing text with
  | nil =>
      cases known
      rfl
  | cons index rest ih =>
      simp only [List.mapM_cons, Option.bind_eq_bind, Option.bind_eq_some_iff, Option.pure_def,
        Option.some.injEq] at known
      rcases known with ⟨character, isCharacter, others, areOthers, rfl⟩
      have written : solvedChar assignment format symbol previous index = character := by
        rw [solvedChar, Option.bind_eq_some_iff.mpr isCharacter]
        rfl
      rw [List.map_cons, written, ← ih areOthers]

/-- The text that the solver layer knows is the start of the text that is written. -/
theorem eq_take_solvedText {length : UInt32} {lexicon : Lexicon} {text : List Char} {value : Int64}
    (known : (SymText.input symbol length).concrete? assignment lexicon = some text)
    (isValue : assignment.int? length = some value) :
    text = (solvedText assignment format symbol length previous).take (cellCount value) := by
  rcases SymText.exists_of_concrete?_input known with ⟨other, isOther, characters⟩
  obtain rfl : value = other := Option.some.inj (isValue.symm.trans isOther)
  have fewer : cellCount value ≤ value.toInt.toNat := Nat.mod_le _ _
  rw [solvedText, solvedLength, isValue, ← List.map_take, List.take_range, Nat.min_eq_left fewer]
  exact eq_map_solvedChar characters

theorem length_solvedText {length : UInt32} {value : Int64}
    (isValue : assignment.int? length = some value) :
    (solvedText assignment format symbol length previous).length = value.toInt.toNat := by
  rw [solvedText, solvedLength, isValue, List.length_map, List.length_range]

end InputValue

namespace InputRecord

/-- The line of a string input is the text that the solver layer knows, as long as the length has at
most 32 bits. For a record of a string whose own variable is not solved, whatever the filler and the
previous text: if the input's symbolic text is concrete under the solution, then its length is
bound, the line of the record starts with the text and has the full length, and the line is the text
if and only if the length is below 2^32. -/
theorem line_eq_concrete_iff {records : List InputRecord} {position : Nat}
    {symbol length : UInt32} {previous : String} {solution : Assignment} {lexicon : Lexicon}
    {text : List Char} (format : InputFormat)
    (isRecord : records[position]? = some (.value symbol (.text previous length)))
    (unsolved : solution.int? symbol = none)
    (known : (SymText.input symbol length).concrete? solution lexicon = some text) :
    ∃ value line, solution.int? length = some value ∧
      (lines records solution format)[position]? = some line ∧
      text <+: line.toList ∧ line.length = value.toInt.toNat ∧
      (line = String.ofList text ↔ value.toInt < 2 ^ 32) := by
  rcases SymText.exists_of_concrete?_input known with ⟨value, isValue, _⟩
  let written := InputValue.solvedText solution format symbol length previous.toList
  have isLine : (lines records solution format)[position]? = some (String.ofList written) := by
    rw [lines, List.getElem?_map, isRecord, Option.map_some, line, unsolved]
    rfl
  have isStart : text = written.take (cellCount value) :=
    InputValue.eq_take_solvedText known isValue
  have fullLength : written.length = value.toInt.toNat := InputValue.length_solvedText isValue
  refine ⟨value, String.ofList written, isValue, isLine, ?_, ?_, ?_⟩
  · rw [String.toList_ofList, isStart]
    exact List.take_prefix _ _
  · rw [String.length_ofList, fullLength]
  · rw [String.ofList_inj, isStart, eq_comm, List.take_eq_self_iff, fullLength, cellCount]
    omega

/-- Two characters are known, and the length has the given value. -/
def twoCharacters (length : Int64) : Assignment :=
  .ofList [(.int 2, length), (.char 1 0, 104), (.char 1 1, 105)]

/-- For the length two, the two characters are the line. For a length that is greater by 2^32 the
solver layer knows the same text, and the line is longer. -/
theorem twoCharacters_line_eq_concrete_iff :
    (SymText.input 1 2).concrete? (twoCharacters 2) {} = some ['h', 'i'] ∧
    (lines [.value 1 (.text "previous" 2)] (twoCharacters 2) {})[0]? = some "hi" ∧
    (SymText.input 1 2).concrete? (twoCharacters 4294967298) {} = some ['h', 'i'] ∧
    ∃ line, (lines [.value 1 (.text "previous" 2)] (twoCharacters 4294967298) {})[0]? = some line ∧
      line.length = 4294967298 ∧ line ≠ "hi" := by
  have isRecord : [InputRecord.value 1 (.text "previous" 2)][0]? =
      some (.value 1 (.text "previous" 2)) := rfl
  have short : (SymText.input 1 2).concrete? (twoCharacters 2) {} = some ['h', 'i'] := by
    decide +kernel
  have long : (SymText.input 1 2).concrete? (twoCharacters 4294967298) {} = some ['h', 'i'] := by
    decide +kernel
  have isTwo : (twoCharacters 2).int? 2 = some 2 := by decide +kernel
  have isMany : (twoCharacters 4294967298).int? 2 = some 4294967298 := by decide +kernel
  rcases line_eq_concrete_iff {} isRecord (by decide +kernel) short with
    ⟨value, line, isValue, isLine, _, _, same⟩
  rcases line_eq_concrete_iff {} isRecord (by decide +kernel) long with
    ⟨other, longLine, isOther, isLongLine, _, many, notSame⟩
  obtain rfl := Option.some.inj (isTwo.symm.trans isValue)
  obtain rfl := Option.some.inj (isMany.symm.trans isOther)
  refine ⟨short, ?_, long, longLine, isLongLine, many, ?_⟩
  · rw [isLine, same.mpr (by decide)]
  · intro isShort
    exact absurd (notSame.mp isShort) (by decide)

end InputRecord

end Concolic
