import Mathlib
import Concolic.Answer
import Concolic.Proofs.Numeral
import Concolic.Proofs.Scope

/-!
# The values that input lines denote

The inputs of a run give values to the variables that conditions mention: an `int` or `long` input
to its own variable, a string to its length variable and to one variable for each of its characters.
`InputRecord.values` collects them.

The lines of a solution are read again by the next run. What they denote is the solution where it
has something to say and the previous value elsewhere; a solved string is read as it was written,
with its characters counted anew.
-/

namespace Concolic

namespace InputRecord

/-- The values that one input gives to variables. -/
def bindings : InputRecord → List (Variable × Int64)
  | .value symbol (.int given) => [(.int symbol, given.toInt64)]
  | .value symbol (.long given) => [(.int symbol, given)]
  | .value symbol (.text text length) =>
      (.int length, Int64.ofNat text.length) ::
        text.toList.zipIdx.map fun (character, index) =>
          (.char symbol (.ofNat index), codeOf character)
  | _ => []

/-- The values of the variables of a run. -/
def values (records : List InputRecord) : Assignment :=
  .ofList (records.flatMap bindings)

/-- The input that a line gives where the record stands: the same kind of input, with the value that
is read from the line. -/
def reread (record : InputRecord) (line : String) : InputRecord :=
  match record with
  | .value symbol (.int _) => .value symbol (.int ((Numeral.int32? (Text.trim line.toList)).getD 0))
  | .value symbol (.long _) =>
      .value symbol (.long ((Numeral.int64? (Text.trim line.toList)).getD 0))
  | .value symbol (.float _) =>
      .value symbol (.float ((Decimal.read? (Text.trim line.toList)).getD 0))
  | .value symbol (.text _ length) => .value symbol (.text line length)
  | .scopeBegin => .scopeBegin
  | .scopeEnd => .scopeEnd

/-- The inputs that lines give, one line for each record. -/
def rereadAll (records : List InputRecord) (lines : List String) : List InputRecord :=
  List.zipWith reread records lines

/-- The variables that an input was given. -/
def ids : InputRecord → List UInt32
  | .value symbol (.text _ length) => [symbol, length]
  | .value symbol _ => [symbol]
  | _ => []

/-- No two inputs share a variable. -/
def Distinct (records : List InputRecord) : Prop :=
  (records.flatMap ids).Nodup

variable {records : List InputRecord}

theorem Distinct.eq_of_mem_ids (distinct : Distinct records) {first second : InputRecord}
    (firstMember : first ∈ records) (secondMember : second ∈ records) {id : UInt32}
    (ofFirst : id ∈ first.ids) (ofSecond : id ∈ second.ids) : first = second := by
  obtain ⟨_, disjoint⟩ := List.nodup_flatMap.mp distinct
  by_contra apart
  have : Std.Symm (Function.onFun List.Disjoint ids) := ⟨fun _ _ apart => List.Disjoint.symm apart⟩
  exact disjoint.forall firstMember secondMember apart ofFirst ofSecond

/-- The input that a variable belongs to. -/
def idOf : Variable → UInt32
  | .int id => id
  | .char symbol _ => symbol

theorem idOf_mem_ids {record : InputRecord} {binding : Variable × Int64}
    (member : binding ∈ record.bindings) : idOf binding.1 ∈ record.ids := by
  cases record with
  | scopeBegin => simp [bindings] at member
  | scopeEnd => simp [bindings] at member
  | value symbol given =>
      cases given with
      | int value => simp_all [bindings, ids, idOf]
      | long value => simp_all [bindings, ids, idOf]
      | float value => simp [bindings] at member
      | text text length =>
          rcases List.mem_cons.mp member with rfl | isCharacter
          · simp [ids, idOf]
          · obtain ⟨⟨character, index⟩, _, rfl⟩ := List.mem_map.mp isCharacter
            simp [ids, idOf]

/-- A variable that an input gives a value has such a value. -/
theorem Distinct.exists_get?_values (distinct : Distinct records) {record : InputRecord}
    (isRecord : record ∈ records) {key : Variable} {value : Int64}
    (isBinding : (key, value) ∈ record.bindings) :
    ∃ found, (values records).get? key = some found ∧ (key, found) ∈ record.bindings := by
  have member : (key, value) ∈ records.flatMap bindings :=
    List.mem_flatMap.mpr ⟨record, isRecord, isBinding⟩
  have bound : key ∈ (values records).keys :=
    VarMap.mem_keys_ofList.mpr (List.mem_map_of_mem member)
  obtain ⟨found, isFound⟩ := VarMap.mem_keys_iff.mp bound
  obtain ⟨other, isOther, otherBinding⟩ := List.mem_flatMap.mp (VarMap.mem_of_get?_ofList isFound)
  have ofOther : idOf key ∈ other.ids := idOf_mem_ids otherBinding
  have ofRecord : idOf key ∈ record.ids := idOf_mem_ids isBinding
  have same : other = record := distinct.eq_of_mem_ids isOther isRecord ofOther ofRecord
  exact ⟨found, isFound, same ▸ otherBinding⟩

/-- A variable has the value that its input gives to it, if the input gives it only one. -/
theorem Distinct.get?_values (distinct : Distinct records) {record : InputRecord}
    (isRecord : record ∈ records) {key : Variable} {value : Int64}
    (isBinding : (key, value) ∈ record.bindings)
    (unique : ∀ other, (key, other) ∈ record.bindings → other = value) :
    (values records).get? key = some value := by
  obtain ⟨found, isFound, foundBinding⟩ := distinct.exists_get?_values isRecord isBinding
  rw [isFound, unique found foundBinding]

theorem Distinct.get?_values_int (distinct : Distinct records) {symbol : UInt32} {given : Int32}
    (isRecord : .value symbol (.int given) ∈ records) :
    (values records).get? (.int symbol) = some given.toInt64 :=
  distinct.get?_values isRecord (by simp [bindings]) (by simp [bindings])

theorem Distinct.get?_values_long (distinct : Distinct records) {symbol : UInt32} {given : Int64}
    (isRecord : .value symbol (.long given) ∈ records) :
    (values records).get? (.int symbol) = some given :=
  distinct.get?_values isRecord (by simp [bindings]) (by simp [bindings])

theorem Distinct.get?_values_length (distinct : Distinct records) {symbol length : UInt32}
    {text : String} (isRecord : .value symbol (.text text length) ∈ records) :
    (values records).get? (.int length) = some (Int64.ofNat text.length) :=
  distinct.get?_values isRecord (by simp [bindings]) (by simp [bindings])

theorem Distinct.get?_values_char (distinct : Distinct records) {symbol length : UInt32}
    {text : String} (isRecord : .value symbol (.text text length) ∈ records)
    (short : text.length ≤ 2 ^ 32) {index : Nat} {character : Char}
    (isCharacter : text.toList[index]? = some character) :
    (values records).get? (.char symbol (.ofNat index)) = some (codeOf character) := by
  have inRange {position : Nat} {found : Char} (isFound : text.toList[position]? = some found) :
      position < 2 ^ 32 := by
    have := (List.getElem?_eq_some_iff.mp isFound).1
    rw [String.length_toList] at this
    omega
  apply distinct.get?_values isRecord
  · refine List.mem_cons_of_mem _ (List.mem_map.mpr ⟨(character, index), ?_, rfl⟩)
    exact List.mem_zipIdx_iff_getElem?.mpr isCharacter
  · intro other isOther
    rcases List.mem_cons.mp isOther with impossible | isMapped
    · simp at impossible
    · obtain ⟨⟨found, position⟩, isFound, same⟩ := List.mem_map.mp isMapped
      rw [List.mem_zipIdx_iff_getElem?] at isFound
      simp only [Prod.mk.injEq, Variable.char.injEq, true_and] at same
      have samePosition : position = index := by
        have positions := congrArg UInt32.toNat same.1
        rwa [UInt32.toNat_ofNat_of_lt' (inRange isFound),
          UInt32.toNat_ofNat_of_lt' (inRange isCharacter)] at positions
      rw [samePosition, isCharacter, Option.some.injEq] at isFound
      rw [← same.2, isFound]

/-- Every position of a string has some character, however long the string is. -/
theorem Distinct.exists_get?_values_char (distinct : Distinct records) {symbol length : UInt32}
    {text : String} (isRecord : .value symbol (.text text length) ∈ records) {index : Nat}
    (inRange : index < text.length) :
    ∃ character, (values records).get? (.char symbol (.ofNat index)) = some (codeOf character) := by
  obtain ⟨own, isOwn⟩ : ∃ own, text.toList[index]? = some own :=
    ⟨_, List.getElem?_eq_getElem (by rwa [String.length_toList])⟩
  have isBinding : (.char symbol (.ofNat index), codeOf own) ∈
      (InputRecord.value symbol (.text text length)).bindings :=
    List.mem_cons_of_mem _ (List.mem_map.mpr
      ⟨(own, index), List.mem_zipIdx_iff_getElem?.mpr isOwn, rfl⟩)
  obtain ⟨found, isFound, foundBinding⟩ := distinct.exists_get?_values isRecord isBinding
  rcases List.mem_cons.mp foundBinding with impossible | isMapped
  · simp at impossible
  · obtain ⟨⟨character, position⟩, _, isPair⟩ := List.mem_map.mp isMapped
    rw [isFound, ← (Prod.mk.inj isPair).2]
    exact ⟨character, rfl⟩

/-- Later inputs give their values to other variables. -/
theorem Distinct.values_extends {earlier : List InputRecord} (distinct : Distinct records)
    (isPrefix : earlier <+: records) : (values records).Extends (values earlier) := by
  obtain ⟨later, rfl⟩ := isPrefix
  intro key value isBound
  rw [values, List.flatMap_append, VarMap.get?_ofList_append]
  have unbound : (VarMap.ofList (later.flatMap bindings)).get? key = none := by
    by_contra isBoundAgain
    obtain ⟨found, isFound⟩ := Option.ne_none_iff_exists'.mp isBoundAgain
    obtain ⟨first, isFirst, firstBinding⟩ := List.mem_flatMap.mp (VarMap.mem_of_get?_ofList isBound)
    obtain ⟨second, isSecond, secondBinding⟩ :=
      List.mem_flatMap.mp (VarMap.mem_of_get?_ofList isFound)
    rw [Distinct, List.flatMap_append, List.nodup_append] at distinct
    exact distinct.2.2 _ (List.mem_flatMap.mpr ⟨first, isFirst, idOf_mem_ids firstBinding⟩) _
      (List.mem_flatMap.mpr ⟨second, isSecond, idOf_mem_ids secondBinding⟩) rfl
  rw [unbound, Option.none_or]
  exact isBound

/-! ### Requests -/

/-- What was asked for, without the value that was given. -/
def request : InputRecord → InputRecord
  | .value symbol (.int _) => .value symbol (.int 0)
  | .value symbol (.long _) => .value symbol (.long 0)
  | .value symbol (.float _) => .value symbol (.float 0)
  | .value symbol (.text _ length) => .value symbol (.text "" length)
  | .scopeBegin => .scopeBegin
  | .scopeEnd => .scopeEnd

section Requests

variable {inputs : List InputRecord}

theorem ids_request (record : InputRecord) : record.request.ids = record.ids := by
  cases record with
  | scopeBegin => rfl
  | scopeEnd => rfl
  | value symbol given => cases given <;> rfl

theorem Distinct.of_requests (distinct : Distinct records)
    (sameRequests : inputs.map request = records.map request) : Distinct inputs := by
  have sameIds (list : List InputRecord) : (list.map request).flatMap ids = list.flatMap ids := by
    simp [List.flatMap_map, ids_request]
  rwa [Distinct, ← sameIds, sameRequests, sameIds]

theorem exists_request (sameRequests : inputs.map request = records.map request)
    {record : InputRecord} (isRecord : record ∈ records) :
    ∃ input ∈ inputs, input.request = record.request := by
  have member : record.request ∈ inputs.map request := by
    rw [sameRequests]
    exact List.mem_map_of_mem isRecord
  exact List.mem_map.mp member

theorem exists_int_input (sameRequests : inputs.map request = records.map request)
    {symbol : UInt32} {given : Int32} (isRecord : .value symbol (.int given) ∈ records) :
    ∃ other, .value symbol (.int other) ∈ inputs := by
  obtain ⟨input, isInput, same⟩ := exists_request sameRequests isRecord
  rcases input with _ | _ | ⟨own, _ | _ | _ | _⟩ <;> simp [request] at same
  exact ⟨_, same ▸ isInput⟩

theorem exists_long_input (sameRequests : inputs.map request = records.map request)
    {symbol : UInt32} {given : Int64} (isRecord : .value symbol (.long given) ∈ records) :
    ∃ other, .value symbol (.long other) ∈ inputs := by
  obtain ⟨input, isInput, same⟩ := exists_request sameRequests isRecord
  rcases input with _ | _ | ⟨own, _ | _ | _ | _⟩ <;> simp [request] at same
  exact ⟨_, same ▸ isInput⟩

theorem exists_text_input (sameRequests : inputs.map request = records.map request)
    {symbol length : UInt32} (hasText : HasText records symbol length) :
    HasText inputs symbol length := by
  obtain ⟨given, isRecord⟩ := hasText
  obtain ⟨input, isInput, same⟩ := exists_request sameRequests isRecord
  rcases input with _ | _ | ⟨own, _ | _ | _ | ⟨text, size⟩⟩ <;> simp [request] at same
  exact ⟨text, same.1 ▸ same.2 ▸ isInput⟩

theorem Visible.of_requests (sameRequests : inputs.map request = records.map request)
    {var : Variable} (visible : Visible records var) : Visible inputs var := by
  cases var with
  | char symbol index => exact visible
  | int id =>
      rcases visible with (⟨given, isRecord⟩ | ⟨given, isRecord⟩) | ⟨symbol, hasText⟩
      · exact .inl (.inl (exists_int_input sameRequests isRecord))
      · exact .inl (.inr (exists_long_input sameRequests isRecord))
      · exact .inr ⟨symbol, exists_text_input sameRequests hasText⟩

/-- Whether a condition is admissible depends on what was asked for, not on what was given. -/
theorem admissible_of_requests (sameRequests : inputs.map request = records.map request)
    {condition : PathCondition} (admissible : condition.Admissible records) :
    condition.Admissible inputs := by
  refine Condition.Every.mono admissible
    (fun _ inScope var occurs => (inScope var occurs).of_requests sameRequests)
    (fun _ _ inScope => ⟨fun var occurs => (inScope.1 var occurs).of_requests sameRequests,
      fun var occurs => (inScope.2 var occurs).of_requests sameRequests⟩) ?_
  rintro test ⟨notRegex, subject, pattern⟩
  exact ⟨notRegex,
    fun symbol length isInput => exists_text_input sameRequests (subject symbol length isInput),
    fun symbol length isInput => exists_text_input sameRequests (pattern symbol length isInput)⟩

end Requests

/-! ### Reading the lines of a solution -/

variable {solution : Assignment} {format : InputFormat} {symbol length : UInt32}

theorem rereadAll_lines (records : List InputRecord) (solution : Assignment)
    (format : InputFormat) :
    rereadAll records (lines records solution format) =
      records.map fun record => record.reread (record.line solution format) := by
  rw [rereadAll, lines, List.zipWith_map_right, List.zipWith_self]

theorem ids_reread (record : InputRecord) (line : String) : (record.reread line).ids = record.ids := by
  cases record with
  | scopeBegin => rfl
  | scopeEnd => rfl
  | value symbol given => cases given <;> rfl

theorem request_reread (record : InputRecord) (line : String) :
    (record.reread line).request = record.request := by
  cases record with
  | scopeBegin => rfl
  | scopeEnd => rfl
  | value symbol given => cases given <;> rfl

theorem Distinct.rereadAll_lines (distinct : Distinct records) (solution : Assignment)
    (format : InputFormat) : Distinct (rereadAll records (lines records solution format)) := by
  rw [InputRecord.rereadAll_lines, Distinct, List.flatMap_map]
  simp only [ids_reread]
  exact distinct

theorem toInt64_ofInt {solved : Int64} (low : -2 ^ 31 ≤ solved.toInt)
    (high : solved.toInt < 2 ^ 31) : (Int32.ofInt solved.toInt).toInt64 = solved := by
  rw [← Int64.toInt_inj, Int32.toInt_toInt64, Int32.toInt_ofInt_of_le low high]

/-- A solved `int` input is read as the solved value, if that has 32 bits. -/
theorem reread_int_of_solved {given : Int32} {solved : Int64}
    (isSolved : solution.int? symbol = some solved) (low : -2 ^ 31 ≤ solved.toInt)
    (high : solved.toInt < 2 ^ 31) :
    (value symbol (.int given)).reread ((value symbol (.int given)).line solution format) =
      .value symbol (.int (Int32.ofInt solved.toInt)) := by
  simp only [line, isSolved, reread, Numeral.text, String.toList_ofList, Numeral.trim_ofInt,
    Numeral.int32?_ofInt low high, Option.getD_some]

theorem reread_int_of_unsolved {given : Int32} (unsolved : solution.int? symbol = none) :
    (value symbol (.int given)).reread ((value symbol (.int given)).line solution format) =
      .value symbol (.int given) := by
  have low := given.le_toInt
  have high := given.toInt_lt
  simp only [line, unsolved, InputValue.line, reread, Numeral.text, String.toList_ofList,
    Numeral.trim_ofInt, Numeral.int32?_ofInt low high, Option.getD_some, Int32.ofInt_toInt]

theorem reread_long_of_solved {given solved : Int64}
    (isSolved : solution.int? symbol = some solved) :
    (value symbol (.long given)).reread ((value symbol (.long given)).line solution format) =
      .value symbol (.long solved) := by
  simp only [line, isSolved, reread, Numeral.text, String.toList_ofList, Numeral.trim_ofInt,
    Numeral.int64?_ofInt, Option.getD_some]

theorem reread_long_of_unsolved {given : Int64} (unsolved : solution.int? symbol = none) :
    (value symbol (.long given)).reread ((value symbol (.long given)).line solution format) =
      .value symbol (.long given) := by
  simp only [line, unsolved, InputValue.line, reread, Numeral.text, String.toList_ofList,
    Numeral.trim_ofInt, Numeral.int64?_ofInt, Option.getD_some]

/-- A string is read as it was written: the solved characters, filled up to the solved length. -/
theorem reread_text {previous : String} (unsolved : solution.int? symbol = none) :
    (value symbol (.text previous length)).reread
      ((value symbol (.text previous length)).line solution format) =
      .value symbol (.text (String.ofList
        (InputValue.solvedText solution format symbol length previous.toList)) length) := by
  simp only [line, unsolved, InputValue.line, reread]

/-- The values that the next run gets from the lines of a solution. -/
def nextValues (records : List InputRecord) (solution : Assignment) (format : InputFormat) :
    Assignment :=
  values (rereadAll records (lines records solution format))

theorem mem_rereadAll (solution : Assignment) (format : InputFormat) {record : InputRecord}
    (isRecord : record ∈ records) :
    record.reread (record.line solution format) ∈
      rereadAll records (lines records solution format) := by
  rw [InputRecord.rereadAll_lines]
  exact List.mem_map_of_mem isRecord

theorem Distinct.nextValues_int_of_solved (distinct : Distinct records) {given : Int32}
    (isRecord : .value symbol (.int given) ∈ records) {solved : Int64}
    (isSolved : solution.int? symbol = some solved) (low : -2 ^ 31 ≤ solved.toInt)
    (high : solved.toInt < 2 ^ 31) :
    (nextValues records solution format).int? symbol = some solved := by
  have member := mem_rereadAll solution format isRecord
  rw [reread_int_of_solved isSolved low high] at member
  have bound := (distinct.rereadAll_lines solution format).get?_values_int member
  rw [toInt64_ofInt low high] at bound
  exact bound

theorem Distinct.nextValues_long_of_solved (distinct : Distinct records) {given : Int64}
    (isRecord : .value symbol (.long given) ∈ records) {solved : Int64}
    (isSolved : solution.int? symbol = some solved) :
    (nextValues records solution format).int? symbol = some solved := by
  have member := mem_rereadAll solution format isRecord
  rw [reread_long_of_solved isSolved] at member
  exact (distinct.rereadAll_lines solution format).get?_values_long member

theorem Distinct.nextValues_length (distinct : Distinct records) {previous : String}
    (isRecord : .value symbol (.text previous length) ∈ records)
    (unsolved : solution.int? symbol = none) :
    (nextValues records solution format).int? length =
      some (Int64.ofNat (InputValue.solvedLength solution length previous.toList)) := by
  have member := mem_rereadAll solution format isRecord
  rw [reread_text unsolved] at member
  have bound := (distinct.rereadAll_lines solution format).get?_values_length member
  rw [String.length_ofList, InputValue.solvedText, List.length_map, List.length_range] at bound
  exact bound

theorem Distinct.nextValues_char (distinct : Distinct records) {previous : String}
    (isRecord : .value symbol (.text previous length) ∈ records)
    (unsolved : solution.int? symbol = none)
    (short : InputValue.solvedLength solution length previous.toList ≤ 2 ^ 32) {index : Nat}
    (inRange : index < InputValue.solvedLength solution length previous.toList) :
    (nextValues records solution format).char? symbol (.ofNat index) =
      some (codeOf (InputValue.solvedChar solution format symbol previous.toList index)) := by
  have member := mem_rereadAll solution format isRecord
  rw [reread_text unsolved] at member
  apply (distinct.rereadAll_lines solution format).get?_values_char member
  · rwa [String.length_ofList, InputValue.solvedText, List.length_map, List.length_range]
  · simp [InputValue.solvedText, inRange]

end InputRecord

/-- Laying a model over an assignment keeps what the model does not mention. -/
theorem Model.get?_onto (model : Model) (base : Assignment) (var : Variable) :
    (model.onto base).get? var = ((model.onto ∅).get? var).or (base.get? var) := by
  induction model generalizing base with
  | nil => simp [onto]
  | cons entry rest ih =>
      have step (start : Assignment) :
          onto (entry :: rest) start = onto rest (start.insert entry.1 entry.2) := rfl
      rw [step, step, ih, ih (VarMap.insert ∅ entry.1 entry.2), Option.or_assoc]
      congr 1
      simp only [VarMap.get?_insert, VarMap.get?_empty]
      split <;> rfl

end Concolic
