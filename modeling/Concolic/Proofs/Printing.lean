import Mathlib
import Concolic.Proofs.Meaning
import Concolic.Proofs.Presentation
import Concolic.Solving

/-!
# Formulas are printed as they are meant

What is printed for a sum, a term, a formula or a clause that excludes models, read in the solver's
presentation language, has the value or the truth of what was printed. It names the variables of what
was printed, in the same order, and no word of the language is taken for a name.
-/

namespace Concolic

namespace Presentation

variable {valuation : Variable → Int}

/-! ### Numbers and sums -/

theorem shape_of_isDigit {character : Char} (digit : Numeral.isDigit character = true) :
    shape character = .wordy := by
  have range := Numeral.toNat_of_isDigit digit
  have notBlank : Text.isBlank character = false := by
    simp [Text.isBlank, Text.blankRanges]
    omega
  have alphanumeric : character.isAlphanum = true := by
    have isDigit : character.isDigit = true := by
      simpa [Numeral.isDigit, Char.isDigit, Char.le_def] using digit
    simp [Char.isAlphanum, isDigit]
  simp [shape, notBlank, alphanumeric]

theorem Reads.digits (value : Nat) :
    Reads valuation true (Numeral.digits value) [.number value] [] := by
  have isNumber : item valuation (Numeral.digits value) = .number value := by
    have noTruth (word : List Char) (letter : Char) (starts : word.head? = some letter)
        (noDigit : Numeral.isDigit letter = false) : Numeral.digits value ≠ word := by
      rintro rfl
      have member := List.mem_of_head? starts
      simp [Numeral.isDigit_of_mem_digits member] at noDigit
    rw [item, if_neg (noTruth _ 'T' rfl (by decide)), if_neg (noTruth _ 'F' rfl (by decide)),
      Numeral.natural?_digits]
  have noName : Variable.ofNameChars? (Numeral.digits value) = none := by
    cases isDigits : Numeral.digits value with
    | nil => rfl
    | cons first rest =>
        have isDigit := Numeral.isDigit_of_mem_digits (isDigits ▸ List.mem_cons_self)
        rw [Variable.ofNameChars?]
        rintro others ⟨⟩
        exact absurd isDigit (by decide)
  have reads : Reads valuation true (Numeral.digits value) _ _ :=
    .word (Numeral.digits_ne_nil value) fun character member =>
      shape_of_isDigit (Numeral.isDigit_of_mem_digits member)
  rwa [isNumber, noName] at reads

theorem wordy_of_mem_nameChars {var : Variable} {character : Char}
    (member : character ∈ var.nameChars) : shape character = .wordy := by
  have ofDigits (value : Nat) (member : character ∈ Numeral.digits value) :
      shape character = .wordy :=
    shape_of_isDigit (Numeral.isDigit_of_mem_digits member)
  cases var with
  | int id =>
      rcases List.mem_cons.mp member with rfl | inDigits
      · decide
      · exact ofDigits _ inDigits
  | char symbol index =>
      simp only [Variable.nameChars, List.mem_cons, List.mem_append, List.not_mem_nil,
        or_false] at member
      rcases member with rfl | (inSymbol | rfl | rfl) | inIndex
      · decide
      · exact ofDigits _ inSymbol
      · decide
      · decide
      · exact ofDigits _ inIndex

theorem exists_nameChars_eq_cons (var : Variable) : ∃ rest, var.nameChars = 'x' :: rest := by
  cases var <;> exact ⟨_, rfl⟩

theorem Reads.name (valuation : Variable → Int) (var : Variable) :
    Reads valuation true var.nameChars [.number (valuation var)] [var] := by
  obtain ⟨rest, starts⟩ := exists_nameChars_eq_cons var
  have isName := Variable.ofNameChars?_nameChars var
  have isNumber : item valuation var.nameChars = .number (valuation var) := by
    have noTruth (word : List Char) (apart : word.head? ≠ some 'x') : var.nameChars ≠ word := by
      rintro rfl
      simp [starts] at apart
    have noNumeral : Numeral.natural? var.nameChars = none := by
      rw [starts]
      simp [Numeral.natural?, Numeral.isDigit]
    rw [item, if_neg (noTruth _ (by decide)), if_neg (noTruth _ (by decide)), noNumeral, isName]
  have reads : Reads valuation true var.nameChars _ _ :=
    .word (by simp [starts]) fun character member => wordy_of_mem_nameChars member
  rwa [isNumber, isName] at reads

/-- The items of a numeral. -/
def numeralItems : Int → List Item
  | .ofNat value => [.number value]
  | .negSucc predecessor => [.sign ['-'], .number (predecessor + 1 : Nat)]

theorem Reads.numeral (value : Int) :
    Reads valuation true (Numeral.ofInt value) (numeralItems value) [] := by
  cases value with
  | ofNat magnitude => exact Reads.digits magnitude
  | negSucc predecessor =>
      exact (Reads.operator (by decide)).append (Reads.digits (predecessor + 1)) (by simp)

theorem number?_numeralItems (value : Int) : number? (numeralItems value) = some value := by
  cases value with
  | ofNat magnitude => simp [numeralItems, number?, addUp]
  | negSucc predecessor =>
      simp only [numeralItems, number?, addUp, Option.some.injEq]
      omega

theorem close_numeralItems (value : Int) : close (numeralItems value) = .number value := by
  have noTruth : truth? (numeralItems value) = none := by
    cases value <;> rfl
  rw [close, noTruth, number?_numeralItems]

/-- A numeral between parentheses is its number. -/
theorem Reads.closedNumeral (valuation : Variable → Int) (value : Int) :
    Reads valuation false ('(' :: (Numeral.ofInt value ++ [')'])) [.number value] [] := by
  rw [← close_numeralItems]
  exact (Reads.numeral value).parenthesised

end Presentation

open Presentation

variable {valuation : Variable → Int}

@[simp]
theorem Numeral.toList_text (value : Int) : (text value).toList = ofInt value :=
  String.toList_ofList

@[simp]
theorem Variable.toList_name (var : Variable) : var.name.toList = var.nameChars :=
  String.toList_ofList

namespace Arith

/-- A node between parentheses reads as the value of its operation. -/
theorem reads_node {left right : Arith} {operator : Char} {exact : Int}
    (isOperator : operator ∈ ['+', '-', '*'])
    (leftReads : Reads valuation true left.text.toList [.number (left.valueAt valuation)] left.vars)
    (rightReads : Reads valuation true right.text.toList [.number (right.valueAt valuation)]
      right.vars)
    (computes : number? [.number (left.valueAt valuation), .sign [operator],
      .number (right.valueAt valuation)] = some exact) :
    Reads valuation true
      ('(' :: (left.text.toList ++ (' ' :: operator :: ' ' :: right.text.toList) ++ [')']))
      [.number exact] (left.vars ++ right.vars) := by
  have noTruth : truth? [.number (left.valueAt valuation), .sign [operator],
      .number (right.valueAt valuation)] = none := by
    fin_cases isOperator <;> rfl
  have closes : close [.number (left.valueAt valuation), .sign [operator],
      .number (right.valueAt valuation)] = .number exact := by
    rw [close, noTruth, computes]
  have rest := (Reads.blank valuation).append ((Reads.operator isOperator).append
    ((Reads.blank valuation).append rightReads (by simp)) (by simp)) (by simp)
  rw [← closes]
  exact (leftReads.append rest fun _ =>
    ⟨by simp, startsApart_cons (by decide)⟩).parenthesised.weaken

/-- A printed term is read as its exact value, and its variables are named. -/
theorem reads_text (valuation : Variable → Int) (term : Arith) :
    Reads valuation true term.text.toList [.number (term.valueAt valuation)] term.vars := by
  induction term with
  | const value =>
      simp only [text, valueAt, vars]
      split
      · simpa using (Reads.closedNumeral valuation value.toInt).weaken
      · rename_i notNegative
        rw [Numeral.toList_text]
        have nonneg : 0 ≤ value.toInt := by
          rw [Int64.lt_iff_toInt_lt, Int64.toInt_zero] at notNegative
          omega
        obtain ⟨magnitude, isNat⟩ := Int.eq_ofNat_of_zero_le nonneg
        rw [isNat]
        exact Reads.digits magnitude
  | var key =>
      rw [text, Variable.toList_name, valueAt, vars]
      exact Reads.name valuation key
  | add left right ihLeft ihRight =>
      have isOperator : '+' ∈ ['+', '-', '*'] := by decide
      simpa [text, valueAt, vars] using
        reads_node isOperator ihLeft ihRight (by simp [number?, addUp])
  | sub left right ihLeft ihRight =>
      have isOperator : '-' ∈ ['+', '-', '*'] := by decide
      simpa [text, valueAt, vars, sub_eq_add_neg] using
        reads_node isOperator ihLeft ihRight (by simp [number?, addUp])
  | mul left right ihLeft ihRight =>
      have isOperator : '*' ∈ ['+', '-', '*'] := by decide
      simpa [text, valueAt, vars] using
        reads_node isOperator ihLeft ihRight (by simp [number?, addUp])

end Arith

namespace Presentation

/-! ### Comparisons -/

/-- Items that can stand in a sum. -/
def Arithmetic (items : List Item) : Prop :=
  ∀ item ∈ items, (∃ value, item = .number value) ∨
    ∃ operator ∈ ['+', '-', '*'], item = .sign [operator]

theorem pieces_of_not_mem {separator : List Char} {items : List Item}
    (absent : .sign separator ∉ items) : pieces separator items = [items] := by
  induction items with
  | nil => rfl
  | cons first rest ih =>
      rw [List.mem_cons, not_or] at absent
      rw [pieces, if_neg (Ne.symm absent.1), ih absent.2]

theorem conjunction?_eq_literal? {items : List Item} (noAnd : .sign "AND".toList ∉ items) :
    conjunction? items = literal? items := by
  rw [conjunction?, pieces_of_not_mem noAnd]
  cases value : literal? items <;> simp [value]

theorem truth?_eq_conjunction? {items : List Item} (noOr : .sign "OR".toList ∉ items) :
    truth? items = conjunction? items := by
  rw [truth?, pieces_of_not_mem noOr]
  cases value : conjunction? items <;> simp [value]

theorem truth?_eq_literal? {items : List Item} (noAnd : .sign "AND".toList ∉ items)
    (noOr : .sign "OR".toList ∉ items) : truth? items = literal? items :=
  (truth?_eq_conjunction? noOr).trans (conjunction?_eq_literal? noAnd)

theorem relation?_of_arithmetic {items : List Item} (arithmetic : Arithmetic items) {first : Item}
    (member : first ∈ items) : relation? first = none := by
  rcases arithmetic first member with ⟨value, rfl⟩ | ⟨operator, isOperator, rfl⟩
  · rfl
  · fin_cases isOperator <;> rfl

theorem cut?_append {left right : List Item} (arithmetic : Arithmetic left) (relation : Relation) :
    cut? (left ++ .sign relation.sign.toList :: right) = some (left, relation, right) := by
  induction left with
  | nil => cases relation <;> rfl
  | cons first rest ih =>
      have restArithmetic : Arithmetic rest :=
        fun item member => arithmetic item (List.mem_cons_of_mem _ member)
      rw [List.cons_append, cut?, relation?_of_arithmetic arithmetic List.mem_cons_self,
        ih restArithmetic]
      rfl

/-- A comparison of two sums is read as one. -/
theorem truth?_comparison {left right : List Item} {first second : Int} (relation : Relation)
    (leftArithmetic : Arithmetic left) (rightArithmetic : Arithmetic right)
    (leftValue : number? left = some first) (rightValue : number? right = some second) :
    truth? (left ++ .sign relation.sign.toList :: right) =
      some (relation.holds (first - second)) := by
  have absent (word : String) (isConnective : word ∈ ["AND", "OR"]) :
      .sign word.toList ∉ left ++ .sign relation.sign.toList :: right := by
    have absentIn {items : List Item} (arithmetic : Arithmetic items) :
        .sign word.toList ∉ items := by
      intro member
      rcases arithmetic _ member with ⟨value, same⟩ | ⟨operator, isOperator, same⟩
      · cases same
      · fin_cases isConnective <;> fin_cases isOperator <;> simp at same
    rw [List.mem_append, List.mem_cons, not_or, not_or]
    refine ⟨absentIn leftArithmetic, ?_, absentIn rightArithmetic⟩
    intro same
    fin_cases isConnective <;> cases relation <;> simp [Relation.sign] at same
  have compared : comparison? (left ++ .sign relation.sign.toList :: right) =
      some (relation.holds (first - second)) := by
    simp [comparison?, cut?_append leftArithmetic, leftValue, rightValue]
  have literal : literal? (left ++ .sign relation.sign.toList :: right) =
      some (relation.holds (first - second)) := by
    rw [← compared]
    cases left with
    | nil => simp [number?] at leftValue
    | cons head tail =>
        rcases leftArithmetic head List.mem_cons_self with
          ⟨value, rfl⟩ | ⟨operator, isOperator, rfl⟩
        · rfl
        · have notNot : [operator] ≠ "NOT".toList := by
            fin_cases isOperator <;> decide
          rw [List.cons_append, literal?, if_neg notNot]
  rw [truth?_eq_literal? (absent "AND" (by decide)) (absent "OR" (by decide)), literal]

theorem arithmetic_numeralItems (value : Int) : Arithmetic (numeralItems value) := by
  intro item member
  cases value with
  | ofNat magnitude => simp_all [numeralItems]
  | negSucc predecessor =>
      simp only [numeralItems, List.mem_cons, List.not_mem_nil, or_false] at member
      rcases member with rfl | rfl
      · exact .inr ⟨'-', by decide, rfl⟩
      · exact .inl ⟨_, rfl⟩

/-! ### Connectives -/

/-- Pieces put together with a separator are found again. -/
theorem pieces_intercalate {separator : List Char} {lists : List (List Item)} (nonempty : lists ≠ [])
    (absent : ∀ items ∈ lists, .sign separator ∉ items) :
    pieces separator (List.intercalate [.sign separator] lists) = lists := by
  have step (items rest : List Item) (absentHere : .sign separator ∉ items) :
      pieces separator (items ++ .sign separator :: rest) = items :: pieces separator rest := by
    induction items with
    | nil => simp [pieces]
    | cons first others ih =>
        rw [List.mem_cons, not_or] at absentHere
        rw [List.cons_append, pieces, if_neg (Ne.symm absentHere.1), ih absentHere.2]
  induction lists with
  | nil => exact absurd rfl nonempty
  | cons first rest ih =>
      cases rest with
      | nil =>
          rw [List.intercalate_singleton]
          exact pieces_of_not_mem (absent first List.mem_cons_self)
      | cons second more =>
          rw [List.intercalate_cons_cons, List.append_assoc, List.singleton_append,
            step _ _ (absent first List.mem_cons_self),
            ih (by simp) fun items member => absent items (List.mem_cons_of_mem _ member)]

/-- The items of truths that a connective joins. -/
def joined (word : String) (values : List Bool) : List Item :=
  List.intercalate [.sign word.toList] (values.map fun value => [.truth value])

theorem mem_joined {word : String} {values : List Bool} {item : Item}
    (member : item ∈ joined word values) :
    item = .sign word.toList ∨ ∃ value, item = .truth value := by
  simp only [joined] at member
  induction values with
  | nil => simp at member
  | cons value rest ih =>
      cases rest with
      | nil => exact .inr ⟨value, by simpa using member⟩
      | cons second more =>
          simp only [List.map_cons, List.intercalate_cons_cons, List.mem_append,
            List.mem_singleton] at member ih
          rcases member with (isFirst | isSign) | inRest
          · exact .inr ⟨value, isFirst⟩
          · exact .inl isSign
          · exact ih inRest

theorem pieces_joined (word : String) {values : List Bool} (nonempty : values ≠ []) :
    pieces word.toList (joined word values) = values.map fun value => [.truth value] := by
  apply pieces_intercalate (by simpa using nonempty)
  intro items member
  obtain ⟨value, _, rfl⟩ := List.mem_map.mp member
  simp

theorem mapM_truths {read? : List Item → Option Bool} (reads : ∀ value, read? [.truth value] = some value)
    (values : List Bool) : (values.map fun value => [Item.truth value]).mapM read? = some values := by
  induction values with
  | nil => rfl
  | cons value rest ih => simp [reads, ih]

theorem truth?_joined_or {values : List Bool} (nonempty : values ≠ []) :
    truth? (joined "OR" values) = some (values.any id) := by
  rw [truth?, pieces_joined "OR" nonempty, mapM_truths fun value => by cases value <;> rfl]
  rfl

theorem truth?_joined_and {values : List Bool} (nonempty : values ≠ []) :
    truth? (joined "AND" values) = some (values.all id) := by
  have noOr : .sign "OR".toList ∉ joined "AND" values := by
    intro member
    rcases mem_joined member with same | ⟨value, same⟩
    · exact absurd same (by decide)
    · cases same
  rw [truth?_eq_conjunction? noOr, conjunction?, pieces_joined "AND" nonempty,
    mapM_truths (fun _ => rfl)]
  rfl

/-- Pieces of text that a separator joins are read one by one. -/
theorem Reads.intercalate {separator : List Char} {separatorItems : List Item}
    (separatorReads : Reads valuation false separator separatorItems []) {α : Type}
    {text : α → List Char} {items : α → List Item} {vars : α → List Variable} {members : List α}
    (each : ∀ member ∈ members, Reads valuation false (text member) (items member) (vars member)) :
    Reads valuation false (List.intercalate separator (members.map text))
      (List.intercalate separatorItems (members.map items)) (members.flatMap vars) := by
  induction members with
  | nil => exact .nil valuation
  | cons first rest ih =>
      have firstReads := each first List.mem_cons_self
      have restReads := ih fun member isMember => each member (List.mem_cons_of_mem _ isMember)
      cases rest with
      | nil => simpa using firstReads
      | cons second more =>
          simp only [List.map_cons, List.intercalate_cons_cons, List.append_assoc] at restReads ⊢
          exact firstReads.append (separatorReads.append restReads (by simp)) (by simp)

end Presentation

namespace Linear

/-- The items of one term of a sum. -/
def termItems (valuation : Variable → Int) (entry : Variable × Int64) : List Item :=
  [.number (valuation entry.1), .sign ['*'], .number entry.2.toInt]

theorem reads_termText (entry : Variable × Int64) :
    Reads valuation false (termText entry).toList (termItems valuation entry) [entry.1] := by
  have times : '*' ∈ ['+', '-', '*'] := by decide
  have factor := (Reads.operator times).append (Reads.closedNumeral valuation entry.2.toInt)
    (by simp)
  simpa [termText, termItems] using (Reads.name valuation entry.1).append factor fun _ =>
    ⟨by simp, startsApart_cons (by decide)⟩

/-- The items of the terms of a sum. -/
def sumItems (valuation : Variable → Int) (entries : List (Variable × Int64)) : List Item :=
  List.intercalate [.sign ['+']] (entries.map (termItems valuation))

theorem sumItems_cons_cons (first second : Variable × Int64) (rest : List (Variable × Int64)) :
    sumItems valuation (first :: second :: rest) =
      termItems valuation first ++ .sign ['+'] :: sumItems valuation (second :: rest) := by
  simp [sumItems, List.intercalate_cons_cons]

theorem arithmetic_sumItems (entries : List (Variable × Int64)) :
    Arithmetic (sumItems valuation entries) := by
  have ofTerm (entry : Variable × Int64) : Arithmetic (termItems valuation entry) := by
    intro item member
    simp only [termItems, List.mem_cons, List.not_mem_nil, or_false] at member
    rcases member with rfl | rfl | rfl
    · exact .inl ⟨_, rfl⟩
    · exact .inr ⟨'*', by decide, rfl⟩
    · exact .inl ⟨_, rfl⟩
  induction entries with
  | nil => simp [Arithmetic, sumItems]
  | cons first rest ih =>
      cases rest with
      | nil => simpa [sumItems] using ofTerm first
      | cons second more =>
          rw [sumItems_cons_cons]
          intro item member
          rcases List.mem_append.mp member with inTerm | inRest
          · exact ofTerm first item inTerm
          · rcases List.mem_cons.mp inRest with rfl | inSum
            · exact .inr ⟨'+', by decide, rfl⟩
            · exact ih item inSum

section AddUp

variable {last : List Item} {constant : Int}
  (ends : ∀ total product, addUp total product last = some (total + product + constant))

include ends

/-- Adding up terms gives their exact value, whatever was added before. -/
theorem addUp_sumItems {entries : List (Variable × Int64)} (nonempty : entries ≠ [])
    (total product : Int) :
    addUp total product (.sign ['+'] :: (sumItems valuation entries ++ last)) =
      some (total + product +
        VarMap.weigh (fun var coefficient => coefficient.toInt * valuation var) entries +
        constant) := by
  induction entries generalizing total product with
  | nil => exact absurd rfl nonempty
  | cons first rest ih =>
      cases rest with
      | nil =>
          simp only [sumItems, List.map_cons, List.map_nil, List.intercalate_singleton, termItems,
            List.cons_append, List.nil_append, addUp, ends, VarMap.weigh_cons, VarMap.weigh_nil,
            Option.some.injEq]
          ring
      | cons second more =>
          rw [sumItems_cons_cons]
          simp only [termItems, List.cons_append, List.nil_append, addUp, ih (by simp),
            VarMap.weigh_cons, Option.some.injEq]
          ring

theorem number?_sumItems {entries : List (Variable × Int64)} (nonempty : entries ≠ []) :
    number? (sumItems valuation entries ++ last) =
      some (VarMap.weigh (fun var coefficient => coefficient.toInt * valuation var) entries +
        constant) := by
  cases entries with
  | nil => exact absurd rfl nonempty
  | cons first rest =>
      cases rest with
      | nil =>
          simp only [sumItems, List.map_cons, List.map_nil, List.intercalate_singleton, termItems,
            List.cons_append, List.nil_append, number?, addUp, ends, VarMap.weigh_cons,
            VarMap.weigh_nil, Option.some.injEq]
          ring
      | cons second more =>
          rw [sumItems_cons_cons]
          simp only [termItems, List.cons_append, List.nil_append, number?, addUp,
            addUp_sumItems ends (List.cons_ne_nil second more), VarMap.weigh_cons,
            Option.some.injEq]
          ring

end AddUp

/-- A printed sum is read as its exact value, and its variables are named. -/
theorem reads_text (valuation : Variable → Int) (sum : Linear) :
    ∃ items, Reads valuation false sum.text.toList items sum.vars ∧ Arithmetic items ∧
      number? items = some (sum.valueAt valuation) := by
  have plus : '+' ∈ ['+', '-', '*'] := by decide
  have separator : Reads valuation false " + ".toList [.sign ['+']] [] :=
    (Reads.blank valuation).append
      ((Reads.operator plus).append (Reads.blank valuation) (by simp)) (by simp)
  have terms : Reads valuation false
      (String.intercalate " + " (sum.coefficients.entries.map termText)).toList
      (sumItems valuation sum.coefficients.entries) sum.vars := by
    rw [String.toList_intercalate, List.map_map, vars, VarMap.keys,
      List.map_eq_flatMap (f := Prod.fst)]
    exact separator.intercalate fun entry _ => reads_termText entry
  simp only [text]
  split
  · rename_i noEntries
    have valueIs : sum.valueAt valuation = sum.constant.toInt := by
      have isNil : sum.coefficients.entries = [] := by simpa [VarMap.isEmpty] using noEntries
      simp [valueAt, isNil]
    have noVars : sum.vars = [] := isConstant_iff.mp noEntries
    refine ⟨[.number sum.constant.toInt], ?_, ?_, ?_⟩
    · simpa [noVars] using Reads.closedNumeral valuation sum.constant.toInt
    · simp [Arithmetic]
    · simp [number?, addUp, valueIs]
  · rename_i someEntries
    have nonempty : sum.coefficients.entries ≠ [] := by simpa [VarMap.isEmpty] using someEntries
    split
    · rename_i noConstant
      refine ⟨sumItems valuation sum.coefficients.entries, by simpa using terms,
        arithmetic_sumItems _, ?_⟩
      have value : number? (sumItems valuation sum.coefficients.entries ++ []) = some (_ + 0) :=
        number?_sumItems (by simp [addUp]) nonempty
      simpa [valueAt, noConstant] using value
    · refine ⟨sumItems valuation sum.coefficients.entries ++
        [.sign ['+'], .number sum.constant.toInt], ?_, ?_, ?_⟩
      · have constant := (Reads.operator plus).append
          (Reads.closedNumeral valuation sum.constant.toInt) (by simp)
        simpa using terms.append constant (by simp)
      · intro item member
        rcases List.mem_append.mp member with inSum | inConstant
        · exact arithmetic_sumItems _ item inSum
        · simp only [List.mem_cons, List.not_mem_nil, or_false] at inConstant
          rcases inConstant with rfl | rfl
          · exact .inr ⟨'+', by decide, rfl⟩
          · exact .inl ⟨_, rfl⟩
      · rw [valueAt, add_comm]
        exact number?_sumItems (by simp [addUp]) nonempty

end Linear

namespace Formula

theorem textEach_eq_map (members : List Formula) :
    textEach members = members.map fun member => "(" ++ member.text ++ ")" := by
  induction members with
  | nil => rfl
  | cons member rest ih => rw [textEach, ih, List.map_cons]

/-- Members that a connective joins are read as the truths of the members. -/
theorem reads_joined {separator word : String}
    (separatorReads : Reads valuation false separator.toList [.sign word.toList] [])
    {members : List Formula}
    (each : ∀ member ∈ members, ∃ items,
      Reads valuation true member.text.toList items (member.vars Empty.elim) ∧
        truth? items = some (member.holdsAt valuation Empty.elim)) :
    Reads valuation true
      (String.intercalate separator (textEach members)).toList
      (joined word (members.map (Condition.holdsAt valuation Empty.elim)))
      (Condition.varsEach Empty.elim members) := by
  have closed (member : Formula) (isMember : member ∈ members) :
      Reads valuation false ("(" ++ member.text ++ ")").toList
        [.truth (member.holdsAt valuation Empty.elim)] (member.vars Empty.elim) := by
    obtain ⟨items, reads, truth⟩ := each member isMember
    have closes : close items = .truth (member.holdsAt valuation Empty.elim) := by
      rw [close, truth]
    simpa [closes] using reads.parenthesised
  rw [String.toList_intercalate, textEach_eq_map, List.map_map, joined, List.map_map,
    Condition.varsEach_eq_flatMap]
  exact (separatorReads.intercalate closed).weaken

/-- A printed formula is read as it is meant, and its variables are named. -/
theorem reads_text (valuation : Variable → Int) (formula : Formula) :
    ∃ items, Reads valuation true formula.text.toList items (formula.vars Empty.elim) ∧
      truth? items = some (formula.holdsAt valuation Empty.elim) := by
  induction formula using Condition.induction with
  | linear sum relation =>
      obtain ⟨items, reads, arithmetic, value⟩ := sum.reads_text valuation
      refine ⟨items ++ Item.sign relation.sign.toList :: [Item.number 0], ?_, ?_⟩
      · have zero := (Reads.relation valuation relation).append (Reads.digits 0) (by simp)
        simpa [text, Numeral.digits, Condition.vars] using reads.append zero (by simp)
      · rw [truth?_comparison relation arithmetic (by simp [Arithmetic]) value rfl]
        simp [Condition.holdsAt]
  | compare left right relation =>
      have minus : '-' ∈ ['+', '-', '*'] := by decide
      have closedSide (term : Arith) : Reads valuation false ('(' :: (term.text.toList ++ [')']))
          [.number (term.valueAt valuation)] term.vars := by
        have closes : close [.number (term.valueAt valuation)] =
            .number (term.valueAt valuation) := by
          have noTruth : truth? [.number (term.valueAt valuation)] = none := rfl
          rw [close, noTruth]
          simp [number?, addUp]
        rw [← closes]
        exact (term.reads_text valuation).parenthesised
      refine ⟨[Item.number (left.valueAt valuation), Item.sign ['-'],
        Item.number (right.valueAt valuation)] ++ Item.sign relation.sign.toList :: [Item.number 0],
        ?_, ?_⟩
      · have zero := (Reads.relation valuation relation).append (Reads.digits 0) (by simp)
        have difference := (closedSide left).append
          ((Reads.operator minus).append (closedSide right) (by simp)) (by simp)
        simpa [text, Numeral.digits, Condition.vars] using difference.append zero (by simp)
      · have arithmetic : Arithmetic [.number (left.valueAt valuation), .sign ['-'],
            .number (right.valueAt valuation)] := by
          simp [Arithmetic]
        rw [truth?_comparison relation arithmetic (by simp [Arithmetic]) rfl rfl]
        simp [Condition.holdsAt, sub_eq_add_neg]
  | anyOf members ih =>
      cases members with
      | nil => exact ⟨[.truth true], (Reads.constant true).weaken, rfl⟩
      | cons first rest =>
          refine ⟨_, reads_joined (Reads.keyword valuation " OR " "OR" (by decide)) ih, ?_⟩
          rw [truth?_joined_or (by simp), Condition.holdsAt_anyOf (by simp), List.any_map]
          rfl
  | allOf members ih =>
      cases members with
      | nil => exact ⟨[.truth false], (Reads.constant false).weaken, rfl⟩
      | cons first rest =>
          refine ⟨_, reads_joined (Reads.keyword valuation " AND " "AND" (by decide)) ih, ?_⟩
          rw [truth?_joined_and (by simp), Condition.holdsAt_allOf (by simp), List.all_map]
          rfl
  | test expected question => exact question.elim
  | truth => exact ⟨[.truth true], (Reads.constant true).weaken, rfl⟩
  | falsity => exact ⟨[.truth false], (Reads.constant false).weaken, rfl⟩

end Formula

namespace Presentation

/-- A text between parentheses that is read as a truth is one item. -/
theorem Reads.closedTruth {endsInWord : Bool} {piece : List Char} {items : List Item}
    {vars : List Variable} {value : Bool} (reads : Reads valuation endsInWord piece items vars)
    (isTruth : truth? items = some value) :
    Reads valuation false ('(' :: (piece ++ [')'])) [.truth value] vars := by
  have closes : close items = .truth value := by rw [close, isTruth]
  rw [← closes]
  exact reads.parenthesised

/-- The truth of a formula is that of its items. -/
theorem meaning?_lexemes {endsInWord : Bool} {formula : List Char} {items : List Item}
    {vars : List Variable} (reads : Reads valuation endsInWord formula items vars) :
    meaning? valuation (lexemes formula) = truth? items := by
  rw [meaning?, reads.shifted, push, List.append_nil]

end Presentation

/-! ### Clauses -/

/-- A comparison of a variable with a number, between parentheses. -/
theorem Variable.reads_comparison (key : Variable) (relation : Relation) {endsInWord : Bool}
    {piece : List Char} {items : List Item} {bound : Int}
    (reads : Reads valuation endsInWord piece items []) (arithmetic : Arithmetic items)
    (value : number? items = some bound) :
    Reads valuation false
      ('(' :: (key.nameChars ++ (' ' :: (relation.sign.toList ++ ' ' :: piece)) ++ [')']))
      [.truth (relation.holds (valuation key - bound))] [key] := by
  have right := (Reads.relation valuation relation).append reads (by simp)
  have both := (Reads.name valuation key).append right fun _ =>
    ⟨by simp, startsApart_cons (by decide)⟩
  have first : number? [.number (valuation key)] = some (valuation key) := by
    simp [number?, addUp]
  simpa using both.closedTruth
    (truth?_comparison relation (by simp [Arithmetic]) arithmetic first value)

namespace Model

/-- Whether a valuation gives every variable of a model its value there. -/
def agrees (valuation : Variable → Int) (model : Model) : Bool :=
  model.all fun entry => valuation entry.1 == entry.2.toInt

theorem reads_equation (entry : Variable × Int64) :
    Reads valuation false (equation entry).toList
      [.truth (valuation entry.1 == entry.2.toInt)] [entry.1] := by
  have number := (Reads.numeral entry.2.toInt).append (Reads.blank valuation) fun _ =>
    ⟨by simp, startsApart_cons (by decide)⟩
  rw [List.append_nil] at number
  have reads := entry.1.reads_comparison .eq number (arithmetic_numeralItems _)
    (number?_numeralItems _)
  have same : Relation.eq.holds (valuation entry.1 - entry.2.toInt) =
      (valuation entry.1 == entry.2.toInt) := by
    rw [Relation.holds, Bool.eq_iff_iff, beq_iff_eq, beq_iff_eq, sub_eq_zero]
  rw [same] at reads
  simpa [equation, Relation.sign] using reads

/-- The text of the clause that excludes a model. -/
def clauseText (model : Model) : String :=
  "(NOT (" ++ String.intercalate " AND " (model.map equation) ++ "))"

theorem reads_clauseText {model : Model} (nonempty : model ≠ []) :
    Reads valuation false model.clauseText.toList [.truth (!model.agrees valuation)]
      (model.map Prod.fst) := by
  have equations : Reads valuation false
      (String.intercalate " AND " (model.map equation)).toList
      (joined "AND" (model.map fun entry => valuation entry.1 == entry.2.toInt))
      (model.map Prod.fst) := by
    rw [String.toList_intercalate, List.map_map, joined, List.map_map,
      List.map_eq_flatMap (f := Prod.fst)]
    exact (Reads.keyword valuation " AND " "AND" (by decide)).intercalate fun entry _ =>
      reads_equation entry
  have agreement := equations.closedTruth (truth?_joined_and (by simpa using nonempty))
  have negation := Reads.keyword valuation "NOT " "NOT" (by decide)
  have negated := (negation.append agreement (by simp)).closedTruth rfl
  simpa [clauseText, agrees, List.all_map, Function.comp_def] using negated

theorem filterMap_exclusion? (models : List Model) :
    models.filterMap exclusion? =
      (models.filter fun model => !model.isEmpty).map clauseText := by
  induction models with
  | nil => rfl
  | cons model rest ih =>
      cases model with
      | nil => simpa [exclusion?] using ih
      | cons entry others => simp [exclusion?, clauseText, ih]

end Model

/-- A valuation differs from every model that is excluded. -/
def Model.excludes (valuation : Variable → Int) (models : List Model) : Bool :=
  models.all fun model => model.isEmpty || !model.agrees valuation

/-- A printed exclusion is read as it is meant; if nothing is printed, nothing is excluded. -/
theorem Problem.reads_exclusion? (valuation : Variable → Int) (models : List Model) :
    match exclusion? models with
    | none => Model.excludes valuation models = true
    | some text => ∃ items, Reads valuation true text.toList items (names text.toList) ∧
        truth? items = some (Model.excludes valuation models) := by
  have sameFilter : Model.excludes valuation models =
      (models.filter fun model => !model.isEmpty).all fun model => !model.agrees valuation := by
    rw [Model.excludes, List.all_filter]
    exact all_congr_of_mem fun model _ => by simp
  rw [exclusion?, Model.filterMap_exclusion?, sameFilter]
  cases kept : models.filter fun model => !model.isEmpty with
  | nil => rfl
  | cons first rest =>
      have clauses : Reads valuation false
          (String.intercalate " AND " ((first :: rest).map Model.clauseText)).toList
          (joined "AND" ((first :: rest).map fun model => !model.agrees valuation))
          ((first :: rest).flatMap fun model => model.map Prod.fst) := by
        rw [String.toList_intercalate, List.map_map, joined, List.map_map]
        apply (Reads.keyword valuation " AND " "AND" (by decide)).intercalate
        intro model member
        rw [← kept] at member
        apply Model.reads_clauseText
        simpa using (List.mem_filter.mp member).2
      refine ⟨_, clauses.named.symm ▸ clauses.weaken, ?_⟩
      rw [truth?_joined_and (by simp), List.all_map]
      rfl

theorem Formula.names_text (formula : Formula) :
    names formula.text.toList = formula.vars Empty.elim := by
  rcases formula.reads_text fun _ => 0 with ⟨items, reads, _⟩
  exact reads.named

/-! ### Texts with one meaning -/

/-- Read as a text of the presentation language, what is printed has the truth of the formula. -/
theorem Formula.meaning?_text (valuation : Variable → Int) (formula : Formula) :
    meaning? valuation (lexemes formula.text.toList) =
      some (formula.holdsAt valuation Empty.elim) := by
  rcases formula.reads_text valuation with ⟨items, reads, isTruth⟩
  rw [meaning?_lexemes reads, isTruth]

namespace PathCondition

/-- Two conditions that are printed alike in a layer are true of the same integers in that layer. The
printer leaves out outer parentheses and the zero constant, prints a combination without members
like a truth value, and shows no connective for a single member, but it never prints two things of
different truth alike. -/
theorem holdsAt_lower_of_text_eq {layer : Layer} {assignment : Assignment} {lexicon : Lexicon}
    {first second : PathCondition}
    (printedAlike : (first.lower layer assignment lexicon).text =
      (second.lower layer assignment lexicon).text) (valuation : Variable → Int) :
    (first.lower layer assignment lexicon).holdsAt valuation Empty.elim =
      (second.lower layer assignment lexicon).holdsAt valuation Empty.elim := by
  apply Option.some.inj
  calc some ((first.lower layer assignment lexicon).holdsAt valuation Empty.elim)
      = meaning? valuation (lexemes (first.lower layer assignment lexicon).text.toList) :=
        (Formula.meaning?_text valuation _).symm
    _ = meaning? valuation (lexemes (second.lower layer assignment lexicon).text.toList) := by
        rw [printedAlike]
    _ = some ((second.lower layer assignment lexicon).holdsAt valuation Empty.elim) :=
        Formula.meaning?_text valuation _

/-- A test of a text beside a combination without members, in a disjunction of one member. -/
def disguisedTest : PathCondition :=
  .anyOf [.allOf [.test true { kind := .endsWith, subject := .input 2 3, pattern := .literal ⟨0⟩ },
    .anyOf []]]

/-- What the lengths must be for it, in a conjunction of one member. -/
def disguisedLengths : PathCondition :=
  .allOf [.allOf [.linear ((Linear.ofVar (.int 3)).plusConstant (-2)) .ge, .truth]]

theorem disguised_holdsAt_lower :
    disguisedTest.lower .integers ∅ (.ofTexts ["ab"]) ≠
        disguisedLengths.lower .integers ∅ (.ofTexts ["ab"]) ∧
      (disguisedTest.lower .integers ∅ (.ofTexts ["ab"])).text =
        "((x3*(1)+(-2) >= 0) AND ( TRUE ))" ∧
      (disguisedLengths.lower .integers ∅ (.ofTexts ["ab"])).text =
        "((x3*(1)+(-2) >= 0) AND ( TRUE ))" ∧
      ∀ valuation, (disguisedTest.lower .integers ∅ (.ofTexts ["ab"])).holdsAt valuation Empty.elim =
        (disguisedLengths.lower .integers ∅ (.ofTexts ["ab"])).holdsAt valuation Empty.elim :=
  ⟨by decide +kernel, by decide +kernel, by decide +kernel,
    holdsAt_lower_of_text_eq (by decide +kernel)⟩

end PathCondition

end Concolic
