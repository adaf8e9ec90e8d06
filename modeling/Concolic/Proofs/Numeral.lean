import Mathlib
import Concolic.Text.Blank
import Concolic.Variable

/-!
# Numerals and names read back

What is written as a numeral is read as the same number, also in an input line with blanks around
it, and the name of a variable is read as that variable. Numerals and names hold no blank and no
punctuation, so they can be found again in a longer text.
-/

namespace Concolic

namespace Numeral

theorem isDigit_of_mem_digits {character : Char} {value : Nat}
    (member : character ∈ digits value) : isDigit character = true := by
  have isDigit := Nat.isDigit_of_mem_toDigits (by decide) (by decide) member
  simpa [Char.isDigit, Numeral.isDigit, Char.le_def] using isDigit

theorem digits_ne_nil (value : Nat) : digits value ≠ [] :=
  Nat.toDigits_ne_nil

@[simp]
theorem ofDigits_digits (value : Nat) : ofDigits (digits value) = value :=
  Nat.ofDigitChars_toDigits (by decide) (by decide)

@[simp]
theorem natural?_digits (value : Nat) : natural? (digits value) = some value := by
  have nonempty : (digits value).isEmpty = false := by simp [digits_ne_nil]
  have allDigits : (digits value).all isDigit = true :=
    List.all_eq_true.mpr fun _ member => isDigit_of_mem_digits member
  simp [natural?, nonempty, allDigits]

/-- A text of digits starts with no sign. -/
theorem exists_digits_eq_cons (value : Nat) :
    ∃ first rest, digits value = first :: rest ∧ isDigit first = true := by
  obtain ⟨first, rest, split⟩ := List.exists_cons_of_ne_nil (digits_ne_nil value)
  have member : first ∈ digits value := by simp [split]
  exact ⟨first, rest, split, isDigit_of_mem_digits member⟩

@[simp]
theorem unsigned?_digits (value : Nat) : unsigned? (digits value) = some value := by
  obtain ⟨first, rest, split, isDigit⟩ := exists_digits_eq_cons value
  have reads := natural?_digits value
  rw [split] at reads ⊢
  unfold unsigned?
  split
  · rename_i same
    cases same
    simp [Numeral.isDigit] at isDigit
  · exact reads

theorem signed?_ofInt (value : Int) : signed? (ofInt value) = some value := by
  cases value with
  | ofNat magnitude =>
      obtain ⟨first, rest, split, isDigit⟩ := exists_digits_eq_cons magnitude
      have reads := natural?_digits magnitude
      rw [ofInt, split]
      rw [split] at reads
      unfold signed?
      split
      · rename_i same
        cases same
        simp [Numeral.isDigit] at isDigit
      · rename_i same
        cases same
        simp [Numeral.isDigit] at isDigit
      · simp [reads]
  | negSucc predecessor =>
      simp [ofInt, signed?]
      omega

theorem uint32?_digits (value : UInt32) : uint32? (digits value.toNat) = some value := by
  have bound : value.toNat < UInt32.size := value.toNat_lt
  simp [uint32?, bound]

theorem int32?_ofInt {value : Int} (low : -2 ^ 31 ≤ value) (high : value < 2 ^ 31) :
    int32? (ofInt value) = some (Int32.ofInt value) := by
  have inside : within int32Range.1 int32Range.2 value = true := by
    simp only [within, int32Range, Bool.and_eq_true]
    exact ⟨decide_eq_true (by omega), decide_eq_true (by omega)⟩
  simp [int32?, signed?_ofInt, inside]

theorem int64?_ofInt (value : Int64) : int64? (ofInt value.toInt) = some value := by
  have low := value.le_toInt
  have high := value.toInt_lt
  have inside : within int64Range.1 int64Range.2 value.toInt = true := by
    simp only [within, int64Range, Bool.and_eq_true]
    exact ⟨decide_eq_true (by omega), decide_eq_true (by omega)⟩
  simp [int64?, signed?_ofInt, inside]

/-- The characters of a numeral are digits, but for a sign. -/
theorem mem_ofInt {character : Char} {value : Int} (member : character ∈ ofInt value) :
    character = '-' ∨ isDigit character = true := by
  cases value with
  | ofNat magnitude => exact .inr (isDigit_of_mem_digits member)
  | negSucc predecessor => exact (List.mem_cons.mp member).imp_right isDigit_of_mem_digits

theorem toNat_of_isDigit {character : Char} (digit : isDigit character = true) :
    48 ≤ character.toNat ∧ character.toNat ≤ 57 := by
  simpa [isDigit, Char.le_def, UInt32.le_iff_toNat_le] using digit

theorem isBlank_eq_false_of_mem_ofInt {character : Char} {value : Int}
    (member : character ∈ ofInt value) : Text.isBlank character = false := by
  rcases mem_ofInt member with same | digit
  · rw [same]
    decide
  · have range := toNat_of_isDigit digit
    simp [Text.isBlank, Text.blankRanges]
    omega

theorem trim_ofInt (value : Int) : Text.trim (ofInt value) = ofInt value := by
  have keeps (text : List Char) (unblank : ∀ character ∈ text, Text.isBlank character = false) :
      text.dropWhile Text.isBlank = text := by
    cases text with
    | nil => rfl
    | cons first rest => simp [unblank first List.mem_cons_self]
  rw [Text.trim, keeps _ fun _ => isBlank_eq_false_of_mem_ofInt, keeps, List.reverse_reverse]
  intro character member
  exact isBlank_eq_false_of_mem_ofInt (List.mem_reverse.mp member)

end Numeral

namespace Variable

theorem splitUnderscores_eq_none {text : List Char} (clean : '_' ∉ text) :
    splitUnderscores text = none := by
  induction text with
  | nil => rfl
  | cons first rest ih =>
      rw [List.mem_cons, not_or] at clean
      unfold splitUnderscores
      split
      · rename_i same
        cases same
        exact absurd rfl clean.1
      · rename_i same
        cases same
        simp [ih clean.2]
      · rfl

theorem splitUnderscores_append {before : List Char} (clean : '_' ∉ before) (after : List Char) :
    splitUnderscores (before ++ '_' :: '_' :: after) = some (before, after) := by
  induction before with
  | nil => rfl
  | cons first rest ih =>
      rw [List.mem_cons, not_or] at clean
      rw [List.cons_append]
      unfold splitUnderscores
      split
      · rename_i same
        simp only [List.cons.injEq] at same
        exact absurd same.1.symm clean.1
      · rename_i same
        cases same
        simp [ih clean.2]
      · rename_i impossible
        simp at impossible

theorem underscore_not_mem_digits (value : Nat) : '_' ∉ Numeral.digits value := by
  intro member
  have := Numeral.isDigit_of_mem_digits member
  simp [Numeral.isDigit] at this

/-- The name of a variable is read as that variable. -/
theorem ofNameChars?_nameChars (var : Variable) : ofNameChars? var.nameChars = some var := by
  cases var with
  | int id =>
      simp only [nameChars, ofNameChars?,
        splitUnderscores_eq_none (underscore_not_mem_digits id.toNat), Numeral.uint32?_digits,
        Option.map_some]
  | char symbol index =>
      have split := splitUnderscores_append (underscore_not_mem_digits symbol.toNat)
        (Numeral.digits index.toNat)
      simp only [nameChars, ofNameChars?, List.append_assoc, List.cons_append, List.nil_append,
        split, Numeral.uint32?_digits]
      rfl

end Variable

end Concolic
