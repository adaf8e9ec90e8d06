/-!
# Blank characters

Input lines are trimmed, and solver answers are cut into words, at the characters that Unicode
lists under `White_Space`. The property is given as a table of closed ranges, so membership is a
finite comparison of code points.
-/

namespace Concolic.Text

/-- The ranges of `White_Space`, in ascending order. -/
def blankRanges : List (Nat × Nat) :=
  [(0x09, 0x0D), (0x20, 0x20), (0x85, 0x85), (0xA0, 0xA0), (0x1680, 0x1680), (0x2000, 0x200A),
    (0x2028, 0x2029), (0x202F, 0x202F), (0x205F, 0x205F), (0x3000, 0x3000)]

def isBlank (character : Char) : Bool :=
  blankRanges.any fun (low, high) => low ≤ character.toNat && character.toNat ≤ high

/-- A text without the blanks at its two ends. -/
def trim (text : List Char) : List Char :=
  ((text.dropWhile isBlank).reverse.dropWhile isBlank).reverse

/-- The pieces of a text between the characters that satisfy a test; `n` separators make `n + 1`
pieces. -/
def splitWhere (separates : Char → Bool) : List Char → List (List Char)
  | [] => [[]]
  | character :: rest =>
      if separates character then
        [] :: splitWhere separates rest
      else
        match splitWhere separates rest with
        | [] => [[character]]
        | piece :: pieces => (character :: piece) :: pieces

/-- The maximal pieces of a text that hold no blank. -/
def words (text : List Char) : List (List Char) :=
  (splitWhere isBlank text).filter fun piece => !piece.isEmpty

theorem splitWhere_ne_nil (separates : Char → Bool) (text : List Char) :
    splitWhere separates text ≠ [] := by
  cases text with
  | nil => simp [splitWhere]
  | cons character rest =>
      simp only [splitWhere]
      split
      · simp
      · split <;> simp

theorem splitWhere_append {separates : Char → Bool} {separator : Char}
    (isSeparator : separates separator = true) (before after : List Char) :
    splitWhere separates (before ++ separator :: after) =
      splitWhere separates before ++ splitWhere separates after := by
  induction before with
  | nil => simp [splitWhere, isSeparator]
  | cons character rest ih =>
      rw [List.cons_append, splitWhere, splitWhere, ih]
      split
      · rfl
      · rcases List.exists_cons_of_ne_nil (splitWhere_ne_nil separates rest) with
          ⟨piece, pieces, isSplit⟩
        rw [isSplit]
        rfl

theorem splitWhere_of_forall {separates : Char → Bool} {text : List Char}
    (solid : ∀ character ∈ text, separates character = false) :
    splitWhere separates text = [text] := by
  induction text with
  | nil => rfl
  | cons character rest ih =>
      rw [splitWhere, ih fun other isOther => solid other (List.mem_cons_of_mem _ isOther),
        solid character List.mem_cons_self]
      rfl

theorem splitWhere_of_notMem {separator : Char} {text : List Char} (absent : separator ∉ text) :
    splitWhere (· == separator) text = [text] := by
  apply splitWhere_of_forall
  intro character member
  rw [beq_eq_false_iff_ne]
  rintro rfl
  exact absent member

end Concolic.Text
