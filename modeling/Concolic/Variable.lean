import Concolic.Text.Numeral

/-!
# Variables

The solver reasons about integers only. A variable is either a whole input (`x3`: an integer input
or the length of a string input) or one character of a string input (`x3__0`: the code of its
first character). Variables are ordered with all whole inputs first, then the characters by symbol
and position; `rank` embeds this order into the natural numbers.
-/

namespace Concolic

/-- A variable of a solver formula. -/
inductive Variable where
  /-- An integer input or the length of a string input. -/
  | int (id : UInt32)
  /-- The character code at one position of a string input. -/
  | char (symbol index : UInt32)
  deriving DecidableEq, Repr

namespace Variable

/-- Position of a variable in the order of variables. -/
def rank : Variable → Nat
  | .int id => id.toNat
  | .char symbol index => 4294967296 * (symbol.toNat + 1) + index.toNat

instance : LT Variable where
  lt earlier later := earlier.rank < later.rank

theorem lt_iff {earlier later : Variable} : earlier < later ↔ earlier.rank < later.rank :=
  Iff.rfl

/-- Whether a variable comes before another one, found without computing ranks. -/
def isBefore : Variable → Variable → Bool
  | .int first, .int second => first < second
  | .int _, .char _ _ => true
  | .char _ _, .int _ => false
  | .char first position, .char second other =>
      first < second || (first = second && position < other)

theorem isBefore_iff {earlier later : Variable} : earlier.isBefore later = true ↔ earlier < later := by
  cases earlier with
  | int firstId =>
      cases later with
      | int secondId => simp [isBefore, lt_iff, rank, UInt32.lt_iff_toNat_lt]
      | char symbol index =>
          have := firstId.toNat_lt
          simp only [isBefore, lt_iff, rank, true_iff]
          omega
  | char firstSymbol firstIndex =>
      have := firstIndex.toNat_lt
      cases later with
      | int secondId =>
          have := secondId.toNat_lt
          simp only [isBefore, lt_iff, rank, Bool.false_eq_true, false_iff]
          omega
      | char secondSymbol secondIndex =>
          have := secondIndex.toNat_lt
          simp only [isBefore, lt_iff, rank, Bool.or_eq_true, Bool.and_eq_true, decide_eq_true_eq,
            UInt32.lt_iff_toNat_lt, ← UInt32.toNat_inj]
          omega

instance (earlier later : Variable) : Decidable (earlier < later) :=
  decidable_of_iff (earlier.isBefore later = true) isBefore_iff

theorem rank_injective {first second : Variable} (same : first.rank = second.rank) :
    first = second := by
  cases first with
  | int firstId =>
      cases second with
      | int secondId => exact congrArg int (UInt32.toNat_inj.mp same)
      | char symbol index =>
          have := firstId.toNat_lt
          simp only [rank] at same
          omega
  | char firstSymbol firstIndex =>
      cases second with
      | int secondId =>
          have := secondId.toNat_lt
          simp only [rank] at same
          omega
      | char secondSymbol secondIndex =>
          have := firstIndex.toNat_lt
          have := secondIndex.toNat_lt
          simp only [rank] at same
          have sameSymbol : firstSymbol.toNat = secondSymbol.toNat := by omega
          have sameIndex : firstIndex.toNat = secondIndex.toNat := by omega
          rw [UInt32.toNat_inj.mp sameSymbol, UInt32.toNat_inj.mp sameIndex]

theorem lt_trans {first second third : Variable} (before : first < second)
    (after : second < third) : first < third :=
  Nat.lt_trans before after

theorem lt_irrefl (var : Variable) : ¬var < var :=
  Nat.lt_irrefl _

/-- Of two variables neither of which comes first, both are the same. -/
theorem eq_of_not_lt {first second : Variable} (notBefore : ¬first < second)
    (notAfter : ¬second < first) : first = second :=
  rank_injective (Nat.le_antisymm (Nat.le_of_not_lt notAfter) (Nat.le_of_not_lt notBefore))

def isChar : Variable → Bool
  | .int _ => false
  | .char _ _ => true

/-- The name of a variable, character by character. -/
def nameChars : Variable → List Char
  | .int id => 'x' :: Numeral.digits id.toNat
  | .char symbol index =>
      'x' :: (Numeral.digits symbol.toNat ++ ['_', '_'] ++ Numeral.digits index.toNat)

/-- The name of a variable in formulas and stored forms. -/
def name (var : Variable) : String :=
  String.ofList var.nameChars

/-- Cuts a text at its first pair of underscores. -/
def splitUnderscores : List Char → Option (List Char × List Char)
  | '_' :: '_' :: rest => some ([], rest)
  | character :: rest =>
      (splitUnderscores rest).map fun (before, after) => (character :: before, after)
  | [] => none

def ofNameChars? : List Char → Option Variable
  | 'x' :: rest =>
      match splitUnderscores rest with
      | some (symbol, index) => do
          return .char (← Numeral.uint32? symbol) (← Numeral.uint32? index)
      | none => (Numeral.uint32? rest).map .int
  | _ => none

/-- Reads a variable name; the two numbers may have leading zeros and a plus sign. -/
def ofName? (name : String) : Option Variable :=
  ofNameChars? name.toList

end Variable

end Concolic
