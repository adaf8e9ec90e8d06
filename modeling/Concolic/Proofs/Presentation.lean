import Mathlib
import Concolic.Proofs.Numeral
import Concolic.Relation

/-!
# What a formula text says

A solver is given text, so what it promises has to be said about texts. This file reads the part of
the solver's presentation language that queries are written in: declarations of integers, assertions
and a final check, over sums, products, comparisons and the connectives. The reading is independent
of the printer: it cuts a text into commands and lexemes, and evaluates what stands between
parentheses from the inside out under a valuation of the variables.

`Presentation.Satisfies` says that a valuation satisfies every assertion of a text and its check, and
`Presentation.declared` lists the variables that the text declares. A text that is not of this form
is satisfied by nothing. `Presentation.names` lists the variables that occur in a text, wherever it
may be.

Lexemes are read from right to left, with one list of items for every parenthesis that is still
open. `Reads` states that a piece of text keeps its lexemes, whatever follows it, and what these
contribute: items to the innermost list, and the variables that they name. So what longer texts say
and name is put together from their parts.
-/

namespace Concolic.Presentation

/-- How a character takes part in a lexeme. -/
inductive Shape where
  | blank
  /-- Part of a word or number. -/
  | wordy
  /-- Part of a relation sign. -/
  | relational
  /-- A lexeme of its own. -/
  | single
  deriving DecidableEq, Repr

/-- The shape of a character. -/
def shape (character : Char) : Shape :=
  if Text.isBlank character then .blank
  else if character.isAlphanum || character == '_' then .wordy
  else if ['<', '>', '=', '/'].contains character then .relational
  else .single

/-- Puts a character before the first lexeme. -/
def extendFirst (character : Char) : List (List Char) → List (List Char)
  | [] => [[character]]
  | first :: others => (character :: first) :: others

/-- The lexemes of a text: words, relation signs and single characters, without the blanks. -/
def lexemes : List Char → List (List Char)
  | [] => []
  | character :: rest =>
      match shape character with
      | .blank => lexemes rest
      | .single => [character] :: lexemes rest
      | own =>
          if rest.head?.map shape = some own then extendFirst character (lexemes rest)
          else [character] :: lexemes rest

/-- What a lexeme, or a text between parentheses, stands for. -/
inductive Item where
  | number (value : Int)
  | truth (value : Bool)
  | sign (lexeme : List Char)
  deriving DecidableEq, Repr

/-- The item of a lexeme under a valuation. -/
def item (valuation : Variable → Int) (lexeme : List Char) : Item :=
  if lexeme = "TRUE".toList then .truth true
  else if lexeme = "FALSE".toList then .truth false
  else
    match Numeral.natural? lexeme with
    | some value => .number value
    | none =>
        match Variable.ofNameChars? lexeme with
        | some var => .number (valuation var)
        | none => .sign lexeme

/-- Adds up the rest of a sum, where the last product is still open. -/
def addUp (total product : Int) : List Item → Option Int
  | [] => some (total + product)
  | .sign ['*'] :: .number factor :: rest => addUp total (product * factor) rest
  | .sign ['+'] :: .number summand :: rest => addUp (total + product) summand rest
  | .sign ['-'] :: .number summand :: rest => addUp (total + product) (-summand) rest
  | _ => none

/-- The value of items that form a sum of products. -/
def number? : List Item → Option Int
  | .number first :: rest => addUp 0 first rest
  | .sign ['-'] :: .number first :: rest => addUp 0 (-first) rest
  | _ => none

/-- The relation that an item stands for. -/
def relation? : Item → Option Relation
  | .sign lexeme =>
      [Relation.eq, .ne, .le, .lt, .ge, .gt].find? fun relation => relation.sign.toList = lexeme
  | _ => none

/-- Cuts items at the first relation sign. -/
def cut? : List Item → Option (List Item × Relation × List Item)
  | [] => none
  | first :: rest =>
      match relation? first with
      | some relation => some ([], relation, rest)
      | none => (cut? rest).map fun (left, relation, right) => (first :: left, relation, right)

/-- The truth of a comparison of two sums. -/
def comparison? (items : List Item) : Option Bool :=
  (cut? items).bind fun (left, relation, right) =>
    (number? left).bind fun first =>
      (number? right).map fun second => relation.holds (first - second)

/-- The truth of items without `AND` and `OR`. -/
def literal? : List Item → Option Bool
  | .sign word :: rest =>
      if word = "NOT".toList then (literal? rest).map (!·) else comparison? (.sign word :: rest)
  | [.truth value] => some value
  | items => comparison? items

/-- The pieces of a list of items between the given signs. -/
def pieces (separator : List Char) : List Item → List (List Item)
  | [] => [[]]
  | first :: rest =>
      if first = .sign separator then [] :: pieces separator rest
      else
        match pieces separator rest with
        | [] => [[first]]
        | piece :: others => (first :: piece) :: others

/-- The truth of items without `OR`. -/
def conjunction? (items : List Item) : Option Bool :=
  ((pieces "AND".toList items).mapM literal?).map fun values => values.all id

/-- The truth of items; `NOT` binds tighter than `AND`, and that tighter than `OR`. -/
def truth? (items : List Item) : Option Bool :=
  ((pieces "OR".toList items).mapM conjunction?).map fun values => values.any id

/-- The item of a text between parentheses. Items that form neither a truth nor a number make a sign
that nothing uses. -/
def close (items : List Item) : Item :=
  match truth? items with
  | some value => .truth value
  | none =>
      match number? items with
      | some value => .number value
      | none => .sign []

/-- Puts items before those of the innermost level. -/
def push (items : List Item) : List (List Item) → List (List Item)
  | [] => []
  | level :: outer => (items ++ level) :: outer

/-- Reads one more lexeme, to the left of what was read. -/
def shift (valuation : Variable → Int) (lexeme : List Char) (levels : List (List Item)) :
    List (List Item) :=
  if lexeme = [')'] then [] :: levels
  else if lexeme = ['('] then
    match levels with
    | [] => []
    | level :: outer => push [close level] outer
  else push [item valuation lexeme] levels

/-- The truth of a formula, given by its lexemes. -/
def meaning? (valuation : Variable → Int) (formula : List (List Char)) : Option Bool :=
  match formula.foldr (shift valuation) [[]] with
  | [level] => truth? level
  | _ => none

/-- A command of a text. -/
inductive Command where
  | declare (var : Variable)
  /-- The formula of an assertion or a check. -/
  | demand (formula : List (List Char))
  /-- Nothing, or the wish for a model. -/
  | neutral
  | unknown
  deriving DecidableEq, Repr

/-- The command that lexemes form. -/
def command : List (List Char) → Command
  | [] => .neutral
  | word :: rest =>
      if word = "ASSERT".toList ∨ word = "CHECKSAT".toList then .demand rest
      else if word = "COUNTERMODEL".toList ∧ rest = [] then .neutral
      else if rest = [":".toList, "INT".toList] then
        match Variable.ofNameChars? word with
        | some var => .declare var
        | none => .unknown
      else .unknown

/-- The commands of a text, each of which ends in a semicolon. -/
def commands (text : List Char) : List Command :=
  (Text.splitWhere (· == ';') text).map fun piece => command (lexemes piece)

/-- Whether a valuation makes a command true. -/
def Command.holds (valuation : Variable → Int) : Command → Bool
  | .declare _ | .neutral => true
  | .demand formula => meaning? valuation formula = some true
  | .unknown => false

/-- The variable that a command declares. -/
def Command.declared? : Command → Option Variable
  | .declare var => some var
  | _ => none

/-- A valuation satisfies every assertion of a text and its check. -/
def Satisfies (valuation : Variable → Int) (text : String) : Prop :=
  ∀ command ∈ commands text.toList, command.holds valuation = true

instance (valuation : Variable → Int) (text : String) : Decidable (Satisfies valuation text) :=
  inferInstanceAs (Decidable (∀ command ∈ commands text.toList, command.holds valuation = true))

/-- The variables that a text declares. -/
def declared (text : String) : List Variable :=
  (commands text.toList).filterMap Command.declared?

/-- The lexemes of what stands between semicolons. -/
def statements (text : List Char) : List (List (List Char)) :=
  (Text.splitWhere (· == ';') text).map lexemes

/-- What lexemes assert, if they are those of an assertion. -/
def asserted? : List (List Char) → Option (List (List Char))
  | [] => none
  | word :: rest => if word = "ASSERT".toList then some rest else none

/-- The formulas that a text asserts. -/
def assertions (text : List Char) : List (List (List Char)) :=
  (statements text).filterMap asserted?

/-- The variables among lexemes. -/
def namedBy (words : List (List Char)) : List Variable :=
  words.filterMap Variable.ofNameChars?

/-- The variables named in a text, in its order. -/
def names (text : List Char) : List Variable :=
  namedBy (lexemes text)

/-! ### Reading the parts of a text -/

variable {valuation : Variable → Int}

/-- A text does not start inside a word. -/
def StartsApart (text : List Char) : Prop :=
  text.head?.map shape ≠ some .wordy

theorem startsApart_cons {character : Char} (apart : shape character ≠ .wordy)
    {rest : List Char} : StartsApart (character :: rest) := by
  simpa [StartsApart] using apart

/-- A piece of text keeps its lexemes, whatever follows it; if it may end in a word, then what
follows must stand apart. They contribute the given items and name the given variables. -/
structure Reads (valuation : Variable → Int) (endsInWord : Bool) (piece : List Char)
    (items : List Item) (vars : List Variable) : Prop where
  cut : ∀ rest, (endsInWord = true → StartsApart rest) →
    lexemes (piece ++ rest) = lexemes piece ++ lexemes rest
  shifted : ∀ levels, (lexemes piece).foldr (shift valuation) levels = push items levels
  named : names piece = vars
  clean : ';' ∉ piece

@[simp]
theorem push_nil (levels : List (List Item)) : push [] levels = levels := by
  cases levels <;> rfl

@[simp]
theorem push_push (first second : List Item) (levels : List (List Item)) :
    push first (push second levels) = push (first ++ second) levels := by
  cases levels <;> simp [push]

theorem namedBy_append (first second : List (List Char)) :
    namedBy (first ++ second) = namedBy first ++ namedBy second :=
  List.filterMap_append

variable {endsInWord restEndsInWord : Bool} {piece first second : List Char}
  {items firstItems secondItems : List Item} {vars firstVars secondVars : List Variable}

theorem Reads.append (firstReads : Reads valuation endsInWord first firstItems firstVars)
    (secondReads : Reads valuation restEndsInWord second secondItems secondVars)
    (apart : endsInWord = true → second ≠ [] ∧ StartsApart second) :
    Reads valuation restEndsInWord (first ++ second) (firstItems ++ secondItems)
      (firstVars ++ secondVars) := by
  have joins (rest : List Char) :
      lexemes (first ++ (second ++ rest)) = lexemes first ++ lexemes (second ++ rest) := by
    apply firstReads.cut
    intro ends
    obtain ⟨nonempty, startsApart⟩ := apart ends
    obtain ⟨head, tail, rfl⟩ := List.exists_cons_of_ne_nil nonempty
    exact startsApart
  have both : lexemes (first ++ second) = lexemes first ++ lexemes second := by
    simpa using joins []
  constructor
  · intro rest restApart
    rw [List.append_assoc, joins, secondReads.cut rest restApart, both, List.append_assoc]
  · intro levels
    rw [both, List.foldr_append, secondReads.shifted, firstReads.shifted, push_push]
  · rw [names, both, namedBy_append, ← names, ← names, firstReads.named, secondReads.named]
  · rw [List.mem_append, not_or]
    exact ⟨firstReads.clean, secondReads.clean⟩

/-- A reading of a piece that stands apart from what follows is one that ends in a word. -/
theorem Reads.weaken (reads : Reads valuation endsInWord piece items vars) :
    Reads valuation true piece items vars where
  cut rest apart := reads.cut rest fun _ => apart rfl
  shifted := reads.shifted
  named := reads.named
  clean := reads.clean

theorem Reads.nil (valuation : Variable → Int) : Reads valuation false [] [] [] where
  cut _ _ := rfl
  shifted _ := (push_nil _).symm
  named := rfl
  clean := by simp

/-- A word is one lexeme. -/
theorem lexemes_word {word rest : List Char} (nonempty : word ≠ [])
    (allWordy : ∀ character ∈ word, shape character = .wordy) (apart : StartsApart rest) :
    lexemes (word ++ rest) = word :: lexemes rest := by
  induction word with
  | nil => exact absurd rfl nonempty
  | cons first others ih =>
      have firstWordy := allWordy first List.mem_cons_self
      cases others with
      | nil =>
          rw [List.singleton_append, lexemes, firstWordy]
          exact if_neg apart
      | cons second more =>
          have secondWordy := allWordy second (by simp)
          have restReads := ih (by simp) fun character member =>
            allWordy character (List.mem_cons_of_mem _ member)
          rw [List.cons_append, lexemes, firstWordy, restReads]
          simp [secondWordy, extendFirst]

theorem Reads.word {word : List Char} (nonempty : word ≠ [])
    (allWordy : ∀ character ∈ word, shape character = .wordy) :
    Reads valuation true word [item valuation word] (Variable.ofNameChars? word).toList := by
  have isLexeme : lexemes word = [word] := by
    have endApart : StartsApart [] := by simp [StartsApart]
    simpa [lexemes] using lexemes_word nonempty allWordy endApart
  constructor
  · intro rest apart
    rw [lexemes_word nonempty allWordy (apart rfl), isLexeme, List.singleton_append]
  · intro levels
    have noClosing : word ≠ [')'] := by
      rintro rfl
      exact absurd (allWordy ')' List.mem_cons_self) (by decide)
    have noOpening : word ≠ ['('] := by
      rintro rfl
      exact absurd (allWordy '(' List.mem_cons_self) (by decide)
    simp only [isLexeme, List.foldr_cons, List.foldr_nil, shift, if_neg noClosing,
      if_neg noOpening]
  · rw [names, isLexeme, namedBy, List.filterMap_cons]
    cases Variable.ofNameChars? word <;> rfl
  · intro member
    exact absurd (allWordy ';' member) (by decide)

/-- A text between parentheses is one item. -/
theorem Reads.parenthesised (reads : Reads valuation endsInWord piece items vars) :
    Reads valuation false ('(' :: (piece ++ [')'])) [close items] vars := by
  have lexemes_eq (rest : List Char) : lexemes ('(' :: (piece ++ [')']) ++ rest) =
      ['('] :: (lexemes piece ++ [')'] :: lexemes rest) := by
    have inside := reads.cut (')' :: rest) fun _ => startsApart_cons (by decide)
    have opening (text : List Char) : lexemes ('(' :: text) = ['('] :: lexemes text := rfl
    rw [List.cons_append, List.append_assoc, List.singleton_append, opening, inside]
    rfl
  have alone : lexemes ('(' :: (piece ++ [')'])) = ['('] :: (lexemes piece ++ [[')']]) := by
    simpa [lexemes] using lexemes_eq []
  constructor
  · intro rest _
    rw [lexemes_eq, alone]
    simp
  · intro levels
    rw [alone, List.foldr_cons, List.foldr_append, reads.shifted]
    simp [shift, push]
  · rw [names, alone, ← reads.named]
    have closing : namedBy [[')']] = [] := rfl
    calc namedBy (['('] :: (lexemes piece ++ [[')']]))
        = namedBy (lexemes piece ++ [[')']]) := rfl
      _ = names piece := by rw [namedBy_append, closing, List.append_nil, names]
  · simpa using reads.clean

theorem Reads.blank (valuation : Variable → Int) : Reads valuation false [' '] [] [] where
  cut _ _ := rfl
  shifted _ := (push_nil _).symm
  named := rfl
  clean := by decide

/-- An arithmetic sign is an item of its own. -/
theorem Reads.operator {operator : Char} (isOperator : operator ∈ ['+', '-', '*']) :
    Reads valuation false [operator] [.sign [operator]] [] := by
  fin_cases isOperator <;> exact ⟨fun _ _ => rfl, fun _ => rfl, rfl, by decide⟩

theorem Reads.relation (valuation : Variable → Int) (relation : Relation) :
    Reads valuation false (' ' :: (relation.sign.toList ++ [' '])) [.sign relation.sign.toList]
      [] := by
  cases relation <;> exact ⟨fun _ _ => rfl, fun _ => rfl, rfl, by decide⟩

/-- The words that stand before or between formulas, with the blanks around them. -/
def keywords : List (String × String) :=
  [(" AND ", "AND"), (" OR ", "OR"), ("NOT ", "NOT"), ("ASSERT ", "ASSERT"),
    ("CHECKSAT ", "CHECKSAT")]

theorem Reads.keyword (valuation : Variable → Int) (text word : String)
    (isKeyword : (text, word) ∈ keywords) :
    Reads valuation false text.toList [.sign word.toList] [] := by
  simp only [keywords, List.mem_cons, Prod.mk.injEq, List.not_mem_nil, or_false] at isKeyword
  rcases isKeyword with ⟨rfl, rfl⟩ | ⟨rfl, rfl⟩ | ⟨rfl, rfl⟩ | ⟨rfl, rfl⟩ | ⟨rfl, rfl⟩ <;>
    exact ⟨fun _ _ => rfl, fun _ => rfl, rfl, by decide⟩

theorem Reads.constant (value : Bool) :
    Reads valuation false (if value then " TRUE " else " FALSE ").toList [.truth value] [] := by
  cases value <;> exact ⟨fun _ _ => rfl, fun _ => rfl, rfl, by decide⟩

end Concolic.Presentation
