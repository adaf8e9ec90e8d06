import Mathlib
import Concolic.Json.Parser
import Concolic.Json.Printer
import Concolic.Proofs.Numeral

/-!
# Printed values can be read

A value is printed over several lines or on one and read in two steps, first to tokens and then to a
value. Each step is followed separately, with the tokens of a value in between: a printed value is cut
into its tokens wherever it stands (`lexes_indented`, `lexes_compact`), and whatever arrays and
objects are open around it, its tokens are parsed to it (`parseValue_tokensOf`). What cannot be read
is told by `Printable`: numbers that are no integers of 64 bits, and values nested too deeply.
-/

namespace Concolic.Json

/-! ### Cutting a text into tokens -/

/-- More fuel finds the same tokens. -/
theorem tokenize_mono {fuel more : Nat} {text : List Char} {tokens : List Token}
    (found : tokenize fuel text = some tokens) (fewer : fuel ≤ more) :
    tokenize more text = some tokens := by
  induction fuel generalizing more text tokens with
  | zero =>
      cases text with
      | nil => simpa [tokenize] using found
      | cons first rest => simp [tokenize] at found
  | succ fuel ih =>
      rcases more with _ | more
      · omega
      cases text with
      | nil => simpa [tokenize] using found
      | cons first rest =>
          simp only [tokenize] at found ⊢
          split at found
          · rename_i isSpace
            rw [if_pos isSpace]
            exact ih found (by omega)
          · rename_i notSpace
            rw [if_neg notSpace]
            split at found
            · rename_i token later isNext
              rcases Option.map_eq_some_iff.mp found with ⟨others, isRest, rfl⟩
              rw [ih isRest (by omega)]
              rfl
            · cases found

theorem tokens?_cons_space {first : Char} {rest : List Char} (space : isSpace first = true) :
    tokens? (first :: rest) = tokens? rest := by
  simp [tokens?, tokenize, space]

theorem tokens?_of_nextToken? {first : Char} {rest later : List Char} {token : Token}
    {tokens : List Token} (notSpace : isSpace first = false)
    (isNext : nextToken? (first :: rest) = some (token, later))
    (shorter : later.length ≤ rest.length) (found : tokens? later = some tokens) :
    tokens? (first :: rest) = some (token :: tokens) := by
  simp [tokens?, tokenize, notSpace, isNext, tokenize_mono found shorter]

/-- A text does not go on with a number. -/
def StopsNumber (text : List Char) : Prop :=
  ∀ first, text.head? = some first →
    Concolic.Numeral.isDigit first = false ∧ first ≠ '.' ∧ first ≠ 'e' ∧ first ≠ 'E'

theorem stopsNumber_nil : StopsNumber [] := by
  intro first isFirst
  cases isFirst

/-- A piece of text gives the tokens, whatever follows it; if it may end in a number, then what
follows must stop the number. -/
def Lexes (endsInNumber : Bool) (piece : List Char) (tokens : List Token) : Prop :=
  ∀ rest remaining, (endsInNumber = true → StopsNumber rest) → tokens? rest = some remaining →
    tokens? (piece ++ rest) = some (tokens ++ remaining)

namespace Lexes

variable {endsInNumber laterEnds : Bool} {first second : List Char}
  {firstTokens secondTokens : List Token}

theorem append (firstLexes : Lexes false first firstTokens)
    (secondLexes : Lexes laterEnds second secondTokens) :
    Lexes laterEnds (first ++ second) (firstTokens ++ secondTokens) := by
  intro rest remaining stops found
  rw [List.append_assoc, List.append_assoc]
  exact firstLexes _ _ (by simp) (secondLexes rest remaining stops found)

/-- A number may stand before a piece that stops it. -/
theorem append_stop (firstLexes : Lexes endsInNumber first firstTokens)
    (secondLexes : Lexes laterEnds second secondTokens) (nonempty : second ≠ [])
    (stops : StopsNumber second) :
    Lexes laterEnds (first ++ second) (firstTokens ++ secondTokens) := by
  intro rest remaining laterStops found
  rw [List.append_assoc, List.append_assoc]
  apply firstLexes
  · rcases List.exists_cons_of_ne_nil nonempty with ⟨head, tail, rfl⟩
    intro _
    exact stops
  · exact secondLexes rest remaining laterStops found

theorem weaken (lexes : Lexes false first firstTokens) : Lexes true first firstTokens :=
  fun rest remaining _ found => lexes rest remaining (by simp) found

theorem nil : Lexes false [] [] :=
  fun _ _ _ found => found

theorem space {character : Char} (isSpace : isSpace character = true)
    (lexes : Lexes endsInNumber first firstTokens) :
    Lexes endsInNumber (character :: first) firstTokens := by
  intro rest remaining stops found
  rw [List.cons_append, tokens?_cons_space isSpace]
  exact lexes rest remaining stops found

/-- A piece that is one token. -/
theorem of_nextToken? {head : Char} {tail : List Char} {token : Token}
    (notSpace : isSpace head = false)
    (isNext : ∀ rest, (endsInNumber = true → StopsNumber rest) →
      nextToken? (head :: (tail ++ rest)) = some (token, rest)) :
    Lexes endsInNumber (head :: tail) [token] := by
  intro rest remaining stops found
  exact tokens?_of_nextToken? notSpace (isNext rest stops) (by simp) found

end Lexes

/-! ### Numbers -/

theorem someDigits?_append {digits rest : List Char} (nonempty : digits ≠ [])
    (allDigits : ∀ digit ∈ digits, Concolic.Numeral.isDigit digit = true)
    (stops : StopsNumber rest) :
    someDigits? (digits ++ rest) = some (digits, rest) := by
  have noMore : rest.takeWhile Concolic.Numeral.isDigit = [] ∧
      rest.dropWhile Concolic.Numeral.isDigit = rest := by
    cases rest with
    | nil => exact ⟨rfl, rfl⟩
    | cons head tail => simp [(stops head rfl).1]
  simp only [someDigits?, List.takeWhile_append_of_pos allDigits,
    List.dropWhile_append_of_pos allDigits, noMore, List.append_nil]

theorem head?_digits_ne_zero {value : Nat} (positive : 0 < value) :
    (Concolic.Numeral.digits value).head? ≠ some '0' := by
  induction value using Nat.strong_induction_on with
  | _ value ih =>
      rw [Concolic.Numeral.digits]
      by_cases small : value < 10
      · rw [Nat.toDigits_of_lt_base small]
        interval_cases value <;> decide
      · rw [Nat.toDigits_of_base_le (by decide) (by omega),
          List.head?_append_of_ne_nil _ Nat.toDigits_ne_nil]
        exact ih (value / 10) (by omega) (by omega)

theorem guard_digits (value : Nat) :
    ((Concolic.Numeral.digits value).length = 1 ||
      (Concolic.Numeral.digits value).head? ≠ some '0') = true := by
  rcases Nat.eq_zero_or_pos value with rfl | positive
  · rfl
  · simp [head?_digits_ne_zero positive]

/-- An integer as it is written. -/
def Numeral.ofDigits (negative : Bool) (magnitude : Nat) : Numeral where
  negative := negative
  whole := Concolic.Numeral.digits magnitude
  decimals := []
  exponent := none
  isWhole := true

/-- A whole number, with a sign or without, is taken up to what stops it. -/
theorem scanNumber_digits (negative : Bool) (value : Nat) {rest : List Char}
    (stops : StopsNumber rest) :
    scanNumber ((if negative then ['-'] else []) ++ (Concolic.Numeral.digits value ++ rest)) =
      some (.ofDigits negative value, rest) := by
  have scanned := someDigits?_append (Concolic.Numeral.digits_ne_nil value)
    (fun _ => Concolic.Numeral.isDigit_of_mem_digits) stops
  have isGuarded := guard_digits value
  rcases Concolic.Numeral.exists_digits_eq_cons value with ⟨first, others, isSplit, isDigit⟩
  unfold scanNumber
  split
  rename_i isNegative unsigned isSigned
  have signed : isNegative = negative ∧ unsigned = Concolic.Numeral.digits value ++ rest := by
    split at isSigned
    · rename_i tail isText
      cases isSigned
      cases negative with
      | true => exact ⟨rfl, (List.cons.inj isText).2.symm⟩
      | false =>
          rw [isSplit] at isText
          cases isText
          simp [Concolic.Numeral.isDigit] at isDigit
    · rename_i noMinus
      cases isSigned
      cases negative with
      | true => exact absurd rfl (noMinus _)
      | false => exact ⟨rfl, rfl⟩
  rcases signed with ⟨rfl, rfl⟩
  simp only [scanned, Option.bind_eq_bind, Option.bind_some, isGuarded, guard, if_true]
  cases rest with
  | nil => rfl
  | cons head tail =>
      rcases stops head rfl with ⟨_, noPoint, noExponent, noCapital⟩
      simp [Numeral.ofDigits, noPoint, noExponent, noCapital]

theorem nextToken?_of_number {head : Char} {tail : List Char}
    (starts : head = '-' ∨ Concolic.Numeral.isDigit head = true) :
    nextToken? (head :: tail) =
      (scanNumber (head :: tail)).map fun (numeral, rest) => (.number numeral.value?, rest) := by
  unfold nextToken?
  split
  case h_11 => rfl
  all_goals
    rename_i same
    cases same
    exact absurd starts (by decide)

/-- Integers that fit into 64 bits, with or without sign. -/
def Fits (value : Int) : Prop :=
  -2 ^ 63 ≤ value ∧ value < 2 ^ 64

theorem lexes_signed (negative : Bool) (magnitude : Nat) {value : Int}
    (isValue : (Numeral.ofDigits negative magnitude).value? = some (.integer value)) :
    Lexes true ((if negative then ['-'] else []) ++ Concolic.Numeral.digits magnitude)
      [.number (some (.integer value))] := by
  rcases Concolic.Numeral.exists_digits_eq_cons magnitude with ⟨digit, others, isSplit, isDigit⟩
  have starts : ∃ head tail, (if negative then ['-'] else []) ++ Concolic.Numeral.digits magnitude =
      head :: tail ∧ (head = '-' ∨ Concolic.Numeral.isDigit head = true) := by
    cases negative with
    | true => exact ⟨_, _, rfl, .inl rfl⟩
    | false => exact ⟨_, _, isSplit, .inr isDigit⟩
  rcases starts with ⟨head, tail, isWhole, starts⟩
  have notSpace : isSpace head = false := by
    rcases starts with rfl | isDigit
    · decide
    · rw [Bool.eq_false_iff]
      intro space
      simp only [isSpace, Bool.or_eq_true, decide_eq_true_eq] at space
      rcases space with ((rfl | rfl) | rfl) | rfl <;> exact absurd isDigit (by decide)
  rw [isWhole]
  apply Lexes.of_nextToken? notSpace
  intro rest stops
  rw [nextToken?_of_number starts, ← List.cons_append, ← isWhole, List.append_assoc,
    scanNumber_digits negative magnitude (stops rfl)]
  simp only [Option.map_some, isValue]

theorem lexes_number {value : Int} (fits : Fits value) :
    Lexes true (Number.integer value).text.toList [.number (some (.integer value))] := by
  have toList : (Number.integer value).text.toList = Concolic.Numeral.ofInt value := by
    simp [Number.text, Concolic.Numeral.text]
  rw [toList]
  rcases fits with ⟨low, high⟩
  cases value with
  | ofNat magnitude =>
      apply lexes_signed false
      have small : magnitude < UInt64.size := by
        simp only [Int.ofNat_eq_natCast] at high
        simp only [UInt64.size]
        omega
      simp [Numeral.value?, Numeral.ofDigits, small]
  | negSucc predecessor =>
      apply lexes_signed true
      have small : predecessor + 1 ≤ Nat.pow 2 63 := by
        simp only [Nat.pow_eq]
        omega
      simp [Numeral.value?, Numeral.ofDigits, small]
      omega

/-! ### Strings -/

theorem hexUnit?_hexChar {value : Nat} (small : value < 32) :
    hexUnit? '0' '0' (hexChar (value / 16)) (hexChar (value % 16)) = some value := by
  interval_cases value <;> rfl

/-- An escaped character is scanned as one piece that stands for it. -/
theorem scanString_escapeChar (character : Char) :
    ∃ piece : Piece, (∀ rest joined, joinPieces (piece :: rest) joined =
        joinPieces rest (character :: joined)) ∧
      ∀ rest pieces, scanString (escapeChar character ++ rest) pieces =
        scanString rest (piece :: pieces) := by
  unfold escapeChar
  split
  case h_8 =>
    rename_i noQuote noBackslash _ _ _ _ _
    split
    · rename_i isControl
      refine ⟨.unit character.toNat, ?_, ?_⟩
      · intro rest joined
        have noHigh : ¬(0xD800 ≤ character.toNat ∧ character.toNat < 0xDC00) := by omega
        have noLow : ¬(0xDC00 ≤ character.toNat ∧ character.toNat < 0xE000) := by omega
        conv_lhs => unfold joinPieces
        simp only [if_neg noHigh, if_neg noLow, Char.ofNat_toNat]
      · intro rest pieces
        simp only [List.cons_append, List.nil_append, scanString, hexUnit?_hexChar isControl]
    · rename_i notControl
      refine ⟨.char character, fun _ _ => rfl, ?_⟩
      intro rest pieces
      have plain : (character.toNat < 32 || character = '\\') = false := by
        simpa [notControl] using noBackslash
      rw [List.singleton_append, scanString]
      · rw [plain]
        rfl
      · exact noQuote
      · intro first second third fourth rest isEscape
        exact absurd isEscape noBackslash
      · intro letter rest isEscape
        exact absurd isEscape noBackslash
  case h_1 => exact ⟨.char '"', fun _ _ => rfl, fun _ _ => rfl⟩
  case h_2 => exact ⟨.char '\\', fun _ _ => rfl, fun _ _ => rfl⟩
  case h_3 => exact ⟨.char '\x08', fun _ _ => rfl, fun _ _ => rfl⟩
  case h_4 => exact ⟨.char '\x0c', fun _ _ => rfl, fun _ _ => rfl⟩
  case h_5 => exact ⟨.char '\n', fun _ _ => rfl, fun _ _ => rfl⟩
  case h_6 => exact ⟨.char '\r', fun _ _ => rfl, fun _ _ => rfl⟩
  case h_7 => exact ⟨.char '\t', fun _ _ => rfl, fun _ _ => rfl⟩

/-- The characters of a string are scanned as pieces that stand for them. -/
theorem scanString_flatMap (text : List Char) :
    ∃ pieces : List Piece, (∀ joined, joinPieces pieces joined = some (joined.reverse ++ text)) ∧
      ∀ rest before, scanString (text.flatMap escapeChar ++ rest) before =
        scanString rest (pieces.reverse ++ before) := by
  induction text with
  | nil => exact ⟨[], fun _ => by simp [joinPieces], fun _ _ => rfl⟩
  | cons character text ih =>
      rcases scanString_escapeChar character with ⟨piece, joins, scans⟩
      rcases ih with ⟨pieces, joinsAll, scansAll⟩
      refine ⟨piece :: pieces, ?_, ?_⟩
      · intro joined
        rw [joins, joinsAll]
        simp
      · intro rest before
        rw [List.flatMap_cons, List.append_assoc, scans, scansAll]
        simp

theorem lexes_quote (text : String) : Lexes false (quote text).toList [.string (some text)] := by
  rcases scanString_flatMap text.toList with ⟨pieces, joins, scans⟩
  have toList : (quote text).toList = '"' :: (text.toList.flatMap escapeChar ++ ['"']) := by
    simp [quote]
  rw [toList]
  apply Lexes.of_nextToken? (by decide)
  intro rest _
  have scanned : scanString (text.toList.flatMap escapeChar ++ ['"'] ++ rest) [] =
      some (pieces.reverse, rest) := by
    rw [List.append_assoc, scans]
    simp [scanString]
  simp only [nextToken?, scanned, Option.map_some, List.reverse_reverse, joins]
  simp

/-! ### Values -/

mutual

/-- The tokens of a value. -/
def tokensOf : Json → List Token
  | .null | .unreadable => [.null]
  | .bool value => [.bool value]
  | .number value => [.number (some value)]
  | .string text => [.string (some text)]
  | .array items => .openArray :: (List.intercalate [.comma] (itemTokens items) ++ [.closeArray])
  | .object members =>
      .openObject :: (List.intercalate [.comma] (memberTokens members) ++ [.closeObject])

/-- The tokens of each item. -/
def itemTokens : List Json → List (List Token)
  | [] => []
  | item :: rest => item.tokensOf :: itemTokens rest

/-- The tokens of each member. -/
def memberTokens : List (String × Json) → List (List Token)
  | [] => []
  | (name, value) :: rest => (.string (some name) :: .colon :: value.tokensOf) :: memberTokens rest

end

theorem itemTokens_eq_map (items : List Json) : itemTokens items = items.map tokensOf := by
  induction items with
  | nil => simp [itemTokens]
  | cons item rest ih => simp [itemTokens, ih]

theorem memberTokens_eq_map (members : List (String × Json)) :
    memberTokens members =
      members.map fun member => .string (some member.1) :: .colon :: member.2.tokensOf := by
  induction members with
  | nil => simp [memberTokens]
  | cons member rest ih => simp [memberTokens, ih]

theorem indentedItems_eq_map (depth : Nat) (items : List Json) :
    indentedItems depth items = items.map (indented depth) := by
  induction items with
  | nil => simp [indentedItems]
  | cons item rest ih => simp [indentedItems, ih]

theorem indentedMembers_eq_map (depth : Nat) (members : List (String × Json)) :
    indentedMembers depth members =
      members.map fun member => quote member.1 ++ ": " ++ member.2.indented depth := by
  induction members with
  | nil => simp [indentedMembers]
  | cons member rest ih => simp [indentedMembers, ih]

/-- Values whose text stands for them: integers fit into 64 bits, and nothing is nested deeper than
there is room. -/
inductive Printable : Nat → Json → Prop where
  | null {room : Nat} : Printable room .null
  | bool {room : Nat} {value : Bool} : Printable room (.bool value)
  | integer {room : Nat} {value : Int} (fits : Fits value) :
      Printable room (.number (.integer value))
  | string {room : Nat} {text : String} : Printable room (.string text)
  | array {room : Nat} {items : List Json} (each : ∀ item ∈ items, Printable room item) :
      Printable (room + 1) (.array items)
  | object {room : Nat} {members : List (String × Json)}
      (each : ∀ member ∈ members, Printable room member.2) : Printable (room + 1) (.object members)

theorem stopsNumber_cons {first : Char} {rest : List Char}
    (noDigit : Concolic.Numeral.isDigit first = false)
    (noPart : first ≠ '.' ∧ first ≠ 'e' ∧ first ≠ 'E') : StopsNumber (first :: rest) := by
  intro head isHead
  cases isHead
  exact ⟨noDigit, noPart⟩

theorem lexes_newline (depth : Nat) : Lexes false (newline depth).toList [] := by
  have blanks (count : Nat) : Lexes false (List.replicate count ' ') [] := by
    induction count with
    | zero => exact .nil
    | succ count ih => exact .space (by decide) ih
  have toList : (newline depth).toList = '\n' :: List.replicate (2 * depth) ' ' := by
    simp [newline]
  rw [toList]
  exact .space (by decide) (blanks _)

theorem Lexes.intercalate {α : Type} {separator : List Char} {separatorTokens : List Token}
    (lexesSeparator : Lexes false separator separatorTokens) (nonempty : separator ≠ [])
    (stops : StopsNumber separator) {text : α → List Char} {tokens : α → List Token}
    {members : List α}
    (each : ∀ member ∈ members, Lexes true (text member) (tokens member)) :
    Lexes true (List.intercalate separator (members.map text))
      (List.intercalate separatorTokens (members.map tokens)) := by
  induction members with
  | nil => exact Lexes.nil.weaken
  | cons first rest ih =>
      have lexesFirst := each first List.mem_cons_self
      have lexesRest := ih fun member isMember => each member (List.mem_cons_of_mem _ isMember)
      cases rest with
      | nil => simpa using lexesFirst
      | cons second more =>
          simp only [List.map_cons, List.intercalate_cons_cons, List.append_assoc] at lexesRest ⊢
          apply lexesFirst.append_stop (lexesSeparator.append lexesRest)
          · simp [nonempty]
          · rcases List.exists_cons_of_ne_nil nonempty with ⟨head, tail, rfl⟩
            exact stops

theorem lexes_null : Lexes false "null".toList [.null] :=
  .of_nextToken? (by decide) fun _ _ => rfl

theorem lexes_bool (value : Bool) :
    Lexes false (if value then "true" else "false").toList [.bool value] := by
  cases value with
  | true => exact .of_nextToken? (by decide) fun _ _ => rfl
  | false => exact .of_nextToken? (by decide) fun _ _ => rfl

/-- Parts between brackets, where a gap stands after the opening bracket and after every comma, and
another one before the closing bracket. -/
theorem lexes_enclosed {α : Type} {opening closing : Char} {openToken closeToken : Token}
    (opens : Lexes false [opening] [openToken]) (closes : Lexes false [closing] [closeToken])
    {gap lastGap : List Char} (lexesGap : Lexes false gap []) (lexesLast : Lexes false lastGap [])
    (stops : StopsNumber (lastGap ++ [closing])) {text : α → String} {tokens : α → List Token}
    {members : List α} (each : ∀ member ∈ members, Lexes true (text member).toList (tokens member)) :
    Lexes false (opening :: (gap ++ (List.intercalate (',' :: gap)
        (members.map fun member => (text member).toList) ++ (lastGap ++ [closing]))))
      (openToken :: (List.intercalate [.comma] (members.map tokens) ++ [closeToken])) := by
  have comma : Lexes false [','] [.comma] := .of_nextToken? (by decide) fun _ _ => rfl
  have isStop : StopsNumber (',' :: gap) := stopsNumber_cons (by decide) (by decide)
  have parts := Lexes.intercalate (comma.append lexesGap) (by simp) isStop each
  exact opens.append (lexesGap.append
    (parts.append_stop (lexesLast.append closes) (by simp) stops))

/-- Parts between brackets, one below the other. -/
theorem lexes_block {α : Type} (depth : Nat) {opening closing : Char} {openToken closeToken : Token}
    (opens : Lexes false [opening] [openToken]) (closes : Lexes false [closing] [closeToken])
    {text : α → String} {tokens : α → List Token} {members : List α}
    (each : ∀ member ∈ members, Lexes true (text member).toList (tokens member)) :
    Lexes false (block depth (String.singleton opening) (String.singleton closing)
        (members.map text)).toList
      (openToken :: (List.intercalate [.comma] (members.map tokens) ++ [closeToken])) := by
  have newlineStop : StopsNumber ((newline depth).toList ++ [closing]) := by
    simp only [newline, String.toList_append]
    exact stopsNumber_cons (by decide) (by decide)
  have whole := lexes_enclosed opens closes (lexes_newline (depth + 1)) (lexes_newline depth)
    newlineStop each
  simpa [block, String.toList_intercalate, Function.comp_def] using whole

theorem lexes_openArray : Lexes false ['['] [.openArray] :=
  .of_nextToken? (by decide) fun _ _ => rfl

theorem lexes_closeArray : Lexes false [']'] [.closeArray] :=
  .of_nextToken? (by decide) fun _ _ => rfl

theorem lexes_openObject : Lexes false ['\x7b'] [.openObject] :=
  .of_nextToken? (by decide) fun _ _ => rfl

theorem lexes_closeObject : Lexes false ['\x7d'] [.closeObject] :=
  .of_nextToken? (by decide) fun _ _ => rfl

theorem lexes_colon : Lexes false [':'] [.colon] :=
  .of_nextToken? (by decide) fun _ _ => rfl

/-- A printed value has its tokens. -/
theorem lexes_indented {room : Nat} {value : Json} (printable : Printable room value)
    (depth : Nat) :
    Lexes true (value.indented depth).toList value.tokensOf := by
  induction printable generalizing depth with
  | null =>
      simp only [indented, tokensOf]
      exact lexes_null.weaken
  | bool =>
      simp only [indented, tokensOf]
      exact (lexes_bool _).weaken
  | integer fits =>
      simp only [indented, tokensOf]
      exact lexes_number fits
  | @string _ text =>
      simp only [indented, tokensOf]
      exact (lexes_quote text).weaken
  | @array _ items each ih =>
      apply Lexes.weaken
      cases items with
      | nil => simpa [indented, tokensOf, itemTokens] using lexes_openArray.append lexes_closeArray
      | cons item rest =>
          simp only [indented, tokensOf, itemTokens_eq_map, indentedItems_eq_map]
          exact lexes_block depth lexes_openArray lexes_closeArray
            fun member isMember => ih member isMember (depth + 1)
  | @object _ members each ih =>
      have colon : Lexes false [':', ' '] [.colon] :=
        lexes_colon.append (.space (by decide) .nil)
      apply Lexes.weaken
      cases members with
      | nil => simpa [indented, tokensOf, memberTokens] using lexes_openObject.append lexes_closeObject
      | cons member rest =>
          simp only [indented, tokensOf, memberTokens_eq_map, indentedMembers_eq_map]
          apply lexes_block depth lexes_openObject lexes_closeObject
          intro member isMember
          have named := (lexes_quote member.1).append (colon.append (ih member isMember (depth + 1)))
          simpa using named

theorem compactItems_eq_map (items : List Json) : compactItems items = items.map compact := by
  induction items with
  | nil => simp [compactItems]
  | cons item rest ih => simp [compactItems, ih]

theorem compactMembers_eq_map (members : List (String × Json)) :
    compactMembers members =
      members.map fun member => quote member.1 ++ ":" ++ member.2.compact := by
  induction members with
  | nil => simp [compactMembers]
  | cons member rest ih => simp [compactMembers, ih]

/-- On one line, too, a printed value has its tokens. -/
theorem lexes_compact {room : Nat} {value : Json} (printable : Printable room value) :
    Lexes true value.compact.toList value.tokensOf := by
  induction printable with
  | null =>
      simp only [compact, tokensOf]
      exact lexes_null.weaken
  | bool =>
      simp only [compact, tokensOf]
      exact (lexes_bool _).weaken
  | integer fits =>
      simp only [compact, tokensOf]
      exact lexes_number fits
  | @string _ text =>
      simp only [compact, tokensOf]
      exact (lexes_quote text).weaken
  | @array _ items each ih =>
      have stops : StopsNumber [']'] := stopsNumber_cons (by decide) (by decide)
      have enclosed := lexes_enclosed lexes_openArray lexes_closeArray .nil .nil stops ih
      apply Lexes.weaken
      simpa [compact, tokensOf, compactItems_eq_map, itemTokens_eq_map, String.toList_intercalate,
        Function.comp_def] using enclosed
  | @object _ members each ih =>
      have stops : StopsNumber ['\x7d'] := stopsNumber_cons (by decide) (by decide)
      have named : ∀ member ∈ members,
          Lexes true (quote member.1 ++ ":" ++ member.2.compact).toList
            (.string (some member.1) :: .colon :: member.2.tokensOf) := by
        intro member isMember
        have named := (lexes_quote member.1).append (lexes_colon.append (ih member isMember))
        simpa using named
      have enclosed := lexes_enclosed lexes_openObject lexes_closeObject .nil .nil stops named
      apply Lexes.weaken
      simpa [compact, tokensOf, compactMembers_eq_map, memberTokens_eq_map,
        String.toList_intercalate, Function.comp_def] using enclosed

/-! ### Parsing -/

/-- The tokens of a value start with none that closes. -/
theorem tokensOf_ne_closeArray (value : Json) (rest later : List Token) :
    value.tokensOf ++ rest ≠ .closeArray :: later := by
  cases value <;> simp [tokensOf]

theorem closeObject_map_reverse (members : List (String × Json)) :
    closeObject (members.reverse.map fun member => (some member.1, member.2)) =
      .object members := by
  have all : (members.map fun member => (some member.1, member.2)).mapM
      (fun field : Option String × Json => field.1.map fun name => (name, field.2)) =
        some members := by
    induction members with
    | nil => rfl
    | cons member rest ih => simp [ih]
  rw [closeObject, List.map_reverse, List.reverse_reverse]
  split
  · rename_i found isFound
    rw [Option.some.inj (all.symm.trans isFound)]
  · rename_i isNone
    cases all.symm.trans isNone

variable {frames : List Frame}

/-- The items of an open array are read up to its end. -/
theorem afterValue_items (item : Json) (others before : List Json) (rest : List Token)
    (each : ∀ item ∈ others, ∀ before rest,
      parseValue (item.tokensOf ++ rest) (.array before :: frames) =
        afterValue item rest (.array before :: frames)) :
    afterValue item ((others.map tokensOf).flatMap (.comma :: ·) ++ .closeArray :: rest)
        (.array before :: frames) =
      afterValue (settle frames (.array (before.reverse ++ item :: others))) rest frames := by
  induction others generalizing item before with
  | nil => simp [afterValue]
  | cons next others ih =>
      have first := each next List.mem_cons_self
      have later := ih next (item :: before)
        fun item isItem => each item (List.mem_cons_of_mem _ isItem)
      simp only [List.map_cons, List.flatMap_cons, List.cons_append, List.append_assoc, afterValue]
      rw [first, later]
      simp

/-- The members of an open object are read up to its end. -/
theorem afterValue_members (member : String × Json) (others before : List (String × Json))
    (rest : List Token)
    (each : ∀ member ∈ others, ∀ members name rest,
      parseValue (member.2.tokensOf ++ rest) (.object members name :: frames) =
        afterValue member.2 rest (.object members name :: frames)) :
    afterValue member.2
        ((others.map fun member => .string (some member.1) :: .colon :: member.2.tokensOf).flatMap
          (.comma :: ·) ++ .closeObject :: rest)
        (.object (before.map fun member => (some member.1, member.2)) (some member.1) :: frames) =
      afterValue (settle frames (.object (before.reverse ++ member :: others))) rest frames := by
  induction others generalizing member before with
  | nil =>
      have closed := closeObject_map_reverse (before.reverse ++ [member])
      simp only [List.reverse_append, List.reverse_reverse, List.reverse_singleton,
        List.singleton_append, List.map_cons] at closed
      simp [afterValue, closed]
  | cons next others ih =>
      have first := each next List.mem_cons_self
      have later := ih next (member :: before)
        fun member isMember => each member (List.mem_cons_of_mem _ isMember)
      simp only [List.map_cons, List.flatMap_cons, List.cons_append, List.append_assoc, afterValue]
      rw [first]
      simp only [List.map_cons] at later
      rw [later]
      simp

theorem intercalate_cons_eq_flatMap {α : Type} (separator first : List α) (others : List (List α)) :
    List.intercalate separator (first :: others) = first ++ others.flatMap (separator ++ ·) := by
  induction others generalizing first with
  | nil => simp
  | cons second more ih =>
      rw [List.intercalate_cons_cons, ih]
      simp

theorem settle_of_room {room : Nat} (enough : frames.length + (room + 1) ≤ depthLimit)
    (value : Json) :
    settle frames value = value :=
  if_pos (by omega)

/-- The tokens of a value are parsed to it. -/
theorem parseValue_tokensOf {room : Nat} {value : Json} (printable : Printable room value)
    (enough : frames.length + room ≤ depthLimit) (rest : List Token) :
    parseValue (value.tokensOf ++ rest) frames = afterValue value rest frames := by
  induction printable generalizing frames rest with
  | null | bool | integer | string => simp [tokensOf, parseValue]
  | @array room items each ih =>
      have inside (frame : Frame) : (frame :: frames).length + room ≤ depthLimit := by
        rw [List.length_cons]
        omega
      cases items with
      | nil => simp [tokensOf, itemTokens, parseValue, settle_of_room enough]
      | cons item others =>
          have first := ih item List.mem_cons_self (inside (.array []))
          have later := afterValue_items item others [] rest fun other isOther before =>
            ih other (List.mem_cons_of_mem _ isOther) (inside (.array before))
          rw [settle_of_room enough] at later
          simp only [tokensOf, itemTokens_eq_map, List.map_cons, intercalate_cons_eq_flatMap,
            List.cons_append, List.append_assoc, List.nil_append]
          rw [parseValue]
          · rw [first]
            exact later
          · intro rest isClosed
            exact tokensOf_ne_closeArray item _ _ isClosed
  | @object room members each ih =>
      have inside (frame : Frame) : (frame :: frames).length + room ≤ depthLimit := by
        rw [List.length_cons]
        omega
      cases members with
      | nil => simp [tokensOf, memberTokens, parseValue, settle_of_room enough]
      | cons member others =>
          have first := ih member List.mem_cons_self (inside (.object [] (some member.1)))
          have later := afterValue_members member others [] rest fun other isOther members name =>
            ih other (List.mem_cons_of_mem _ isOther) (inside (.object members name))
          rw [settle_of_room enough] at later
          simp only [tokensOf, memberTokens_eq_map, List.map_cons, intercalate_cons_eq_flatMap,
            List.cons_append, List.append_assoc, List.nil_append]
          rw [parseValue, first]
          exact later

/-- A text that has the tokens of a value is parsed to it. -/
theorem parse?_of_lexes {value : Json} {text : String} (printable : Printable depthLimit value)
    (lexes : Lexes true text.toList value.tokensOf) : parse? text = some value := by
  have tokens := lexes [] [] (fun _ => stopsNumber_nil) rfl
  rw [List.append_nil, List.append_nil] at tokens
  have parsed : parseValue (value.tokensOf ++ []) [] = afterValue value [] [] :=
    parseValue_tokensOf printable (Nat.le_of_eq (Nat.zero_add _)) []
  rw [List.append_nil] at parsed
  simp only [parse?, tokens, Option.bind_some, parsed, afterValue]

/-- A printed value can be read. -/
theorem parse?_pretty {value : Json} (printable : Printable depthLimit value) :
    parse? value.pretty = some value :=
  parse?_of_lexes printable (lexes_indented printable 0)

theorem parse?_compact {value : Json} (printable : Printable depthLimit value) :
    parse? value.compact = some value :=
  parse?_of_lexes printable (lexes_compact printable)

end Concolic.Json
