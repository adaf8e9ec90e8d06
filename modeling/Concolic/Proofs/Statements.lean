import Mathlib
import Concolic.Proofs.Printing

/-!
# Queries are printed as they are meant

The text of a query, read in the solver's presentation language, declares the variables of its
formulas and says of them what the formulas, the bounds and the exclusion clauses say. So whatever
is promised of a solver's answers to texts is a promise about formulas.

A query is a list of lines, each of which is one statement. What its text declares, asserts, demands
and names is therefore seen from the statements of its lines, one list for all four.
-/

namespace Concolic

namespace Presentation

variable {valuation : Variable → Int}

theorem statements_newline (text : List Char) : statements ('\n' :: text) = statements text := by
  have nonempty := Text.splitWhere_ne_nil (· == ';') text
  simp only [statements, Text.splitWhere]
  cases pieces : Text.splitWhere (· == ';') text with
  | nil => exact absurd pieces nonempty
  | cons first rest => rfl

theorem statements_append (before rest : List Char) :
    statements (before ++ ';' :: '\n' :: rest) = statements before ++ statements rest := by
  rw [← statements_newline rest, statements, Text.splitWhere_append (by decide), List.map_append]
  rfl

theorem statements_of_clean {body : List Char} (clean : ';' ∉ body) :
    statements body = [lexemes body] := by
  rw [statements, Text.splitWhere_of_notMem clean]
  rfl

theorem commands_eq_map (text : List Char) : commands text = (statements text).map command := by
  rw [commands, statements, List.map_map]
  rfl

/-- A line is one statement of every text that it begins, made of the given lexemes. -/
structure IsStatement (line : String) (words : List (List Char)) : Prop where
  split : ∀ rest, statements (line.toList ++ rest) = words :: statements rest
  named : ∀ rest, names (line.toList ++ rest) = namedBy words ++ names rest

theorem Reads.isStatement {endsInWord : Bool} {body : List Char} {items : List Item}
    {vars : List Variable} {line : String} (reads : Reads valuation endsInWord body items vars)
    (isLine : line.toList = body ++ [';', '\n']) : IsStatement line (lexemes body) := by
  have apart (rest : List Char) : line.toList ++ rest = body ++ ';' :: '\n' :: rest := by
    simp [isLine]
  constructor
  · intro rest
    rw [apart, statements_append, statements_of_clean reads.clean, List.singleton_append]
  · intro rest
    have ends : names (';' :: '\n' :: rest) = names rest := rfl
    rw [apart, names, reads.cut _ fun _ => startsApart_cons (by decide), namedBy_append, ← names,
      ← names, ends, names]

/-- The lexemes of the statement that asserts a formula. -/
def asserting (formula : List (List Char)) : List (List Char) :=
  "ASSERT".toList :: formula

@[simp]
theorem command_asserting (formula : List (List Char)) :
    command (asserting formula) = .demand formula := rfl

@[simp]
theorem asserted?_asserting (formula : List (List Char)) :
    asserted? (asserting formula) = some formula := rfl

@[simp]
theorem namedBy_asserting (formula : List (List Char)) :
    namedBy (asserting formula) = namedBy formula := rfl

theorem Reads.isStatement_asserting {endsInWord : Bool} {statement : List Char} {items : List Item}
    {vars : List Variable} {line : String}
    (reads : Reads valuation endsInWord statement items vars)
    (isLine : line.toList = "ASSERT ".toList ++ statement ++ [';', '\n']) :
    IsStatement line (asserting (lexemes statement)) :=
  ((Reads.keyword valuation "ASSERT " "ASSERT" (by decide)).append reads (by simp)).isStatement
    isLine

section Join

variable {lines : List String} {sentences : List (List (List Char))}
  (each : List.Forall₂ IsStatement lines sentences)

include each

/-- Lines that are statements are the statements of the text that they make up. -/
theorem statements_join : statements (String.join lines).toList = sentences ++ [[]] := by
  rw [String.toList_join]
  induction each with
  | nil => rfl
  | cons isStatement _ ih => rw [List.flatMap_cons, isStatement.split, ih, List.cons_append]

theorem names_join : names (String.join lines).toList = sentences.flatMap namedBy := by
  rw [String.toList_join]
  induction each with
  | nil => rfl
  | cons isStatement _ ih => rw [List.flatMap_cons, isStatement.named, ih, List.flatMap_cons]

theorem commands_join :
    commands (String.join lines).toList = sentences.map command ++ [.neutral] := by
  rw [commands_eq_map, statements_join each, List.map_append]
  rfl

theorem satisfies_join :
    Satisfies valuation (String.join lines) ↔
      ∀ words ∈ sentences, (command words).holds valuation = true := by
  rw [Satisfies, commands_join each, List.forall_mem_append, List.forall_mem_map]
  apply and_iff_left
  rw [List.forall_mem_singleton, Command.holds]

theorem declared_join :
    declared (String.join lines) = sentences.filterMap fun words => (command words).declared? := by
  rw [declared, commands_join each, List.filterMap_append, List.filterMap_map]
  exact List.append_nil _

theorem assertions_join :
    assertions (String.join lines).toList = sentences.filterMap asserted? := by
  rw [assertions, statements_join each, List.filterMap_append]
  exact List.append_nil _

end Join

/-- A formula says of a variable that it lies in a range, and names no other one. -/
structure Bounds (range : Int × Int) (var : Variable) (formula : List (List Char)) : Prop where
  meaning : ∀ valuation, meaning? valuation formula =
    some (decide (range.1 ≤ valuation var ∧ valuation var ≤ range.2))
  named : ∀ other ∈ namedBy formula, other = var

theorem Bounds.forall_holds {range : Int × Int} {vars : List Variable}
    {formulas : List (List (List Char))} (bounds : List.Forall₂ (Bounds range) vars formulas) :
    (∀ formula ∈ formulas, (Command.demand formula).holds valuation = true) ↔
      ∀ var ∈ vars, range.1 ≤ valuation var ∧ valuation var ≤ range.2 := by
  induction bounds with
  | nil => simp
  | cons bound _ ih =>
      rw [List.forall_mem_cons, List.forall_mem_cons, ih]
      simp [Command.holds, bound.meaning]

theorem Bounds.namedBy_subset {range : Int × Int} {vars : List Variable}
    {formulas : List (List (List Char))} (bounds : List.Forall₂ (Bounds range) vars formulas) :
    formulas.flatMap namedBy ⊆ vars := by
  induction bounds with
  | nil => exact List.nil_subset _
  | cons bound _ ih =>
      rw [List.flatMap_cons, List.append_subset]
      refine ⟨?_, List.Subset.trans ih (List.subset_cons_self _ _)⟩
      intro other isNamed
      rw [bound.named other isNamed]
      exact List.mem_cons_self

end Presentation

open Presentation

variable {valuation : Variable → Int}

namespace Query

section Bounds

/-- Bounds of a variable from below and from above are read as they are meant. -/
theorem reads_bounds (key : Variable) {lowEnds highEnds : Bool} {low high : List Char}
    {lowItems highItems : List Item} {range : Int × Int}
    (lowReads : Reads valuation lowEnds low lowItems []) (lowArithmetic : Arithmetic lowItems)
    (lowValue : number? lowItems = some range.1)
    (highReads : Reads valuation highEnds high highItems []) (highArithmetic : Arithmetic highItems)
    (highValue : number? highItems = some range.2) :
    ∃ items, Reads valuation false
      ('(' :: (key.nameChars ++ (' ' :: (Relation.ge.sign.toList ++ ' ' :: low)) ++ [')']) ++
        (" AND ".toList ++
          '(' :: (key.nameChars ++ (' ' :: (Relation.le.sign.toList ++ ' ' :: high)) ++ [')'])))
      items [key, key] ∧
      truth? items = some (decide (range.1 ≤ valuation key ∧ valuation key ≤ range.2)) := by
  have lower := key.reads_comparison .ge lowReads lowArithmetic lowValue
  have upper := key.reads_comparison .le highReads highArithmetic highValue
  have conjunction := Reads.keyword valuation " AND " "AND" (by decide)
  have both := lower.append (conjunction.append upper (by simp)) (by simp)
  refine ⟨_, both, ?_⟩
  have asJoined (first second : Bool) :
      [Item.truth first] ++ ([Item.sign "AND".toList] ++ [Item.truth second]) =
        joined "AND" [first, second] := by
    simp [joined, List.intercalate_cons_cons]
  rw [asJoined, truth?_joined_and (by simp)]
  simp [Relation.holds]

/-- A line that asserts what is read as bounds is one statement. -/
theorem exists_isStatement_bounds {key : Variable} {range : Int × Int} {line : String}
    {statement : List Char} (isLine : line.toList = "ASSERT ".toList ++ statement ++ [';', '\n'])
    (reads : ∀ valuation, ∃ items, Reads valuation false statement items [key, key] ∧
      truth? items = some (decide (range.1 ≤ valuation key ∧ valuation key ≤ range.2))) :
    ∃ formula, IsStatement line (asserting formula) ∧ Bounds range key formula := by
  obtain ⟨items, itemsRead, _⟩ := reads fun _ => 0
  refine ⟨lexemes statement, itemsRead.isStatement_asserting isLine, ?_, ?_⟩
  · intro valuation
    obtain ⟨items, itemsRead, isTruth⟩ := reads valuation
    rw [meaning?_lexemes itemsRead, isTruth]
  · intro other isNamed
    rw [← names, itemsRead.named] at isNamed
    simpa using isNamed

/-- The lower bound of an `int` input is between parentheses, since it is negative. -/
theorem exists_isStatement_intBound (key : Variable) :
    ∃ formula, IsStatement (intBound key) (asserting formula) ∧
      Bounds Numeral.int32Range key formula := by
  have general (range : Int × Int) : ∃ formula, IsStatement
      ("ASSERT (" ++ key.name ++ " >= (" ++ Numeral.text range.1 ++ ")) AND (" ++ key.name ++
        " <= " ++ Numeral.text range.2 ++ ");\n") (asserting formula) ∧
      Bounds range key formula := by
    refine exists_isStatement_bounds (by simp [Relation.sign]) fun valuation =>
      reads_bounds key (Reads.closedNumeral valuation range.1) (by simp [Arithmetic]) ?_
        (Reads.numeral range.2) (arithmetic_numeralItems _) (number?_numeralItems _)
    simp [number?, addUp]
  exact general _

theorem exists_isStatement_charBound (key : Variable) :
    ∃ formula, IsStatement (charBound key) (asserting formula) ∧
      Bounds characterRange key formula := by
  have general (range : Int × Int) : ∃ formula, IsStatement
      ("ASSERT (" ++ key.name ++ " >= " ++ Numeral.text range.1 ++ ") AND (" ++ key.name ++
        " <= " ++ Numeral.text range.2 ++ ");\n") (asserting formula) ∧
      Bounds range key formula :=
    exists_isStatement_bounds (by simp [Relation.sign]) fun valuation =>
      reads_bounds key (Reads.numeral range.1) (arithmetic_numeralItems _) (number?_numeralItems _)
        (Reads.numeral range.2) (arithmetic_numeralItems _) (number?_numeralItems _)
  exact general _

/-- Bounds of several variables are as many statements. -/
theorem exists_forall₂_bounds {range : Int × Int} {line : Variable → String}
    (each : ∀ key, ∃ formula, IsStatement (line key) (asserting formula) ∧
      Bounds range key formula) (keys : List Variable) :
    ∃ formulas, List.Forall₂ (Bounds range) keys formulas ∧
      List.Forall₂ IsStatement (keys.map line) (formulas.map asserting) := by
  induction keys with
  | nil => exact ⟨[], .nil, .nil⟩
  | cons key others ih =>
      obtain ⟨formula, isStatement, bounds⟩ := each key
      obtain ⟨formulas, allBound, areStatements⟩ := ih
      exact ⟨formula :: formulas, .cons bounds allBound, .cons isStatement areStatements⟩

end Bounds

/-- The lexemes of a declaration. -/
def declaration (key : Variable) : List (List Char) :=
  [key.nameChars, ":".toList, "INT".toList]

theorem isStatement_declaration (key : Variable) :
    IsStatement (key.name ++ " : INT;\n") (declaration key) := by
  obtain ⟨letters, starts⟩ := exists_nameChars_eq_cons key
  have colon : Reads (fun _ => 0) false " : ".toList [.sign ":".toList] [] :=
    ⟨fun _ _ => rfl, fun _ => rfl, rfl, by decide⟩
  have isType : Reads (fun _ => 0) true "INT".toList _ _ :=
    .word (by decide) fun _ member => by fin_cases member <;> rfl
  have apart : StartsApart (" : ".toList ++ "INT".toList) :=
    startsApart_cons (show shape ' ' ≠ .wordy by decide)
  have reads := (Reads.name (fun _ => 0) key).append (colon.append isType (by simp)) fun _ =>
    ⟨by simp, apart⟩
  have isLexemes : lexemes (key.nameChars ++ (" : ".toList ++ "INT".toList)) = declaration key := by
    rw [lexemes_word (by simp [starts]) (fun _ member => wordy_of_mem_nameChars member) apart]
    rfl
  rw [← isLexemes]
  exact reads.isStatement (by simp)

/-- No keyword is the name of a variable. -/
theorem nameChars_ne {key : Variable} {word : List Char} (apart : word.head? ≠ some 'x') :
    key.nameChars ≠ word := by
  obtain ⟨letters, starts⟩ := exists_nameChars_eq_cons key
  rintro rfl
  simp [starts] at apart

@[simp]
theorem command_declaration (key : Variable) : command (declaration key) = .declare key := by
  have noDemand : ¬(key.nameChars = "ASSERT".toList ∨ key.nameChars = "CHECKSAT".toList) :=
    not_or.mpr ⟨nameChars_ne (by decide), nameChars_ne (by decide)⟩
  have noWish : ¬(key.nameChars = "COUNTERMODEL".toList ∧ [":".toList, "INT".toList] = []) :=
    fun wish => nameChars_ne (by decide) wish.1
  rw [declaration, command, if_neg noDemand, if_neg noWish, if_pos rfl,
    Variable.ofNameChars?_nameChars key]

@[simp]
theorem asserted?_declaration (key : Variable) : asserted? (declaration key) = none :=
  if_neg (nameChars_ne (by decide))

/-- A valuation does what a query asks for, whatever is excluded besides. -/
structure MetBy (query : Query) (valuation : Variable → Int) : Prop where
  ints : ∀ key ∈ query.boundedInts, Numeral.int32Range.1 ≤ valuation key ∧
    valuation key ≤ Numeral.int32Range.2
  chars : ∀ key ∈ query.boundedChars, characterRange.1 ≤ valuation key ∧
    valuation key ≤ characterRange.2
  assertions : ∀ formula ∈ query.assertions, formula.holdsAt valuation Empty.elim = true
  goal : query.goal.holdsAt valuation Empty.elim = true

/-- The lines of a query before its further assertion. -/
def opening (query : Query) : List String :=
  (query.declared.keys.map fun key => key.name ++ " : INT;\n") ++
    query.boundedInts.map intBound ++ query.boundedChars.map charBound ++
    query.assertions.map fun formula => assertion formula.text

/-- The lines of a query after its further assertion. -/
def closing (query : Query) : List String :=
  ["CHECKSAT " ++ query.goal.text ++ ";\n", "COUNTERMODEL;\n"]

theorem text_eq_join (query : Query) :
    query.text =
      String.join (query.opening ++ query.extra.toList.map assertion ++ query.closing) := by
  have extra : (query.extra.map assertion).getD "" =
      String.join (query.extra.toList.map assertion) := by
    cases query.extra <;> simp
  simp only [text, opening, closing, extra, declarations, String.join_append, String.join_cons,
    String.join_nil, String.append_empty, String.append_assoc]

/-- The statements of a query before its further assertion. -/
theorem exists_opening (query : Query) :
    ∃ ints chars, List.Forall₂ (Bounds Numeral.int32Range) query.boundedInts ints ∧
      List.Forall₂ (Bounds characterRange) query.boundedChars chars ∧
      List.Forall₂ IsStatement query.opening (query.declared.keys.map declaration ++
        (ints ++ chars ++ query.assertions.map fun formula => lexemes formula.text.toList).map
          asserting) := by
  obtain ⟨ints, intBounds, areInts⟩ :=
    exists_forall₂_bounds exists_isStatement_intBound query.boundedInts
  obtain ⟨chars, charBounds, areChars⟩ :=
    exists_forall₂_bounds exists_isStatement_charBound query.boundedChars
  have declares : List.Forall₂ IsStatement
      (query.declared.keys.map fun key => key.name ++ " : INT;\n")
      (query.declared.keys.map declaration) := by
    rw [List.forall₂_map_left_iff, List.forall₂_map_right_iff, List.forall₂_same]
    exact fun key _ => isStatement_declaration key
  have areAssertions : List.Forall₂ IsStatement
      (query.assertions.map fun formula => assertion formula.text)
      (query.assertions.map fun formula => asserting (lexemes formula.text.toList)) := by
    rw [List.forall₂_map_left_iff, List.forall₂_map_right_iff, List.forall₂_same]
    intro formula _
    obtain ⟨items, reads, _⟩ := formula.reads_text fun _ => 0
    exact reads.isStatement_asserting (by simp [assertion])
  refine ⟨ints, chars, intBounds, charBounds, ?_⟩
  rw [opening, List.map_append, List.map_append, List.map_map, ← List.append_assoc,
    ← List.append_assoc]
  exact List.rel_append (List.rel_append (List.rel_append declares areInts) areChars) areAssertions

/-- The lexemes of the check. -/
def check (query : Query) : List (List Char) :=
  "CHECKSAT".toList :: lexemes query.goal.text.toList

/-- The statements of a query after its further assertion. -/
theorem isStatement_closing (query : Query) :
    List.Forall₂ IsStatement query.closing [query.check, ["COUNTERMODEL".toList]] := by
  obtain ⟨items, reads, _⟩ := query.goal.reads_text fun _ => 0
  have checks := (Reads.keyword (fun _ => 0) "CHECKSAT " "CHECKSAT" (by decide)).append reads
    (by simp)
  have wish : Reads (fun _ => 0) true "COUNTERMODEL".toList _ _ :=
    .word (by decide) fun _ member => by fin_cases member <;> rfl
  exact .cons (checks.isStatement (by simp)) (.cons (wish.isStatement (by simp)) .nil)

/-- The statement of a further assertion that excludes models. -/
theorem isStatement_extra {query : Query} {models : List Model}
    (isExclusion : query.extra = Problem.exclusion? models) :
    List.Forall₂ IsStatement (query.extra.toList.map assertion)
      ((query.extra.toList.map fun statement => lexemes statement.toList).map asserting) := by
  rw [List.forall₂_map_left_iff, List.forall₂_map_right_iff, List.forall₂_map_right_iff,
    List.forall₂_same]
  intro statement isExtra
  have reads := Problem.reads_exclusion? (fun _ => 0) models
  rw [← isExclusion, Option.mem_toList.mp isExtra] at reads
  obtain ⟨items, itemsRead, _⟩ := reads
  exact itemsRead.isStatement_asserting (by simp [assertion])

section Lines

variable {query : Query} {extras : List String} {formulas : List (List (List Char))}
  (areExtras : List.Forall₂ IsStatement extras (formulas.map asserting))

include areExtras

theorem declared_lines :
    Presentation.declared (String.join (query.opening ++ extras ++ query.closing)) =
      query.declared.keys := by
  obtain ⟨ints, chars, _, _, opens⟩ := query.exists_opening
  have declares : (query.declared.keys.map declaration).filterMap
      (fun words => (command words).declared?) = query.declared.keys := by
    simp [List.filterMap_map, Command.declared?]
  have noneAsserted (formulas : List (List (List Char))) : (formulas.map asserting).filterMap
      (fun words => (command words).declared?) = [] := by
    simp [Command.declared?]
  have noneAtEnd : [query.check, ["COUNTERMODEL".toList]].filterMap
      (fun words => (command words).declared?) = [] := rfl
  rw [declared_join (List.rel_append (List.rel_append opens areExtras) query.isStatement_closing),
    List.filterMap_append, List.filterMap_append, List.filterMap_append, declares, noneAsserted,
    noneAsserted, noneAtEnd, List.append_nil, List.append_nil, List.append_nil]

/-- A query asserts the bounds, what holds before the turn, and what its further lines assert. -/
theorem exists_assertions_lines :
    ∃ ints chars, List.Forall₂ (Bounds Numeral.int32Range) query.boundedInts ints ∧
      List.Forall₂ (Bounds characterRange) query.boundedChars chars ∧
      Presentation.assertions (String.join (query.opening ++ extras ++ query.closing)).toList =
        ints ++ chars ++ (query.assertions.map fun formula => lexemes formula.text.toList) ++
          formulas := by
  obtain ⟨ints, chars, intBounds, charBounds, opens⟩ := query.exists_opening
  refine ⟨ints, chars, intBounds, charBounds, ?_⟩
  have noneDeclared : (query.declared.keys.map declaration).filterMap asserted? = [] := by simp
  have asserted (formulas : List (List (List Char))) :
      (formulas.map asserting).filterMap asserted? = formulas := by
    have all : asserted? ∘ asserting = some := funext asserted?_asserting
    rw [List.filterMap_map, all, List.filterMap_some]
  have noneAtEnd : [query.check, ["COUNTERMODEL".toList]].filterMap asserted? = [] := rfl
  rw [assertions_join (List.rel_append (List.rel_append opens areExtras) query.isStatement_closing),
    List.filterMap_append, List.filterMap_append, List.filterMap_append, noneDeclared, asserted,
    asserted, noneAtEnd, List.append_nil, List.nil_append]

end Lines

theorem holds_demand_text (valuation : Variable → Int) (formula : Formula) :
    (Command.demand (lexemes formula.text.toList)).holds valuation =
      formula.holdsAt valuation Empty.elim := by
  obtain ⟨items, reads, isTruth⟩ := formula.reads_text valuation
  simp [Command.holds, meaning?_lexemes reads, isTruth]

/-- The further assertion holds exactly if all its models are avoided. -/
theorem forall_extra_holds {query : Query} {models : List Model}
    (isExclusion : query.extra = Problem.exclusion? models) :
    (∀ statement ∈ query.extra.toList,
        (Command.demand (lexemes statement.toList)).holds valuation = true) ↔
      Model.excludes valuation models = true := by
  have reads := Problem.reads_exclusion? valuation models
  rw [← isExclusion] at reads
  cases isExtra : query.extra with
  | none =>
      rw [isExtra] at reads
      simp [reads]
  | some statement =>
      rw [isExtra] at reads
      obtain ⟨items, itemsRead, isTruth⟩ := reads
      simp [Command.holds, meaning?_lexemes itemsRead, isTruth]

/-- The text of a query is read as the query is meant: it asks for a valuation that meets the query
and differs from the excluded models, and it declares the variables of the query. -/
theorem satisfies_and_declared {query : Query} {models : List Model}
    (isExclusion : query.extra = Problem.exclusion? models) (valuation : Variable → Int) :
    (Satisfies valuation query.text ↔
        query.MetBy valuation ∧ Model.excludes valuation models = true) ∧
      Presentation.declared query.text = query.declared.keys := by
  obtain ⟨ints, chars, intBounds, charBounds, opens⟩ := query.exists_opening
  have each := List.rel_append (List.rel_append opens (isStatement_extra isExclusion))
    query.isStatement_closing
  rw [text_eq_join]
  constructor
  · have closes : (∀ words ∈ [query.check, ["COUNTERMODEL".toList]],
        (command words).holds valuation = true) ↔
        query.goal.holdsAt valuation Empty.elim = true := by
      rw [List.forall_mem_cons, List.forall_mem_singleton, ← holds_demand_text valuation query.goal]
      exact and_iff_left rfl
    have declares : ∀ key ∈ query.declared.keys,
        (command (declaration key)).holds valuation = true := by
      simp [Command.holds]
    rw [satisfies_join each, List.forall_mem_append, List.forall_mem_append, List.forall_mem_append,
      closes]
    simp only [List.map_append, List.forall_mem_append, List.forall_mem_map, command_asserting,
      Bounds.forall_holds intBounds, Bounds.forall_holds charBounds, holds_demand_text,
      forall_extra_holds isExclusion]
    constructor
    · rintro ⟨⟨⟨_, ⟨ints, chars⟩, assertions⟩, excluded⟩, goal⟩
      exact ⟨⟨ints, chars, assertions, goal⟩, excluded⟩
    · rintro ⟨⟨ints, chars, assertions, goal⟩, excluded⟩
      exact ⟨⟨⟨declares, ⟨ints, chars⟩, assertions⟩, excluded⟩, goal⟩
  · exact declared_lines (isStatement_extra isExclusion)

/-! ### Names -/

theorem namedBy_declaration (key : Variable) : namedBy (declaration key) = [key] := by
  have noName : namedBy [":".toList, "INT".toList] = [] := rfl
  rw [declaration, namedBy, List.filterMap_cons, Variable.ofNameChars?_nameChars]
  exact congrArg (key :: ·) noName

/-- The text of a query, apart from its further assertion, names declared variables only. -/
theorem names_subset_declared (query : Query) :
    names (String.join (query.opening ++ query.closing)).toList ⊆ query.declared.keys := by
  have inDeclared (formula : Formula) (isOne : formula ∈ query.assertions ++ [query.goal]) :
      names formula.text.toList ⊆ query.declared.keys := by
    intro var occurs
    rw [formula.names_text] at occurs
    rw [declared, VarSet.mem_keys_ofList]
    rcases List.mem_append.mp isOne with isAsserted | isGoal
    · exact List.mem_append_left _ (List.mem_flatMap.mpr ⟨formula, isAsserted, occurs⟩)
    · rw [List.mem_singleton] at isGoal
      exact List.mem_append_right _ (isGoal ▸ occurs)
  have intsDeclared : query.boundedInts ⊆ query.declared.keys := List.filter_subset_self _
  have charsDeclared : query.boundedChars ⊆ query.declared.keys := by
    rw [boundedChars]
    split
    · exact List.nil_subset _
    · exact List.filter_subset_self _
  rcases query.exists_opening with ⟨ints, chars, intBounds, charBounds, opens⟩
  rw [names_join (List.rel_append opens query.isStatement_closing)]
  simp only [List.flatMap_append, List.map_append, List.flatMap_map, namedBy_asserting,
    namedBy_declaration, List.append_subset]
  refine ⟨⟨?_, ⟨?_, ?_⟩, ?_⟩, ?_⟩
  · simp
  · exact List.Subset.trans (Bounds.namedBy_subset intBounds) intsDeclared
  · exact List.Subset.trans (Bounds.namedBy_subset charBounds) charsDeclared
  · intro var isNamed
    rcases List.mem_flatMap.mp isNamed with ⟨formula, isOne, inFormula⟩
    exact inDeclared formula (List.mem_append_left _ isOne) inFormula
  · have isCheck : [query.check, ["COUNTERMODEL".toList]].flatMap namedBy =
        names query.goal.text.toList ++ [] := rfl
    rw [isCheck, List.append_nil]
    exact inDeclared query.goal (by simp)

end Query

end Concolic
