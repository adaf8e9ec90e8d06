import Mathlib
import Concolic.Proofs.Numeral
import Concolic.Proofs.Stored
import Concolic.Proofs.Substitution
import Concolic.Stored.Trace

/-!
# What is stored is read back

For each kind of data there are two facts: its stored form is exact, and its reader restores it from
that form, whatever the order of members. Both go up along the data, from numbers and variables over
terms, texts and tests to conditions, events and traces.
-/

namespace Concolic

open Json (Reading)

theorem Variable.ofName?_name (var : Variable) : Variable.ofName? var.name = some var := by
  rw [ofName?, name, String.toList_ofList]
  exact ofNameChars?_nameChars var

theorem Variable.restores_toJson (var : Variable) : Json.Restores ofJson? var.toJson var := by
  rintro _ ⟨⟩
  exact ofName?_name var

namespace VarMap

/-- A map is restored from its entries in any order. -/
theorem ofList_of_perm {α : Type} {map : VarMap α} {entries : List (Variable × α)}
    (permuted : map.entries.Perm entries) : ofList entries = map := by
  have distinct : (entries.map Prod.fst).Nodup := by
    apply (permuted.map Prod.fst).nodup_iff.mp
    apply List.pairwise_map.mpr
    apply map.ascending.imp
    intro earlier later before same
    exact Variable.lt_irrefl _ (same ▸ before)
  apply ext_get?
  intro key
  apply Option.ext
  intro value
  have stored : map.get? key = some value ↔ (key, value) ∈ entries :=
    mem_entries_iff.symm.trans permuted.mem_iff
  rw [stored]
  exact ⟨mem_of_get?_ofList, get?_ofList_of_mem distinct⟩

/-- The member for an entry. -/
def member (entry : Variable × Int64) : String × Json :=
  (entry.1.name, .int entry.2.toInt)

theorem entryOfJson?_member (entry : Variable × Int64) :
    entryOfJson? (member entry) = some entry := by
  have reads := Json.restores_int64 entry.2 _ (.refl _)
  simp [entryOfJson?, member, Variable.ofName?_name, reads]

theorem exact_toJson (map : VarMap Int64) : map.toJson.Exact := by
  apply Json.Exact.object
  · have apart {first second : Variable × Int64} (before : first.1 < second.1) :
        first.1.name ≠ second.1.name := by
      intro same
      have sameKey : some first.1 = some second.1 := by
        rw [← Variable.ofName?_name, ← Variable.ofName?_name, same]
      exact Variable.lt_irrefl _ (Option.some.inj sameKey ▸ before)
    rw [List.map_map]
    exact List.pairwise_map.mpr (map.ascending.imp apart)
  · intro stored isStored
    rcases List.mem_map.mp isStored with ⟨entry, _, rfl⟩
    exact Json.exact_int64 entry.2

theorem restores_toJson (map : VarMap Int64) : Json.Restores ofJson? map.toJson map := by
  intro value reordered
  rcases reordered.members with ⟨order, members, rfl, names, each, permuted⟩
  -- A number has no members, so the order of the entries is all that can differ.
  have same : map.entries.map member = order := by
    clear permuted reordered
    generalize map.entries = entries at names each
    induction entries generalizing order with
    | nil =>
        cases order with
        | nil => rfl
        | cons first rest => cases names
    | cons entry entries ih =>
        rcases order with _ | ⟨⟨name, number⟩, rest⟩
        · cases names
        · rcases List.cons.inj names with ⟨rfl, restNames⟩
          rcases List.forall₂_cons.mp each with ⟨isNumber, restEach⟩
          cases isNumber
          exact congrArg (member entry :: ·) (ih rest restNames restEach)
  subst same
  have arranged : ∃ entries : List (Variable × Int64), members = entries.map member ∧
      entries.Perm map.entries := by
    have arrangements := congrFun (congrFun (List.eq_map_comp_perm member) members) map.entries
    exact arrangements.mpr permuted.symm
  rcases arranged with ⟨entries, rfl, arranged⟩
  have all : (entries.map member).mapM entryOfJson? = some entries := by
    have inverse : entryOfJson? ∘ member = some := funext entryOfJson?_member
    rw [List.mapM_map, inverse]
    exact (List.mapM_pure).trans (congrArg some (List.map_id _))
  rw [ofJson?, all]
  exact congrArg some (ofList_of_perm arranged.symm)

end VarMap

theorem Relation.restores_toJson (reading : Reading) (relation : Relation) :
    Json.Restores (ofJson? reading) relation.toJson relation := by
  rintro _ ⟨⟩
  cases relation <;> rfl

/-! ### Terms -/

namespace Linear

theorem exact_toJson (sum : Linear) : sum.toJson.Exact := by
  apply Json.Exact.object (by simp)
  simp only [List.forall_mem_cons]
  exact ⟨sum.coefficients.exact_toJson, Json.exact_int64 _, by simp⟩

theorem restores_toJson (sum : Linear) : Json.Restores ofJson? sum.toJson sum := by
  intro value reordered
  rcases Json.Reordered.fields ["coefficients", "constant"]
    [sum.coefficients.toJson, .int sum.constant.toInt] (by decide) rfl reordered with
    ⟨others, members, rfl, found, each⟩
  rcases each with _ | ⟨isCoefficients, _ | ⟨isConstant, _ | _⟩⟩
  simp [ofJson?, found, Json.required?, sum.coefficients.restores_toJson _ isCoefficients,
    Json.restores_int64 _ _ isConstant]

end Linear

namespace Arith

theorem exact_node {name : String} {left right : Json} (leftExact : left.Exact)
    (rightExact : right.Exact) : (Json.object [(name, .array [left, right])]).Exact := by
  apply Json.Exact.variant
  apply Json.Exact.array
  simp only [List.forall_mem_cons]
  exact ⟨leftExact, rightExact, by simp⟩

theorem exact_toJson (term : Arith) : term.toJson.Exact := by
  induction term with
  | const value => exact .variant (Json.exact_int64 value)
  | var key => exact .variant .string
  | add left right leftExact rightExact
  | sub left right leftExact rightExact
  | mul left right leftExact rightExact => exact exact_node leftExact rightExact

theorem restores_toJson (term : Arith) : Json.Restores ofJson? term.toJson term := by
  have node {name : String} {left right value : Json}
      (reordered : Json.Reordered (.object [(name, .array [left, right])]) value) :
      ∃ first second, value = .object [(name, .array [first, second])] ∧
        Json.Reordered left first ∧ Json.Reordered right second := by
    rcases reordered.content with ⟨content, rfl, same⟩
    rcases same.items with ⟨others, rfl, each⟩
    rcases each with _ | ⟨isLeft, _ | ⟨isRight, _ | _⟩⟩
    exact ⟨_, _, rfl, isLeft, isRight⟩
  induction term with
  | const value =>
      intro _ reordered
      rcases reordered.content with ⟨content, rfl, same⟩
      rw [ofJson?, Json.restores_int64 value _ same]
      rfl
  | var key =>
      intro _ reordered
      rcases reordered.content with ⟨content, rfl, same⟩
      rw [ofJson?, key.restores_toJson _ same]
      rfl
  | add left right readsLeft readsRight
  | sub left right readsLeft readsRight
  | mul left right readsLeft readsRight =>
      intro _ reordered
      rcases node reordered with ⟨first, second, rfl, isLeft, isRight⟩
      simp [ofJson?, readsLeft _ isLeft, readsRight _ isRight]

end Arith

/-! ### Texts and tests -/

theorem LiteralId.restores_toJson (id : LiteralId) : Json.Restores ofJson? id.toJson id := by
  intro value reordered
  rw [ofJson?, Json.restores_uint32 id.val _ reordered]
  rfl

namespace Segment

theorem exact_toJson (segment : Segment) : segment.toJson.Exact := by
  cases segment with
  | input symbol length =>
      apply Json.Exact.variant
      apply Json.Exact.object (by simp)
      simp only [List.forall_mem_cons]
      exact ⟨Json.exact_uint32 _, Json.exact_uint32 _, by simp⟩
  | literal id => exact .variant (.variant (Json.exact_uint32 _))

theorem restores_toJson (reading : Reading) (segment : Segment) :
    Json.Restores (ofJson? reading) segment.toJson segment := by
  intro value reordered
  cases segment with
  | input symbol length =>
      rcases reordered.content with ⟨content, rfl, same⟩
      rcases Json.Reordered.fields ["symbol", "length"] [.nat symbol.toNat, .nat length.toNat]
        (by decide) rfl same with ⟨others, members, rfl, found, each⟩
      rcases each with _ | ⟨isSymbol, _ | ⟨isLength, _ | _⟩⟩
      simp [ofJson?, Json.variant?, Json.contentFields?, found, Json.required?,
        Json.restores_uint32 _ _ isSymbol, Json.restores_uint32 _ _ isLength]
  | literal id =>
      rcases reordered.content with ⟨content, rfl, same⟩
      rcases Json.Reordered.fields ["id"] [id.toJson] (by decide) rfl same with
        ⟨others, members, rfl, found, each⟩
      rcases each with _ | ⟨isId, _ | _⟩
      simp [ofJson?, Json.variant?, Json.contentFields?, found, Json.required?,
        id.restores_toJson _ isId]

end Segment

namespace SymText

theorem exact_toJson (text : SymText) : text.toJson.Exact :=
  .variant (.list fun segment _ => segment.exact_toJson)

theorem restores_toJson (reading : Reading) (text : SymText) :
    Json.Restores (ofJson? reading) text.toJson text := by
  intro value reordered
  rcases Json.Reordered.fields ["parts"] [.array (text.segments.map Segment.toJson)] (by decide) rfl
    reordered with ⟨others, members, rfl, found, each⟩
  rcases each with _ | ⟨areParts, _ | _⟩
  have reads := Json.Restores.list
    (fun segment (_ : segment ∈ text.segments) => segment.restores_toJson reading) _ areParts
  simp [ofJson?, found, Json.required?, reads]

end SymText

namespace Pattern

theorem exact_toJson (pattern : Pattern) : pattern.toJson.Exact := by
  cases pattern with
  | literal id => exact .variant (Json.exact_uint32 _)
  | symbolic text => exact .variant text.exact_toJson

theorem restores_toJson (reading : Reading) (pattern : Pattern) :
    Json.Restores (ofJson? reading) pattern.toJson pattern := by
  intro value reordered
  cases pattern with
  | literal id =>
      rcases reordered.content with ⟨content, rfl, same⟩
      simp [ofJson?, Json.variant?, id.restores_toJson _ same]
  | symbolic text =>
      rcases reordered.content with ⟨content, rfl, same⟩
      simp [ofJson?, Json.variant?, text.restores_toJson reading _ same]

end Pattern

namespace TestKind

theorem exact_toJson (kind : TestKind) : kind.toJson.Exact := by
  cases kind with
  | startsWith offset => exact .variant (.variant (Json.exact_int64 offset))
  | equals | endsWith | contains | regex => exact .string

theorem restores_toJson (reading : Reading) (kind : TestKind) :
    Json.Restores (ofJson? reading) kind.toJson kind := by
  intro value reordered
  cases kind with
  | startsWith offset =>
      rcases reordered.content with ⟨content, rfl, same⟩
      rcases Json.Reordered.fields ["offset"] [.int offset.toInt] (by decide) rfl same with
        ⟨others, members, rfl, found, each⟩
      rcases each with _ | ⟨isOffset, _ | _⟩
      simp [ofJson?, Json.variant?, Json.contentFields?, found, Json.required?,
        Json.restores_int64 _ _ isOffset]
  | equals | endsWith | contains | regex =>
      cases reordered
      rfl

end TestKind

namespace TextTest

theorem exact_toJson (test : TextTest) : test.toJson.Exact := by
  apply Json.Exact.object (by simp)
  simp only [List.forall_mem_cons]
  exact ⟨test.kind.exact_toJson, test.subject.exact_toJson, test.pattern.exact_toJson, by simp⟩

theorem restores_toJson (reading : Reading) (test : TextTest) :
    Json.Restores (ofJson? reading) test.toJson test := by
  intro value reordered
  rcases Json.Reordered.fields ["op", "subject", "pattern"]
    [test.kind.toJson, test.subject.toJson, test.pattern.toJson] (by decide) rfl reordered with
    ⟨others, members, rfl, found, each⟩
  rcases each with _ | ⟨isKind, _ | ⟨isSubject, _ | ⟨isPattern, _ | _⟩⟩⟩
  simp [ofJson?, found, Json.required?, test.kind.restores_toJson reading _ isKind,
    test.subject.restores_toJson reading _ isSubject,
    test.pattern.restores_toJson reading _ isPattern]

end TextTest

/-! ### Conditions -/

theorem Condition.toJsonEach_eq_map {Test : Type} (ofTest : Test → Json)
    (members : List (Condition Test)) :
    toJsonEach ofTest members = members.map (toJsonWith ofTest) := by
  induction members with
  | nil => rfl
  | cons member rest ih => rw [toJsonEach, ih, List.map_cons]

namespace PathCondition

theorem eachOfJson?_eq_mapM (reading : Reading) (members : List Json) :
    eachOfJson? reading members = members.mapM (ofJson? reading) := by
  induction members with
  | nil => rfl
  | cons member rest ih => rw [eachOfJson?, ih, List.mapM_cons]

theorem toJson_anyOf (members : List PathCondition) :
    toJson (.anyOf members) = .object [("or", .array (members.map toJson))] := by
  rw [toJson, Condition.toJsonWith, Condition.toJsonEach_eq_map]
  rfl

theorem toJson_allOf (members : List PathCondition) :
    toJson (.allOf members) = .object [("and", .array (members.map toJson))] := by
  rw [toJson, Condition.toJsonWith, Condition.toJsonEach_eq_map]
  rfl

theorem exact_toJson (condition : PathCondition) : (toJson condition).Exact := by
  induction condition using Condition.induction with
  | linear sum relation =>
      apply Json.Exact.variant
      apply Json.Exact.object (by simp)
      simp only [List.forall_mem_cons]
      exact ⟨sum.exact_toJson, .string, by simp⟩
  | compare left right relation =>
      apply Json.Exact.variant
      apply Json.Exact.object (by simp)
      simp only [List.forall_mem_cons]
      exact ⟨left.exact_toJson, right.exact_toJson, .string, by simp⟩
  | anyOf members ih =>
      rw [toJson_anyOf]
      exact .variant (.list ih)
  | allOf members ih =>
      rw [toJson_allOf]
      exact .variant (.list ih)
  | test expected question =>
      cases expected with
      | true | false => exact .variant question.exact_toJson
  | truth => exact .string
  | falsity => exact .string

theorem restores_linear (reading : Reading) (sum : Linear) (relation : Relation) :
    Json.Restores (linearOfJson? reading)
      (.object [("expr", sum.toJson), ("op", relation.toJson)]) (.linear sum relation) := by
  intro value reordered
  rcases Json.Reordered.fields ["expr", "op"] [sum.toJson, relation.toJson] (by decide) rfl
    reordered with ⟨others, members, rfl, found, each⟩
  rcases each with _ | ⟨isSum, _ | ⟨isRelation, _ | _⟩⟩
  simp [linearOfJson?, found, Json.required?, sum.restores_toJson _ isSum,
    relation.restores_toJson reading _ isRelation]

theorem restores_compare (reading : Reading) (left right : Arith) (relation : Relation) :
    Json.Restores (compareOfJson? reading)
      (.object [("left", left.toJson), ("right", right.toJson), ("op", relation.toJson)])
      (.compare left right relation) := by
  intro value reordered
  rcases Json.Reordered.fields ["left", "right", "op"]
    [left.toJson, right.toJson, relation.toJson] (by decide) rfl reordered with
    ⟨others, members, rfl, found, each⟩
  rcases each with _ | ⟨isLeft, _ | ⟨isRight, _ | ⟨isRelation, _ | _⟩⟩⟩
  simp [compareOfJson?, found, Json.required?, left.restores_toJson _ isLeft,
    right.restores_toJson _ isRight, relation.restores_toJson reading _ isRelation]

theorem restores_toJson (reading : Reading) (condition : PathCondition) :
    Json.Restores (ofJson? reading) (toJson condition) condition := by
  -- A combination is read member by member, so both kinds share what is said of their arrays.
  have members {conditions : List PathCondition} {value : Json}
      (each : ∀ member ∈ conditions, Json.Restores (ofJson? reading) (toJson member) member)
      (reordered : Json.Reordered (.array (conditions.map toJson)) value) :
      ∃ others, value = .array others ∧ eachOfJson? reading others = some conditions := by
    have reads := Json.Restores.list each _ reordered
    rcases reordered.items with ⟨others, rfl, _⟩
    exact ⟨others, rfl, (eachOfJson?_eq_mapM reading others).trans reads⟩
  induction condition using Condition.induction with
  | linear sum relation =>
      intro _ reordered
      rcases reordered.content with ⟨content, rfl, same⟩
      rw [ofJson?]
      exact restores_linear reading sum relation _ same
  | compare left right relation =>
      intro _ reordered
      rcases reordered.content with ⟨content, rfl, same⟩
      rw [ofJson?]
      exact restores_compare reading left right relation _ same
  | anyOf conditions ih =>
      intro _ reordered
      rw [toJson_anyOf] at reordered
      rcases reordered.content with ⟨content, rfl, same⟩
      rcases members ih same with ⟨others, rfl, reads⟩
      rw [ofJson?, reads]
      rfl
  | allOf conditions ih =>
      intro _ reordered
      rw [toJson_allOf] at reordered
      rcases reordered.content with ⟨content, rfl, same⟩
      rcases members ih same with ⟨others, rfl, reads⟩
      rw [ofJson?, reads]
      rfl
  | test expected question =>
      intro _ reordered
      cases expected with
      | true | false =>
          rcases reordered.content with ⟨content, rfl, same⟩
          rw [ofJson?, question.restores_toJson reading _ same]
          rfl
  | truth =>
      rintro _ ⟨⟩
      rfl
  | falsity =>
      rintro _ ⟨⟩
      rfl

end PathCondition

/-! ### Traces -/

namespace Event

theorem exact_toJson (event : Event) : event.toJson.Exact := by
  cases event with
  | branch outcome condition site =>
      apply Json.Exact.object (by simp)
      simp only [List.forall_mem_cons]
      refine ⟨.string, .bool, ?_, Json.exact_uint32 site, by simp⟩
      exact Json.exact_optional fun condition _ => condition.exact_toJson
  | intInput | longInput | floatInput | textInput | beginScope | endScope | branchDone
  | branchForced => exact .variant .string

theorem restores_branch (outcome : Bool) (condition : Option PathCondition) (site : UInt32) :
    Json.Restores branchOfJson?
      (.object [("outcome", .bool outcome), ("constraint", .optional PathCondition.toJson condition),
        ("site", .nat site.toNat)]) (.branch outcome condition site) := by
  intro value reordered
  rcases Json.Reordered.fields ["outcome", "constraint", "site"]
    [.bool outcome, .optional PathCondition.toJson condition, .nat site.toNat] (by decide) rfl
    reordered with ⟨others, members, rfl, found, each⟩
  rcases each with _ | ⟨isOutcome, _ | ⟨isCondition, _ | ⟨isSite, _ | _⟩⟩⟩
  have readsCondition := Json.Restores.nullable (by rfl)
    (fun condition _ => condition.restores_toJson .collected) _ isCondition
  simp [branchOfJson?, found, Json.required?, Json.default?, readsCondition,
    Json.restores_bool _ _ isOutcome, Json.restores_uint32 _ _ isSite]

theorem restores_toJson (event : Event) : Json.Restores ofJson? event.toJson event := by
  intro value reordered
  cases event with
  | branch outcome condition site =>
      rcases Json.Reordered.tagged (exact_toJson (.branch outcome condition site)) reordered with
        ⟨others, tagged, rest⟩
      have reads := restores_branch outcome condition site _ rest
      simp [ofJson?, tagged, reads]
  | intInput | longInput | floatInput | textInput | beginScope | endScope | branchDone
  | branchForced =>
      rcases Json.Reordered.tagged (.variant .string) reordered with ⟨others, tagged, _⟩
      rw [ofJson?, tagged]
      rfl

end Event

namespace Trace

theorem exact_toJson (trace : Trace) : trace.toJson.Exact := by
  apply Json.Exact.object (by simp)
  simp only [List.forall_mem_cons]
  exact ⟨.list fun _ _ => .string, .list fun event _ => event.exact_toJson, by simp⟩

theorem restores_toJson (trace : Trace) : Json.Restores ofJson? trace.toJson trace := by
  intro value reordered
  rcases Json.Reordered.fields ["strings", "events"]
    [.strings trace.strings, .array (trace.events.map Event.toJson)] (by decide) rfl reordered with
    ⟨others, members, rfl, found, each⟩
  rcases each with _ | ⟨areStrings, _ | ⟨areEvents, _ | _⟩⟩
  have readsStrings := Json.Restores.list
    (fun text (_ : text ∈ trace.strings) => Json.restores_string text) _ areStrings
  have readsEvents := Json.Restores.list
    (fun event (_ : event ∈ trace.events) => event.restores_toJson) _ areEvents
  simp [ofJson?, found, Json.required?, Json.default?, readsStrings, readsEvents]

end Trace

/-- Conditions, sums, terms, assignments, traces and paths are read back as they were stored, and what
is loaded from a file is the path that was saved there. A device in the place of the file keeps
nothing. -/
theorem stored_forms_read_back :
    (∀ condition : PathCondition,
      Json.ReadBack PathCondition.toJson PathCondition.ofJson? condition) ∧
    (∀ sum : Linear, Json.ReadBack Linear.toJson (fun _ => Linear.ofJson?) sum) ∧
    (∀ term : Arith, Json.ReadBack Arith.toJson (fun _ => Arith.ofJson?) term) ∧
    (∀ assignment : Assignment,
      Json.ReadBack VarMap.toJson (fun _ => VarMap.ofJson?) assignment) ∧
    (∀ trace : Trace, Json.ReadBack Trace.toJson (fun _ => Trace.ofJson?) trace) ∧
    ∀ steps : List PathStep, (∀ step ∈ steps, step.Storable) →
      Json.ReadBack PathStep.listToJson (fun _ => PathStep.listOfJson?) steps ∧
      (PathStep.listToJson steps).depth ≤ Json.depthLimit ∧
      ∀ (directory saved : Directory) (path : String),
        (∀ kind, directory.find? path ≠ some (.device kind)) →
        PathFile.save directory path steps = .ok saved → PathFile.load saved path = .ok steps := by
  refine ⟨fun condition => ?_, fun sum => ?_, fun term => ?_, fun assignment => ?_, fun trace => ?_,
    fun steps storable => ⟨?_, PathStep.depth_listToJson_le steps, ?_⟩⟩
  · exact condition.exact_toJson.readBack fun reading => condition.restores_toJson reading
  · exact sum.exact_toJson.readBack fun _ => sum.restores_toJson
  · exact term.exact_toJson.readBack fun _ => term.restores_toJson
  · exact assignment.exact_toJson.readBack fun _ => assignment.restores_toJson
  · exact trace.exact_toJson.readBack fun _ => trace.restores_toJson
  · exact (PathStep.exact_listToJson storable).readBack fun _ =>
      PathStep.restores_listToJson storable
  · intro directory saved path noDevice isSaved
    exact PathFile.load_save storable noDevice isSaved

/-- The trace of a program that asks for a text and a number and takes a branch whose condition nests
a test of the one and a product with the other. -/
def storedTrace : Trace where
  strings := ["ab"]
  events := [.textInput, .intInput, .branch true (some (.anyOf [
    .test false ⟨.startsWith (-1), ⟨[.input 1 2]⟩, .literal ⟨0⟩⟩,
    .compare (.mul (.var (.int 2)) (.var (.char 1 0))) (.const 7) .lt])) 4]

/-- A branch inside a scope. -/
def storedPath : List PathStep :=
  [.scope .opening, .branch { taken := true, condition := some 0, site := 4 }, .scope .closing]

theorem storedTrace_and_storedPath_read_back :
    storedTrace.toJson.depth ≤ Json.depthLimit ∧
    (Json.parse? storedTrace.toJson.pretty).bind Trace.ofJson? = some storedTrace ∧
    (∀ step ∈ storedPath, step.Storable) ∧
    ∃ saved, PathFile.save {} "path.json" storedPath = .ok saved ∧
      PathFile.load saved "path.json" = .ok storedPath := by
  rcases stored_forms_read_back with ⟨_, _, _, _, traces, paths⟩
  have shallow : storedTrace.toJson.depth ≤ Json.depthLimit := by decide
  have storable : ∀ step ∈ storedPath, step.Storable := by
    rintro step isStep branch rfl number isNumber
    simp only [storedPath, List.mem_cons, PathStep.branch.injEq, List.not_mem_nil, or_false,
      reduceCtorEq, false_or] at isStep
    subst isStep
    cases isNumber
    decide
  have saves : ∃ saved, PathFile.save {} "path.json" storedPath = .ok saved := ⟨_, rfl⟩
  have absent : Directory.find? {} "path.json" = none := by decide
  rcases saves with ⟨saved, isSaved⟩
  rcases paths storedPath storable with ⟨_, _, loads⟩
  refine ⟨shallow, ((traces storedTrace).2 shallow).1, storable, saved, isSaved, ?_⟩
  exact loads {} saved "path.json" (by simp [absent]) isSaved

end Concolic
