import Mathlib
import Concolic.PathFile
import Concolic.Proofs.Files
import Concolic.Proofs.Reordering

/-!
# The expected path is read as it was saved

A path is stored as JSON text. The stored form keeps all of it if the numbers of conditions fit into
64 bits, and its text can be read. So what the next run is expected to do is what was saved for it.
-/

namespace Concolic

/-- A branch is read from its fields. -/
theorem Branch.restores_fields {branch : Branch}
    (small : ∀ number, branch.condition = some number → number < 2 ^ 64) :
    Json.Restores Branch.ofJson? (.object branch.fieldsToJson) branch := by
  intro value reordered
  rcases Json.Reordered.fields
    ["branch_taken", "is_force_truth", "done", "path_constraint_index", "site"]
    [.bool branch.taken, .bool branch.forced, .bool branch.done, .optional .nat branch.condition,
      .nat branch.site.toNat] (by decide) rfl reordered with ⟨others, members, rfl, found, each⟩
  rcases each with _ | ⟨isTaken, _ | ⟨isForced, _ | ⟨isDone, _ | ⟨isCondition, _ | ⟨isSite, _ | _⟩⟩⟩⟩⟩
  have readsCondition := Json.Restores.nullable (by rfl)
    (fun number isNumber => Json.restores_nat (small number isNumber)) _ isCondition
  simp [Branch.ofJson?, found, Json.required?, Json.default?, readsCondition,
    Json.restores_bool _ _ isTaken, Json.restores_bool _ _ isForced,
    Json.restores_bool _ _ isDone, Json.restores_uint32 _ _ isSite]

namespace PathStep

/-- The number of the step's condition, if it has one, fits into 64 bits. -/
def Storable (step : PathStep) : Prop :=
  ∀ branch, step = .branch branch → ∀ number, branch.condition = some number → number < 2 ^ 64

theorem exact_toJson {step : PathStep} (storable : step.Storable) : step.toJson.Exact := by
  cases step with
  | branch fork =>
      apply Json.Exact.object (by simp [Branch.fieldsToJson])
      simp only [Branch.fieldsToJson, List.forall_mem_cons]
      refine ⟨.string, .bool, .bool, .bool, ?_, Json.exact_uint32 _, by simp⟩
      apply Json.exact_optional
      intro number isNumber
      exact Json.exact_nat (storable fork rfl number isNumber)
  | scope edge =>
      apply Json.Exact.object (by simp)
      simp only [List.forall_mem_cons]
      refine ⟨.string, ?_, by simp⟩
      cases edge with
      | opening => exact .string
      | closing => exact .string

theorem restores_toJson {step : PathStep} (storable : step.Storable) :
    Json.Restores ofJson? step.toJson step := by
  intro value reordered
  cases step with
  | branch fork =>
      rcases Json.Reordered.tagged (exact_toJson storable) reordered with ⟨others, tagged, rest⟩
      have reads := Branch.restores_fields (storable fork rfl) _ rest
      simp [ofJson?, tagged, reads]
  | scope edge =>
      rcases Json.Reordered.tagged (exact_toJson storable) reordered with ⟨others, tagged, rest⟩
      rcases Json.Reordered.fields ["edge"] [edge.toJson] (by decide) rfl rest with
        ⟨fields, members, same, found, each⟩
      cases same
      rcases each with _ | ⟨isEdge, _ | _⟩
      cases edge <;> cases isEdge <;>
        simp [ofJson?, tagged, found, Json.required?, ScopeEdge.ofJson?,
          ScopeEdge.toJson, Json.variant?, Json.isBare]

theorem exact_listToJson {steps : List PathStep} (storable : ∀ step ∈ steps, step.Storable) :
    (listToJson steps).Exact :=
  .list fun step isStep => exact_toJson (storable step isStep)

theorem restores_listToJson {steps : List PathStep} (storable : ∀ step ∈ steps, step.Storable) :
    Json.Restores listOfJson? (listToJson steps) steps :=
  .list fun step isStep => restores_toJson (storable step isStep)

/-- A list of steps is never nested too deeply. -/
theorem depth_listToJson_le (steps : List PathStep) :
    (listToJson steps).depth ≤ Json.depthLimit := by
  have flat (step : PathStep) : step.toJson.depth ≤ 1 := by
    rcases step with ⟨taken, forced, done, _ | number, site⟩ | (_ | _) <;> exact Nat.le_refl 1
  have each : Json.itemsDepth (steps.map toJson) ≤ 1 := by
    induction steps with
    | nil => exact Nat.zero_le 1
    | cons step rest ih =>
        simp only [List.map_cons, Json.itemsDepth]
        exact max_le (flat step) ih
  rw [listToJson, Json.depth, Json.depthLimit]
  omega

/-- Stored steps are read as they are. -/
theorem listOfText?_listToText {steps : List PathStep} (storable : ∀ step ∈ steps, step.Storable) :
    listOfText? (listToText steps) = some steps := by
  have printable := (exact_listToJson storable).printable (depth_listToJson_le steps)
  rw [listOfText?, listToText, Json.parse?_pretty printable]
  exact restores_listToJson storable _ (.refl _)

end PathStep

namespace PathFile

theorem load_of_found {directory : Directory} {path : String} {location : Location}
    {steps : List PathStep} (storable : ∀ step ∈ steps, step.Storable)
    (found : directory.find path = .ok (location, .text (PathStep.listToText steps))) :
    load directory path = .ok steps := by
  simp only [load, Directory.read, found, PathStep.listOfText?_listToText storable]

/-- A path that is saved in a file is loaded as it was saved. -/
theorem load_save {directory saved : Directory} {path : String} {steps : List PathStep}
    (storable : ∀ step ∈ steps, step.Storable)
    (noDevice : ∀ kind, directory.find? path ≠ some (.device kind))
    (isSaved : save directory path steps = .ok saved) : load saved path = .ok steps := by
  simp only [save] at isSaved
  split at isSaved
  · rename_i written isWritten
    cases isSaved
    rcases Directory.find_of_writeEntry (by simp) isWritten (by
      intro location leads kind isDevice
      apply noDevice kind
      simp [Directory.find?, Directory.find, leads, isDevice]) with ⟨_, _, _, found⟩
    exact load_of_found storable found
  · cases isSaved

/-- A saved path that can be loaded is loaded as it was saved. -/
theorem load_of_save {directory saved : Directory} {path : String} {steps loaded : List PathStep}
    (storable : ∀ step ∈ steps, step.Storable) (isSaved : save directory path steps = .ok saved)
    (isLoaded : load saved path = .ok loaded) : loaded = steps := by
  simp only [save] at isSaved
  split at isSaved
  · rename_i written isWritten
    cases isSaved
    rcases Directory.writeEntry_spec isWritten with
      ⟨location, leads, _, ⟨⟨kind, isDevice⟩, rfl⟩ | ⟨noDevice, _⟩⟩
    · -- A device holds no path.
      have found : saved.find path = .ok (location, .device kind) := by
        simp [Directory.find, leads, isDevice]
      cases kind <;> simp only [load, Directory.read, found] at isLoaded <;> cases isLoaded
    · rcases Directory.find_of_writeEntry (by simp) isWritten (by
        intro other leadsThere
        cases leads.symm.trans leadsThere
        exact noDevice) with ⟨_, _, _, found⟩
      rw [load_of_found storable found] at isLoaded
      exact (Except.ok.inj isLoaded).symm
  · cases isSaved

end PathFile

end Concolic
