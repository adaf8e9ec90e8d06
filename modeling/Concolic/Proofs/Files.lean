import Mathlib
import Concolic.Directory

/-!
# Written input lines can be read

Replacing the lines of an input file takes three file operations. If all of them succeed, the file
holds the new lines, wherever its path leads and whatever stood there before. A path leads to the
same place as long as the folders stay the same, and none of the operations touches a folder.

The names of the backup and of the draft continue the name of the input file, so all three stand in
one folder and no two of them are the same file.
-/

namespace Concolic

namespace Directory

variable {directory later : Directory}

theorem lookup_filter_ne (location other : Location) (entries : List (Location × Entry)) :
    (entries.filter fun entry => entry.1 ≠ location).lookup other =
      if other = location then none else entries.lookup other := by
  induction entries with
  | nil => simp
  | cons entry rest ih =>
      by_cases same : entry.1 = location
      · rw [List.filter_cons_of_neg (by simpa using same), ih]
        split
        · rfl
        · rename_i apart
          have otherKey : (other == entry.1) = false := by
            rw [same]
            simpa using apart
          rw [List.lookup_cons, otherKey]
      · rw [List.filter_cons_of_pos (by simpa using same), List.lookup_cons, List.lookup_cons, ih]
        by_cases key : other = entry.1
        · simp [key, same]
        · have apart : (other == entry.1) = false := by simpa using key
          rw [apart]

theorem get?_set (directory : Directory) (location other : Location) (entry : Entry) :
    (directory.set location entry).get? other =
      if other.names.isEmpty then some .folder
      else if other = location then some entry else directory.get? other := by
  simp only [get?, set]
  split
  · rfl
  · rw [List.lookup_cons]
    by_cases same : other = location
    · simp [same]
    · have apart : (other == location) = false := by simpa using same
      rw [apart, lookup_filter_ne]
      simp [same]

theorem get?_erase (directory : Directory) (location other : Location) :
    (directory.erase location).get? other =
      if other.names.isEmpty then some .folder
      else if other = location then none else directory.get? other := by
  simp only [get?, erase, lookup_filter_ne]
  split
  · rfl
  · rfl

/-- Two states of a directory have the same folders. -/
def SameFolders (directory later : Directory) : Prop :=
  later.depth = directory.depth ∧
    ∀ location, later.get? location = some .folder ↔ directory.get? location = some .folder

theorem SameFolders.symm (same : SameFolders directory later) : SameFolders later directory :=
  ⟨same.1.symm, fun location => (same.2 location).symm⟩

theorem SameFolders.trans {last : Directory} (first : SameFolders directory later)
    (second : SameFolders later last) : SameFolders directory last :=
  ⟨second.1.trans first.1, fun location => (second.2 location).trans (first.2 location)⟩

theorem sameFolders_set {location : Location} {entry : Entry}
    (wasNone : directory.get? location ≠ some .folder) (isNone : entry ≠ .folder) :
    SameFolders directory (directory.set location entry) := by
  refine ⟨rfl, fun other => ?_⟩
  rw [get?_set]
  split
  · rename_i atStart
    simp [get?, atStart]
  · split
    · rename_i same
      rw [same]
      simp [wasNone, isNone]
    · rfl

theorem sameFolders_erase {location : Location}
    (wasNone : directory.get? location ≠ some .folder) :
    SameFolders directory (directory.erase location) := by
  refine ⟨rfl, fun other => ?_⟩
  rw [get?_erase]
  split
  · rename_i atStart
    simp [get?, atStart]
  · split
    · rename_i same
      rw [same]
      simp [wasNone]
    · rfl

/-- A path that leads somewhere leads there as long as the folders stay the same. -/
theorem SameFolders.place (same : SameFolders directory later) {path : String} {found : Place}
    (leads : directory.place path = .ok found) : later.place path = .ok found := by
  have sameStep (location : Location) (name : String) :
      later.step location name = directory.step location name := by
    simp only [step, same.1]
  have sameEnter {location next : Location} {name : String}
      (enters : directory.enter location name = .ok next) :
      later.enter location name = .ok next := by
    simp only [enter, sameStep] at enters ⊢
    split at enters
    · simp at enters
    · split at enters
      · rename_i isFolder
        rw [(same.2 _).mpr isFolder]
        exact enters
      · simp at enters
      · simp at enters
  have sameFollow (namesFolder : Bool) (steps : List String) (location : Location)
      (follows : directory.follow namesFolder steps location = .ok found) :
      later.follow namesFolder steps location = .ok found := by
    fun_induction follow directory namesFolder steps location with
    | case1 location => exact follows
    | case2 location last fault failed => simp at follows
    | case3 location last next steps =>
        rw [follow, sameStep, steps]
        exact follows
    | case4 location name rest notLast fault failed => simp at follows
    | case5 location name rest notLast next enters ih =>
        rw [follow, sameEnter enters]
        · exact ih follows
        · exact notLast
  simp only [Directory.place] at leads ⊢
  split at leads
  · simp at leads
  · rename_i notEmpty
    split at leads
    · simp at leads
    · rename_i usable
      rw [if_neg notEmpty, if_neg usable]
      exact sameFollow _ _ _ leads

/-- What writing a file does: it sets the place that the path leads to, unless a device is there. -/
theorem writeEntry_spec {path : String} {entry : Entry}
    (written : directory.writeEntry path entry = .ok later) :
    ∃ location, directory.place path = .ok ⟨location, false⟩ ∧
      directory.get? location ≠ some .folder ∧
      ((∃ kind, directory.get? location = some (.device kind)) ∧ later = directory ∨
        (∀ kind, directory.get? location ≠ some (.device kind)) ∧
          later = directory.set location entry) := by
  simp only [writeEntry] at written
  split at written
  · simp at written
  · simp at written
  · rename_i location leads
    refine ⟨location, leads, ?_⟩
    split at written
    · simp at written
    · simp at written
    · rename_i kind notFull isDevice
      exact ⟨by simp [isDevice], .inl ⟨⟨kind, isDevice⟩, (Except.ok.inj written).symm⟩⟩
    · rename_i noFolder notFull noDevice
      refine ⟨noFolder, .inr ⟨?_, (Except.ok.inj written).symm⟩⟩
      intro kind
      exact noDevice kind

theorem SameFolders.of_writeEntry {path : String} {entry : Entry} (noFolder : entry ≠ .folder)
    (written : directory.writeEntry path entry = .ok later) : SameFolders directory later := by
  obtain ⟨location, _, wasNone, ⟨_, rfl⟩ | ⟨_, rfl⟩⟩ := writeEntry_spec written
  · exact ⟨rfl, fun _ => Iff.rfl⟩
  · exact sameFolders_set wasNone noFolder

/-- A file that is no device after something else than a device was written was none before. -/
theorem device_of_writeEntry {path : String} {entry : Entry} {kind : Device}
    (noDevice : entry ≠ .device kind) (written : directory.writeEntry path entry = .ok later)
    {location : Location} (isDevice : later.get? location = some (.device kind)) :
    directory.get? location = some (.device kind) := by
  obtain ⟨target, _, _, ⟨_, rfl⟩ | ⟨_, rfl⟩⟩ := writeEntry_spec written
  · exact isDevice
  · rw [get?_set] at isDevice
    split at isDevice
    · simp at isDevice
    · split at isDevice
      · exact absurd (Option.some.inj isDevice) noDevice
      · exact isDevice

/-- What was written at a path without a device is found there. -/
theorem find_of_writeEntry {path : String} {entry : Entry} (noFolder : entry ≠ .folder)
    (written : directory.writeEntry path entry = .ok later)
    (noDevice : ∀ location, directory.place path = .ok ⟨location, false⟩ →
      ∀ kind, directory.get? location ≠ some (.device kind)) :
    ∃ location, later = directory.set location entry ∧
      directory.get? location ≠ some .folder ∧ later.find path = .ok (location, entry) := by
  have sameFolders := SameFolders.of_writeEntry noFolder written
  obtain ⟨location, leads, wasNone, ⟨⟨kind, isDevice⟩, _⟩ | ⟨_, rfl⟩⟩ := writeEntry_spec written
  · exact absurd isDevice (noDevice location leads kind)
  · refine ⟨location, rfl, wasNone, ?_⟩
    have notStart : location.names.isEmpty = false := by
      cases atStart : location.names.isEmpty with
      | false => rfl
      | true => exact absurd (by simp [get?, atStart]) wasNone
    have stands : (directory.set location entry).get? location = some entry := by
      rw [get?_set, notStart]
      simp
    simp [find, sameFolders.place leads, stands]

theorem rename_spec {source target : String}
    (renamed : directory.rename source target = .ok later) :
    ∃ location entry, directory.find source = .ok (location, entry) ∧ entry ≠ .folder ∧
      (∀ kind, entry ≠ .device kind) ∧
      (directory.erase location).writeEntry target entry = .ok later := by
  simp only [rename] at renamed
  split at renamed
  · simp at renamed
  · simp at renamed
  · simp at renamed
  · rename_i location entry noFolder noDevice found
    exact ⟨location, entry, found, noFolder, noDevice, renamed⟩

/-! ### Files with places of their own -/

/-- A path leads to a location where a file stands or can be put. -/
structure Offers (directory : Directory) (path : String) (location : Location) : Prop where
  leads : directory.place path = .ok ⟨location, false⟩
  noFolder : directory.get? location ≠ some .folder
  noDevice : ∀ kind, directory.get? location ≠ some (.device kind)

/-- Nothing has changed but at some locations, and no folder or device has come or gone there. -/
structure Changes (changed : List Location) (directory later : Directory) : Prop where
  folders : SameFolders directory later
  devices : ∀ location kind, later.get? location = some (.device kind) →
    directory.get? location = some (.device kind)
  same : ∀ location, location ∉ changed → later.get? location = directory.get? location

/-- The location of the file that a path leads to, if it leads to one. -/
def leadsTo (directory : Directory) (path : String) : List Location :=
  match directory.place path with
  | .ok ⟨location, false⟩ => [location]
  | _ => []

theorem mem_leadsTo {path : String} {location : Location} :
    location ∈ directory.leadsTo path ↔ directory.place path = .ok ⟨location, false⟩ := by
  rw [leadsTo]
  split
  · rename_i leads
    simp [leads, eq_comm]
  · rename_i elsewhere
    exact ⟨fun none => absurd none List.not_mem_nil, fun leads => (elsewhere location leads).elim⟩

namespace Changes

variable {changed more : List Location}

theorem refl (directory : Directory) : Changes [] directory directory :=
  ⟨⟨rfl, fun _ => Iff.rfl⟩, fun _ _ isDevice => isDevice, fun _ _ => rfl⟩

theorem trans {last : Directory} (first : Changes changed directory later)
    (second : Changes more later last) : Changes (changed ++ more) directory last := by
  refine ⟨first.folders.trans second.folders, ?_, ?_⟩
  · intro location kind isDevice
    exact first.devices location kind (second.devices location kind isDevice)
  · intro location isApart
    rw [List.mem_append, not_or] at isApart
    exact (second.same location isApart.2).trans (first.same location isApart.1)

theorem mono (changes : Changes changed directory later) (subset : changed ⊆ more) :
    Changes more directory later :=
  ⟨changes.folders, changes.devices, fun location isApart =>
    changes.same location fun isOne => isApart (subset isOne)⟩

theorem of_sameFolders {location : Location} (folders : SameFolders directory later)
    (same : ∀ other, other ≠ location → later.get? other = directory.get? other)
    (noDevice : ∀ kind, later.get? location ≠ some (.device kind)) :
    Changes [location] directory later := by
  refine ⟨folders, ?_, ?_⟩
  · intro other kind isDevice
    by_cases isOne : other = location
    · exact absurd isDevice (isOne ▸ noDevice kind)
    · rw [← same other isOne, isDevice]
  · intro other isApart
    exact same other (by simpa using isApart)

/-- Files can still be put wherever they could. -/
theorem offers {path : String} {location : Location} (changes : Changes changed directory later)
    (offers : directory.Offers path location) : later.Offers path location := by
  refine ⟨changes.folders.place offers.leads, ?_, ?_⟩
  · intro isFolder
    exact offers.noFolder ((changes.folders.2 location).mp isFolder)
  · intro kind isDevice
    exact offers.noDevice kind (changes.devices location kind isDevice)

theorem leadsTo_subset (changes : Changes changed directory later) (path : String) :
    later.leadsTo path ⊆ directory.leadsTo path := by
  intro location leads
  rw [mem_leadsTo] at leads ⊢
  exact changes.folders.symm.place leads

/-- Setting a location changes nothing else. -/
theorem set {location : Location} {entry : Entry}
    (wasNone : directory.get? location ≠ some .folder) (noFolder : entry ≠ .folder)
    (noDevice : ∀ kind, entry ≠ .device kind) :
    Changes [location] directory (directory.set location entry) := by
  apply of_sameFolders (sameFolders_set wasNone noFolder)
  · intro other isApart
    rw [get?_set, if_neg isApart]
    split
    · rename_i atStart
      simp [get?, atStart]
    · rfl
  · intro kind isDevice
    rw [get?_set] at isDevice
    split at isDevice
    · cases isDevice
    · rw [if_pos rfl] at isDevice
      exact noDevice kind (Option.some.inj isDevice)

/-- Writing a file changes nothing but where its path leads. -/
theorem of_write {path contents : String} (written : directory.write path contents = .ok later) :
    Changes (directory.leadsTo path) directory later := by
  obtain ⟨location, leads, wasNone, ⟨_, rfl⟩ | ⟨_, rfl⟩⟩ := writeEntry_spec written
  · exact (refl _).mono (List.nil_subset _)
  · have changes : Changes [location] directory (directory.set location (.text contents)) :=
      set wasNone (by simp) (by simp)
    exact changes.mono (by simp [mem_leadsTo.mpr leads])

end Changes

namespace Offers

variable {path other : String} {location place : Location} {entry : Entry}

theorem find (offers : directory.Offers path location) :
    directory.find path =
      match directory.get? location with
      | some entry => .ok (location, entry)
      | none => .error .missing := by
  simp only [Directory.find, offers.leads]
  split <;> simp_all

theorem find? (offers : directory.Offers path location) :
    directory.find? path = directory.get? location := by
  simp only [Directory.find?, offers.find]
  cases directory.get? location with
  | none => rfl
  | some entry => rfl

theorem names_ne (offers : directory.Offers path location) : location.names.isEmpty = false := by
  rw [Bool.eq_false_iff]
  intro atStart
  exact offers.noFolder (by simp [get?, atStart])

theorem get?_set_self (offers : directory.Offers path location) (entry : Entry) :
    (directory.set location entry).get? location = some entry := by
  simp [get?_set, offers.names_ne]

theorem get?_erase_self (offers : directory.Offers path location) :
    (directory.erase location).get? location = none := by
  simp [get?_erase, offers.names_ne]

theorem changes_set (offers : directory.Offers path location) (noFolder : entry ≠ .folder)
    (noDevice : ∀ kind, entry ≠ .device kind) :
    Changes [location] directory (directory.set location entry) :=
  .set offers.noFolder noFolder noDevice

theorem changes_erase (offers : directory.Offers path location) :
    Changes [location] directory (directory.erase location) := by
  apply Changes.of_sameFolders (sameFolders_erase offers.noFolder)
  · intro other isApart
    rw [get?_erase, if_neg isApart]
    split
    · rename_i atStart
      simp [get?, atStart]
    · rfl
  · intro kind isDevice
    rw [offers.get?_erase_self] at isDevice
    cases isDevice

theorem writeEntry (offers : directory.Offers path location) (entry : Entry) :
    directory.writeEntry path entry = .ok (directory.set location entry) := by
  simp only [Directory.writeEntry, offers.leads]
  split
  · rename_i isFolder
    exact absurd isFolder offers.noFolder
  · rename_i isDevice
    exact absurd isDevice (offers.noDevice _)
  · rename_i isDevice
    exact absurd isDevice (offers.noDevice _)
  · rfl

/-- Removing a file that may be missing leaves none. -/
theorem discard (offers : directory.Offers path location) :
    ∃ later, directory.discard path = .ok later ∧ Changes [location] directory later ∧
      later.get? location = none := by
  simp only [Directory.discard, Directory.remove, offers.find]
  cases found : directory.get? location with
  | none => exact ⟨directory, rfl, (Changes.refl directory).mono (List.nil_subset _), found⟩
  | some entry =>
      refine ⟨directory.erase location, ?_, offers.changes_erase, offers.get?_erase_self⟩
      cases entry with
      | text contents => rfl
      | binary bytes => rfl
      | folder => exact absurd found offers.noFolder
      | device kind => exact absurd found (offers.noDevice kind)

/-- A file is moved to another place. -/
theorem rename (offers : directory.Offers path location)
    (found : directory.get? location = some entry)
    (target : directory.Offers other place) :
    directory.rename path other = .ok ((directory.erase location).set place entry) := by
  have writes := (offers.changes_erase.offers target).writeEntry entry
  simp only [Directory.rename, offers.find, found]
  cases entry with
  | text contents => exact writes
  | binary bytes => exact writes
  | folder => exact absurd found offers.noFolder
  | device kind => exact absurd found (offers.noDevice kind)

end Offers

end Directory

/-- A backup changes no folder and makes no device, and it is made of files only. -/
theorem backupInputs_spec {directory kept : Directory} {path : String}
    (backedUp : backupInputs directory path = .ok kept) :
    directory.SameFolders kept ∧
      (∀ location kind, kept.get? location = some (.device kind) →
        directory.get? location = some (.device kind)) ∧
      ∀ kind, directory.find? path ≠ some (.device kind) := by
  simp only [backupInputs] at backedUp
  split at backedUp
  · rename_i missing
    cases backedUp
    exact ⟨⟨rfl, fun _ => Iff.rfl⟩, fun _ _ isDevice => isDevice, by simp [missing]⟩
  · simp at backedUp
  · simp at backedUp
  · rename_i entry noFolder noDevice found
    refine ⟨.of_writeEntry noFolder backedUp, ?_, ?_⟩
    · intro location kind isDevice
      exact Directory.device_of_writeEntry (noDevice kind) backedUp isDevice
    · intro kind isDevice
      rw [found] at isDevice
      exact noDevice kind (Option.some.inj isDevice)

/-- Lines that were written as inputs can be read. -/
theorem read_of_writeInputs {directory final : Directory} {path : String} {lines : List String}
    (written : writeInputs directory path lines = (.ok (), final)) :
    final.read path = .ok (Text.unlines lines) := by
  simp only [writeInputs] at written
  split at written
  · simp at written
  rename_i kept backedUp
  obtain ⟨keptFolders, keptDevices, noDevice⟩ := backupInputs_spec backedUp
  split at written
  · simp at written
  rename_i draft drafted
  split at written
  · simp at written
  rename_i last renamed
  obtain rfl : last = final := (Prod.mk.inj written).2
  obtain ⟨location, entry, found, noFolder, entryNoDevice, moved⟩ := Directory.rename_spec renamed
  -- A draft that went to a device would not have been found as a file.
  have draftFile : ∀ location, kept.place (path ++ ".tmp") = .ok ⟨location, false⟩ →
      ∀ kind, kept.get? location ≠ some (.device kind) := by
    intro draftLocation leads kind isDevice
    obtain ⟨target, leadsTo, _, ⟨_, unchanged⟩ | ⟨noneThere, _⟩⟩ :=
      Directory.writeEntry_spec drafted
    · rw [unchanged, Directory.find, leads] at found
      simp only [isDevice, Bool.false_eq_true, false_and, if_false, Except.ok.injEq,
        Prod.mk.injEq] at found
      exact entryNoDevice kind found.2.symm
    · rw [leads, Except.ok.injEq, Place.mk.injEq] at leadsTo
      exact noneThere kind (leadsTo.1 ▸ isDevice)
  obtain ⟨draftLocation, isDraft, wasNone, draftFound⟩ :=
    Directory.find_of_writeEntry (by simp) drafted draftFile
  rw [draftFound, Except.ok.injEq, Prod.mk.injEq] at found
  obtain ⟨rfl, rfl⟩ := found
  have draftFolders : kept.SameFolders draft := .of_writeEntry (by simp) drafted
  have erasedFolders : draft.SameFolders (draft.erase draftLocation) := by
    apply Directory.sameFolders_erase
    rwa [Ne, draftFolders.2]
  have allFolders := keptFolders.trans (draftFolders.trans erasedFolders)
  have pathNoDevice : ∀ location, (draft.erase draftLocation).place path = .ok ⟨location, false⟩ →
      ∀ kind, (draft.erase draftLocation).get? location ≠ some (.device kind) := by
    intro location leads kind isDevice
    rw [Directory.get?_erase] at isDevice
    split at isDevice
    · simp at isDevice
    split at isDevice
    · simp at isDevice
    have inKept := Directory.device_of_writeEntry (by simp) drafted isDevice
    apply noDevice kind
    simp [Directory.find?, Directory.find, allFolders.symm.place leads,
      keptDevices location kind inKept]
  obtain ⟨place, _, _, finalFound⟩ := Directory.find_of_writeEntry (by simp) moved pathNoDevice
  simp [Directory.read, finalFound]

/-! ### Files beside each other -/

/-- What is put behind a text goes to the last of the pieces between its slashes. -/
theorem Text.exists_last_piece (text : List Char) :
    ∃ init last, ∀ suffix, '/' ∉ suffix →
      splitWhere (· == '/') (text ++ suffix) = init ++ [last ++ suffix] := by
  by_cases hasSlash : '/' ∈ text.reverse
  · rcases List.eq_append_cons_of_mem hasSlash with ⟨after, before, isReverse, solid⟩
    have isText : text = before.reverse ++ '/' :: after.reverse := by
      rw [← List.reverse_reverse text, isReverse]
      simp
    refine ⟨splitWhere (· == '/') before.reverse, after.reverse, ?_⟩
    intro suffix suffixSolid
    have isSolid : '/' ∉ after.reverse ++ suffix := by simp [solid, suffixSolid]
    rw [isText, List.append_assoc, List.cons_append, splitWhere_append (by decide),
      splitWhere_of_notMem isSolid]
  · refine ⟨[], text, ?_⟩
    intro suffix suffixSolid
    apply splitWhere_of_notMem
    simpa [suffixSolid] using hasSlash

/-- What is put behind a path to a file goes to its last step. -/
theorem Path.exists_last_step {path : String} (namesFile : (ofText path).namesFolder = false) :
    ∃ start steps last, last ≠ "" ∧ ∀ suffix : String, '/' ∉ suffix.toList →
      ofText (path ++ suffix) = ⟨start, steps ++ [last ++ suffix], false⟩ := by
  rcases Text.exists_last_piece path.toList with ⟨init, last, pieces⟩
  have nonempty : last ≠ [] := by
    have isPath := pieces [] (by simp)
    rintro rfl
    rw [List.append_nil, List.append_nil] at isPath
    simp [ofText, isPath] at namesFile
  refine ⟨if init.head? = some [] then ⟨.root, []⟩ else {},
    (init.filter fun piece => !piece.isEmpty).map String.ofList, String.ofList last, ?_, ?_⟩
  · simpa using nonempty
  · intro suffix solid
    have isLast : last ++ suffix.toList ≠ [] := by simp [nonempty]
    have sameStart : (init ++ [last ++ suffix.toList]).head? = some [] ↔
        init.head? = some [] := by
      cases init <;> simp [nonempty]
    have isName : String.ofList (last ++ suffix.toList) = String.ofList last ++ suffix := by
      rw [String.ofList_append, String.ofList_toList]
    simp only [ofText, String.toList_append, pieces _ solid, sameStart]
    simp [isLast, isName, List.filter_append]

theorem Location.length_parent_le (depth : Nat) (location : Location) :
    (location.parent depth).names.length ≤ location.names.length := by
  rcases location with ⟨origin, _ | ⟨first, rest⟩⟩
  · cases origin <;> simp [parent]
    split <;> rfl
  · simp [parent]

namespace Directory

variable {directory : Directory}

/-- A step leads into the folder, or not further down. -/
theorem step_cases {folder next : Location} {name : String}
    (steps : directory.step folder name = .ok next) :
    next = folder.child name ∨
      (name = "." ∨ name = "..") ∧ next.names.length ≤ folder.names.length := by
  simp only [step] at steps
  split at steps
  · rename_i isDot
    cases steps
    exact .inr ⟨.inl isDot, le_rfl⟩
  split at steps
  · rename_i isUp
    cases steps
    exact .inr ⟨.inr isUp, folder.length_parent_le _⟩
  split at steps
  · cases steps
  · cases steps
    exact .inl rfl

/-- All steps but the last lead to a folder, whatever the last one is. -/
theorem follow_concat {namesFolder : Bool} {steps : List String} {last : String}
    {location : Location} {found : Place}
    (follows : directory.follow namesFolder (steps ++ [last]) location = .ok found) :
    ∃ folder, steps.foldlM directory.enter location = .ok folder ∧
      directory.step folder last = .ok found.location ∧ found.namesFolder = namesFolder := by
  induction steps generalizing location with
  | nil =>
      simp only [List.nil_append, follow] at follows
      split at follows
      · cases follows
      · rename_i next isStep
        cases follows
        exact ⟨location, rfl, isStep, rfl⟩
  | cons name rest ih =>
      rw [List.cons_append, follow] at follows
      · split at follows
        · cases follows
        · rename_i next enters
          rcases ih follows with ⟨folder, arrives, isStep, isFile⟩
          refine ⟨folder, ?_, isStep, isFile⟩
          rw [List.foldlM_cons, enters]
          exact arrives
      · simp

theorem follow_of_place {path : String} {found : Place}
    (leads : directory.place path = .ok found) :
    directory.follow (Path.ofText path).namesFolder (Path.ofText path).steps
      (Path.ofText path).start = .ok found := by
  simp only [place] at leads
  split at leads
  · cases leads
  split at leads
  · cases leads
  · exact leads

theorem namesFolder_of_follow {steps : List String} {location : Location} {found : Place}
    (follows : directory.follow true steps location = .ok found) : found.namesFolder = true := by
  rcases List.eq_nil_or_concat steps with rfl | ⟨init, last, rfl⟩
  · cases follows
    rfl
  · rcases follow_concat (by simpa using follows) with ⟨_, _, _, isFolder⟩
    exact isFolder

/-- Names that begin like the name of a file lead into the folder that its path leads to. -/
theorem exists_beside {path : String} {location : Location}
    (leads : directory.place path = .ok ⟨location, false⟩) :
    ∃ (folder : Location) (name : String),
      (location = folder.child name ∨ location.names.length ≤ folder.names.length) ∧
      ∀ suffix : String, '/' ∉ suffix.toList → 2 ≤ suffix.length → ∀ other,
        directory.place (path ++ suffix) = .ok ⟨other, false⟩ →
        other = folder.child (name ++ suffix) := by
  have follows := follow_of_place leads
  have namesFile : (Path.ofText path).namesFolder = false := by
    cases names : (Path.ofText path).namesFolder with
    | false => rfl
    | true =>
        rw [names] at follows
        cases namesFolder_of_follow follows
  rcases Path.exists_last_step namesFile with ⟨start, steps, last, nonempty, parsed⟩
  have isPath := parsed "" (by simp)
  rw [String.append_empty, String.append_empty] at isPath
  rw [isPath] at follows
  rcases follow_concat follows with ⟨folder, arrives, isStep, _⟩
  refine ⟨folder, last, (step_cases isStep).imp_right And.right, ?_⟩
  intro suffix solid long other leadsBeside
  have followsBeside := follow_of_place leadsBeside
  rw [parsed suffix solid] at followsBeside
  rcases follow_concat followsBeside with ⟨sameFolder, arrivesToo, isStepBeside, _⟩
  cases arrives.symm.trans arrivesToo
  have isLong : 3 ≤ (last ++ suffix).length := by
    have : last.length ≠ 0 := by simpa using nonempty
    rw [String.length_append]
    omega
  rcases step_cases isStepBeside with isChild | ⟨isDot | isUp, _⟩
  · exact isChild
  · rw [isDot] at isLong
    exact absurd isLong (by decide)
  · rw [isUp] at isLong
    exact absurd isLong (by decide)

theorem Offers.nodup {path : String} {place copy temporary : Location}
    (inputs : directory.Offers path place) (backup : directory.Offers (path ++ ".bak") copy)
    (draft : directory.Offers (path ++ ".tmp") temporary) : [place, copy, temporary].Nodup := by
  rcases exists_beside inputs.leads with ⟨folder, name, isPlace, beside⟩
  have isCopy := beside ".bak" (by decide) (by decide) _ backup.leads
  have isDraft := beside ".tmp" (by decide) (by decide) _ draft.leads
  have apart (suffix : String) (nonempty : 0 < suffix.length) :
      place ≠ folder.child (name ++ suffix) := by
    rcases isPlace with rfl | isAbove
    · intro same
      have sameName : name = name ++ suffix := by simpa [Location.child] using same
      have sameLength := congrArg String.length sameName
      rw [String.length_append] at sameLength
      omega
    · rintro rfl
      simp [Location.child] at isAbove
  have siblings : folder.child (name ++ ".bak") ≠ folder.child (name ++ ".tmp") := by
    simp [Location.child]
  rw [isCopy, isDraft]
  simp [apart ".bak" (by decide), apart ".tmp" (by decide), siblings]

end Directory

section Offered

variable {directory : Directory} {path : String} {place copy temporary : Location}

/-- A backup replaces an earlier one if there is something to keep. -/
theorem Directory.Offers.backupInputs (inputs : directory.Offers path place)
    (backup : directory.Offers (path ++ ".bak") copy) :
    ∃ kept, Concolic.backupInputs directory path = .ok kept ∧ directory.Changes [copy] kept ∧
      kept.get? copy = (directory.get? place).or (directory.get? copy) := by
  simp only [Concolic.backupInputs, inputs.find?]
  cases found : directory.get? place with
  | none => exact ⟨directory, rfl, (Directory.Changes.refl directory).mono (List.nil_subset _), rfl⟩
  | some entry =>
      have noFolder : entry ≠ .folder := by
        rintro rfl
        exact inputs.noFolder found
      have noDevice : ∀ kind, entry ≠ .device kind := by
        rintro kind rfl
        exact inputs.noDevice kind found
      refine ⟨directory.set copy entry, ?_, backup.changes_set noFolder noDevice,
        backup.get?_set_self entry⟩
      cases entry with
      | text contents => exact backup.writeEntry _
      | binary bytes => exact backup.writeEntry _
      | folder => exact absurd rfl noFolder
      | device kind => exact absurd rfl (noDevice kind)

/-- Where files can be put, input lines replace the earlier ones, which are kept as a backup. -/
theorem Directory.Offers.writeInputs (inputs : directory.Offers path place)
    (backup : directory.Offers (path ++ ".bak") copy)
    (draft : directory.Offers (path ++ ".tmp") temporary) (lines : List String) :
    ∃ final, Concolic.writeInputs directory path lines = (.ok (), final) ∧
      directory.Changes [place, copy, temporary] final ∧
      final.get? place = some (.text (Text.unlines lines)) ∧
      final.get? copy = (directory.get? place).or (directory.get? copy) := by
  have apart := inputs.nodup backup draft
  simp only [List.nodup_cons, List.mem_cons, List.not_mem_nil, or_false, not_or] at apart
  rcases apart with ⟨⟨inputsApart, _⟩, backupApart, _⟩
  rcases inputs.backupInputs backup with ⟨kept, backedUp, changed, holds⟩
  have drafted := changed.offers draft
  have isFile : Entry.text (Text.unlines lines) ≠ .folder := by simp
  have noDevice : ∀ kind, Entry.text (Text.unlines lines) ≠ .device kind := by simp
  have written := drafted.changes_set isFile noDevice
  have stands := drafted.get?_set_self (.text (Text.unlines lines))
  have source := written.offers drafted
  have erased := source.changes_erase
  have target := erased.offers (written.offers (changed.offers inputs))
  have moved := target.changes_set isFile noDevice
  have whole := changed.trans (written.trans (erased.trans moved))
  refine ⟨_, ?_, whole.mono ?_, target.get?_set_self _, ?_⟩
  · simp only [Concolic.writeInputs, backedUp, Directory.write, drafted.writeEntry,
      source.rename stands (written.offers (changed.offers inputs))]
  · intro location
    simp
    tauto
  · rw [moved.same copy (by simpa using Ne.symm inputsApart),
      erased.same copy (by simpa using backupApart),
      written.same copy (by simpa using backupApart), holds]

end Offered

end Concolic
