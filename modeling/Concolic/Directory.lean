import Concolic.Location
import Concolic.Text.Lines

/-!
# The working directory

An exploration keeps its state in a few files of one directory: the inputs of the next run and a
backup of the previous ones, the expected path, the last formula, the trace of the last run, and the
report. The directory is a value here, so that what an exploration does to its files can be stated.

A path is followed step by step. Every step but the last must lead to a folder: a step from a file
is a fault of its own kind, different from a step to something that is not there, because most files
may be missing but none may be unusable.
-/

namespace Concolic

/-- Files that are no storage. -/
inductive Device where
  /-- Takes everything and holds nothing. -/
  | null
  /-- Takes everything and can only be written. -/
  | sink
  /-- Takes nothing. -/
  | full
  deriving DecidableEq, Repr

/-- What stands at a location. -/
inductive Entry where
  | text (contents : String)
  /-- Bytes that are no UTF-8 text. -/
  | binary (bytes : List UInt8)
  | folder
  | device (kind : Device)
  deriving DecidableEq, Repr

/-- Why a file operation failed. -/
inductive FileFault where
  /-- There is no such file. -/
  | missing
  /-- The file is there, or could be, but not for this use. -/
  | unusable
  deriving DecidableEq, Repr

def Entry.ofBytes (bytes : List UInt8) : Entry :=
  match String.fromUTF8? ⟨bytes.toArray⟩ with
  | some contents => .text contents
  | none => .binary bytes

/-- Where a path leads. -/
structure Place where
  location : Location
  /-- Only a folder can be meant. -/
  namesFolder : Bool
  deriving DecidableEq, Repr

/-- A directory with what is around it, as far as it is known. -/
structure Directory where
  entries : List (Location × Entry) := []
  /-- How many levels the directory is below the root. -/
  depth : Nat := 3
  deriving DecidableEq, Repr

namespace Directory

/-- The entry at a location. The places where a way can start are folders. -/
def get? (directory : Directory) (location : Location) : Option Entry :=
  if location.names.isEmpty then some .folder else directory.entries.lookup location

def set (directory : Directory) (location : Location) (entry : Entry) : Directory :=
  { directory with
    entries := (location, entry) :: directory.entries.filter fun (other, _) => other ≠ location }

def erase (directory : Directory) (location : Location) : Directory :=
  { directory with entries := directory.entries.filter fun (other, _) => other ≠ location }

def rootFolders : List String :=
  ["bin", "dev", "etc", "home", "lib", "mnt", "opt", "proc", "root", "run", "sbin", "srv", "sys",
    "tmp", "usr", "var"]

def devices : List (String × Device) :=
  [("null", .null), ("stdin", .null), ("zero", .sink), ("random", .sink), ("urandom", .sink),
    ("stdout", .sink), ("stderr", .sink), ("full", .full)]

/-- An empty directory with the places around it that every host has. -/
def onHost : Directory where
  entries :=
    (rootFolders.map fun name => (⟨.root, [name]⟩, .folder))
      ++ devices.map fun (name, kind) => (⟨.root, ["dev", name]⟩, .device kind)

def step (directory : Directory) (location : Location) (name : String) :
    Except FileFault Location :=
  if name = "." then .ok location
  else if name = ".." then .ok (location.parent directory.depth)
  else if Path.maxNameBytes < name.utf8ByteSize then .error .unusable
  else .ok (location.child name)

/-- Takes a step that must lead to a folder. -/
def enter (directory : Directory) (location : Location) (name : String) :
    Except FileFault Location :=
  match directory.step location name with
  | .error fault => .error fault
  | .ok next =>
      match directory.get? next with
      | some .folder => .ok next
      | some _ => .error .unusable
      | none => .error .missing

/-- Follows the steps of a path, of which only the last may lead to something else than a folder. -/
def follow (directory : Directory) (namesFolder : Bool) :
    List String → Location → Except FileFault Place
  | [], location => .ok ⟨location, true⟩
  | [last], location =>
      match directory.step location last with
      | .error fault => .error fault
      | .ok next => .ok ⟨next, namesFolder⟩
  | name :: rest, location =>
      match directory.enter location name with
      | .error fault => .error fault
      | .ok next => follow directory namesFolder rest next

/-- Where a path leads. -/
def place (directory : Directory) (path : String) : Except FileFault Place :=
  if path = "" then .error .missing
  else if !Path.isUsable path then .error .unusable
  else
    let parsed := Path.ofText path
    directory.follow parsed.namesFolder parsed.steps parsed.start

/-- What a path leads to. A path that names a folder leads to no file. -/
def find (directory : Directory) (path : String) : Except FileFault (Location × Entry) :=
  match directory.place path with
  | .error fault => .error fault
  | .ok ⟨location, namesFolder⟩ =>
      match directory.get? location with
      | none => .error .missing
      | some entry =>
          if namesFolder ∧ entry ≠ .folder then .error .unusable else .ok (location, entry)

/-- What a path leads to, if it exists. -/
def find? (directory : Directory) (path : String) : Option Entry :=
  match directory.find path with
  | .ok (_, entry) => some entry
  | .error _ => none

def read (directory : Directory) (path : String) : Except FileFault String :=
  match directory.find path with
  | .error fault => .error fault
  | .ok (_, .text contents) => .ok contents
  | .ok (_, .device .null) => .ok ""
  | .ok _ => .error .unusable

def writeEntry (directory : Directory) (path : String) (entry : Entry) :
    Except FileFault Directory :=
  match directory.place path with
  | .error fault => .error fault
  | .ok ⟨_, true⟩ => .error .unusable
  | .ok ⟨location, false⟩ =>
      match directory.get? location with
      | some .folder | some (.device .full) => .error .unusable
      | some (.device _) => .ok directory
      | _ => .ok (directory.set location entry)

def write (directory : Directory) (path : String) (contents : String) :
    Except FileFault Directory :=
  directory.writeEntry path (.text contents)

def remove (directory : Directory) (path : String) : Except FileFault Directory :=
  match directory.find path with
  | .error fault => .error fault
  | .ok (_, .folder) | .ok (_, .device _) => .error .unusable
  | .ok (location, _) => .ok (directory.erase location)

/-- Removes a file that may be missing. -/
def discard (directory : Directory) (path : String) : Except FileFault Directory :=
  match directory.remove path with
  | .error .missing => .ok directory
  | outcome => outcome

def rename (directory : Directory) (source target : String) : Except FileFault Directory :=
  match directory.find source with
  | .error fault => .error fault
  | .ok (_, .folder) | .ok (_, .device _) => .error .unusable
  | .ok (location, entry) => (directory.erase location).writeEntry target entry

end Directory

/-- The lines of an input file; a missing file has none. -/
def readInputs (directory : Directory) (path : String) : Except FileFault (List String) :=
  match directory.read path with
  | .ok contents => .ok (Text.lines contents)
  | .error .missing => .ok []
  | .error .unusable => .error .unusable

/-- Keeps the present contents of an input file under a second name. -/
def backupInputs (directory : Directory) (path : String) : Except FileFault Directory :=
  match directory.find? path with
  | none => .ok directory
  | some .folder | some (.device _) => .error .unusable
  | some entry => directory.writeEntry (path ++ ".bak") entry

/-- Replaces the lines of an input file. The present contents are kept as a backup, and the new ones
take the place of the file in one step. A fault leaves the directory as it is at that point. -/
def writeInputs (directory : Directory) (path : String) (lines : List String) :
    Except FileFault Unit × Directory :=
  match backupInputs directory path with
  | .error fault => (.error fault, directory)
  | .ok kept =>
      match kept.write (path ++ ".tmp") (Text.unlines lines) with
      | .error fault => (.error fault, kept)
      | .ok written =>
          match written.rename (path ++ ".tmp") path with
          | .error fault => (.error fault, written)
          | .ok final => (.ok (), final)

end Concolic
