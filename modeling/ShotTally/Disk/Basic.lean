/-
The disk as a value: files and folders by location, and the folder that relative paths start
from. A path leads somewhere only through folders that exist.
-/
import ShotTally.Disk.Path
import ShotTally.Failure

namespace ShotTally

inductive Entry where
  | file (bytes : List UInt8)
  | folder
  deriving DecidableEq

structure Disk where
  /-- Locations are names from the root, joined by slashes. -/
  entries : Keyed Entry
  /-- The names that lead from the root to the working folder. -/
  working : List String

namespace Disk

/-- The name of a location. -/
def key (location : List String) : String := "/".intercalate location

def at? (d : Disk) (location : List String) : Option Entry :=
  if location.isEmpty then some .folder else d.entries.get? (key location)

def isFolderAt (d : Disk) (location : List String) : Bool := d.at? location == some .folder

/-- A disk with nothing but the working folder. -/
def empty (working : List String) : Disk :=
  ⟨.ofList (((List.range working.length).map fun n => (key (working.take (n + 1)), Entry.folder))),
    working⟩

/-! ## Finding a place -/

/-- Goes from a location along segments; every location gone through has to be a folder. -/
def walk (d : Disk) : List String → List String → Option (List String)
  | location, [] => some location
  | location, s :: rest =>
    if d.isFolderAt location then
      if s = "" ∨ s = "." then walk d location rest
      else if s = ".." then walk d location.dropLast rest
      else walk d (location ++ [s]) rest
    else none

/-- Where a path starts from. -/
def origin (d : Disk) (path : String) : List String :=
  if Path.isAbsolute path then [] else d.working

/-- The location of a path, whether or not there is something. -/
def locate (d : Disk) (path : String) : Option (List String) :=
  if path = "" then none else d.walk (d.origin path) (Path.segments path)

/-- The location of a path by its letters alone. -/
def spell (d : Disk) (path : String) : List String :=
  (Path.segments path).foldl (fun location s =>
    if s = "" ∨ s = "." then location
    else if s = ".." then location.dropLast
    else location ++ [s]) (d.origin path)

def find? (d : Disk) (path : String) : Option Entry := (d.locate path).bind d.at?

def isFile (d : Disk) (path : String) : Bool :=
  match d.find? path with
  | some (.file _) => true
  | _ => false

def isFolder (d : Disk) (path : String) : Bool := d.find? path == some .folder

def read? (d : Disk) (path : String) : Option (List UInt8) :=
  match d.find? path with
  | some (.file bytes) => some bytes
  | _ => none

/-! ## Changing it -/

/-- Writes a file into a folder that exists. -/
def write? (d : Disk) (path : String) (bytes : List UInt8) : Option Disk := do
  let location ← d.locate path
  if d.isFolderAt location then none
  else if d.isFolderAt location.dropLast then
    some { d with entries := d.entries.insert (key location) (.file bytes) }
  else none

/-- Makes the folders of a path that are missing, from a location on. -/
def makeFrom (d : Disk) : List String → List String → Option Disk
  | _, [] => some d
  | location, s :: rest =>
    if s = "" ∨ s = "." then makeFrom d location rest
    else if s = ".." then makeFrom d location.dropLast rest
    else
      let next := location ++ [s]
      match d.at? next with
      | some .folder => makeFrom d next rest
      | some (.file _) => none
      | none => makeFrom { d with entries := d.entries.insert (key next) .folder } next rest

/-- Makes a folder and those above it. -/
def makeFolders? (d : Disk) (path : String) : Option Disk :=
  d.makeFrom (d.origin path) (Path.segments path)

/-- Removes a file, or a folder with all it holds. -/
def remove (d : Disk) (path : String) : Option Disk := do
  let location ← d.locate path
  let _ ← d.at? location
  let under := (key location ++ "/").toList
  some { d with entries :=
    ⟨d.entries.entries.filter fun e => e.1 != key location && !under.isPrefixOf e.1.toList,
      d.entries.sorted.filter _⟩ }

/-- Work on a disk that may fail; what it changed before stays changed. -/
abbrev Writing (α : Type) := ExceptT Failure (StateM Disk) α

namespace Writing

def lift {α : Type} (x : Outcome α) : Writing α := ExceptT.mk (pure x)

/-- Makes a folder and those above it. -/
def makeFolders (path : String) (report : Report) : Writing Unit := do
  match (← get).makeFolders? path with
  | some d => set d
  | none => lift (fail report)

/-- Writes a file into a folder that exists. -/
def write (path : String) (bytes : List UInt8) (report : Report) : Writing Unit := do
  match (← get).write? path bytes with
  | some d => set d
  | none => lift (fail report)

end Writing

/-! ## What there is -/

/-- The entries in a folder, in order of their names. -/
def children (d : Disk) (location : List String) : List (String × Entry) :=
  let above := if location.isEmpty then [] else (key location ++ "/").toList
  d.entries.entries.filterMap fun (k, e) =>
    let cs := k.toList
    if above.isPrefixOf cs then
      let name := cs.drop above.length
      if name.contains '/' then none else some (String.ofList name, e)
    else none

/-- The files below the working folder, by their paths from there. -/
def files (d : Disk) : List String :=
  let above := if d.working.isEmpty then [] else (key d.working ++ "/").toList
  d.entries.entries.filterMap fun (k, e) =>
    match e with
    | .file _ => if above.isPrefixOf k.toList then some (String.ofList (k.toList.drop above.length))
      else none
    | .folder => none

end Disk
end ShotTally
