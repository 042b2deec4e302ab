/-
The folder that kept results lie in, a folder for each operation and a file for each key.
-/
import ShotTally.Cache.Artifact
import ShotTally.Disk.Basic
import ShotTally.Notice

namespace ShotTally

structure Shelf where
  root : String
  deriving DecidableEq

namespace Shelf

variable {β : Type}

def operationFolder (s : Shelf) (operation : String) : String :=
  Path.join s.root (operation ++ "_cache")

def path (s : Shelf) (operation key : String) : String :=
  Path.join (s.operationFolder operation) (key ++ ".bin")

/-- The artifact kept under a key. What is no artifact, of another version or of another key is
passed over with a notice. -/
def load [Binary β] (s : Shelf) (d : Disk) (operation key : String) :
    Option (Artifact β) × List Notice :=
  let path := s.path operation key
  match d.read? path with
  | none => (none, [])
  | some bytes =>
    match (Binary.read? bytes : Option (Artifact β)) with
    | none => (none, [.artifactCorrupt path])
    | some a =>
      if Version.current.reads a.version && a.provenance.key == key then (some a, [])
      else (none, [.artifactUnfit path a.version a.provenance.key])

/-- Keeps a value under a key, over what was kept there before. -/
def save [Binary β] (s : Shelf) (operation key : String) (files : List String) (now : String)
    (value : β) : Disk.Writing Unit := do
  let folder := s.operationFolder operation
  let path := s.path operation key
  Disk.Writing.makeFolders folder
    (Report.new .cache "cache_mkdir" "cannot make folder" |>.note "path" folder)
  Disk.Writing.write path (Binary.encode (Artifact.make key files now value))
    (Report.new .cache "cache_write" "cannot write file" |>.note "path" path)

end Shelf

/-- An artifact that was read or written, with the files it covers. -/
structure CacheRecord where
  path : String
  files : List String
  deriving DecidableEq, Repr

/-- What a call read from the shelf and put on it, in order. -/
structure CacheInfo where
  saved : List CacheRecord
  loaded : List CacheRecord
  deriving DecidableEq, Repr

end ShotTally
