/-
Where shot files are kept: in a folder on the disk, or in memory.
-/
import ShotTally.Disk.Basic
import ShotTally.Shot.File

namespace ShotTally

/-- Reads a shot file from a path. -/
def ShotFile.readFrom (d : Disk) (path : String) : Outcome ShotFile :=
  match d.read? path with
  | none => fail (Report.new .store "shot_read" "cannot read file" |>.note "path" path)
  | some bytes => (ShotFile.ofBytes bytes).within "path" path

/-- Writes a shot file to a path, making the folder it goes into. -/
def ShotFile.writeTo (f : ShotFile) (path : String) : Disk.Writing Unit := do
  match Path.parent? path with
  | none => pure ()
  | some folder =>
    Disk.Writing.makeFolders folder
      (Report.new .store "shot_mkdir" "cannot make folder" |>.note "path" folder)
  Disk.Writing.write path f.toBytes
    (Report.new .store "shot_write" "cannot write file" |>.note "path" path)

inductive Store where
  | folder (root : String)
  | memory (files : Keyed ShotFile)

namespace Store

/-- The store in a folder, which has to exist. -/
def openFolder (d : Disk) (root : String) : Outcome Store :=
  if d.isFolder root then .ok (.folder root)
  else fail (Report.new .store "data_dir" "data directory does not exist" |>.note "path" root)

/-- The folder of a store that has one. -/
def location? : Store → Option String
  | .folder root => some root
  | .memory _ => none

/-- The names of the shot files in order. A file that took the place of the folder holds none. -/
def list (s : Store) (d : Disk) : Outcome (List String) :=
  match s with
  | .memory files => .ok files.keys
  | .folder root =>
    match d.locate root with
    | none => fail (walkReport root)
    | some location =>
      match d.at? location with
      | none => fail (walkReport root)
      | some (.file _) => .ok []
      | some .folder =>
        .ok ((d.children location).filterMap fun (name, e) =>
          match e with
          | .file _ => if Path.extension? name = some "shot" then some name else none
          | .folder => none)
where
  walkReport (root : String) : Report :=
    Report.new .store "data_dir_walk" "cannot list folder" |>.note "path" root

def missingReport (file : String) : Report :=
  Report.new .store "missing_file" "shot file not found" |>.note "file" file

def load (s : Store) (d : Disk) (file : String) : Outcome ShotFile :=
  match s with
  | .memory files =>
    match files.get? file with
    | some f => .ok f
    | none => fail (missingReport file)
  | .folder root =>
    let path := Path.join root file
    if d.isFile path then ShotFile.readFrom d path
    else fail ((missingReport file).note "path" path)

end Store
end ShotTally
