/-
The program. A command works on a copy of the places it can touch, and what it changed there is
put back.
-/
import Std.Time
import ShotTally.CommandLine.Reach

namespace ShotTally.CommandLine

/-- Puts what lies at a location into the copy. -/
def copyLocation (d : Disk) (location : List String) : IO Disk := do
  let path := (← IO.currentDir) / ("/" ++ Disk.key location)
  let put (e : Entry) : Disk := { d with entries := d.entries.insert (Disk.key location) e }
  if ← path.isDir then return put .folder
  else if ← path.pathExists then return put (.file (← IO.FS.readBinFile path).toList)
  else return d

/-- Puts what lies at a path into the copy, with the folders above it. -/
def copyPath (d : Disk) (path : String) : IO Disk := do
  let location := d.spell path
  (List.range location.length).foldlM (fun d n => copyLocation d (location.take (n + 1))) d

/-- Puts a folder into the copy, with all that lies in it but not below. -/
def copyFolder (d : Disk) (path : String) : IO Disk := do
  let d ← copyPath d path
  let location := d.spell path
  if d.isFolderAt location then
    let found ← ((← IO.currentDir) / ("/" ++ Disk.key location)).readDir
    found.foldlM (fun d entry => copyLocation d (location ++ [entry.fileName])) d
  else return d

/-- Writes the entries in which a copy differs from what it was. -/
def putBack (before after : Disk) : IO Unit := do
  for (key, e) in after.entries.entries do
    if before.entries.get? key ≠ some e then
      let path := (← IO.currentDir) / ("/" ++ key)
      match e with
      | .folder => IO.FS.createDirAll path
      | .file content => IO.FS.writeBinFile path ⟨content.toArray⟩

def now : IO String := do
  return (Std.Time.DateTime.ofTimestamp (← Std.Time.Timestamp.now) .UTC).toISO8601String

/-- The copy that a command works on. -/
def copyFor (arguments : List String) : IO Disk := do
  let working := (Path.segments (← IO.currentDir).toString).filter (· != "")
  let d := Disk.empty working
  match Command.parse? arguments with
  | none => return d
  | some command =>
    let d ← command.paths.foldlM copyPath d
    (command.folders d).foldlM copyFolder d

def explain : Failure → String
  | .reported r => r.text
  | .outOfRange => "an array holds less data than its shape tells"

def run (arguments : List String) : IO UInt32 := do
  let before ← copyFor arguments
  let ending := call arguments before (← now)
  IO.print ending.printed
  putBack before ending.disk
  match ending.failure with
  | some f => IO.eprintln ("Error: " ++ explain f)
  | none => if ending.code = 2 then IO.eprintln "usage: generate | average | rule | inspect"
  return UInt32.ofNat ending.code

end ShotTally.CommandLine

def main (arguments : List String) : IO UInt32 := ShotTally.CommandLine.run arguments
