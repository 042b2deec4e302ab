/-
What the commands do: what they print, what they change on the disk, and how they end.
-/
import ShotTally.CommandLine.Command
import ShotTally.Record
import ShotTally.Run.Document
import ShotTally.Run.Report
import ShotTally.Shot.Accessor
import ShotTally.Synthetic
import ShotTally.Yaml.Writing

namespace ShotTally.CommandLine

open Text

/-- The disk, and what was printed so far. -/
structure Console where
  disk : Disk
  printed : String

/-- A piece of work that may fail; what it printed and changed before stays. -/
abbrev Action (α : Type) := ExceptT Failure (StateM Console) α

namespace Action

variable {α : Type}

def lift (x : Outcome α) : Action α := ExceptT.mk (pure x)

def disk : Action Disk := do return (← get).disk

def printLine (line : String) : Action Unit :=
  modify fun c => { c with printed := c.printed ++ line ++ "\n" }

/-- Works on the disk. -/
def writing (x : Disk.Writing α) : Action α := do
  let (result, d) := x.run (← disk)
  modify fun c => { c with disk := d }
  lift result

/-- Makes a folder and those above it. -/
def makeFolders (path : String) : Action Unit :=
  writing (Disk.Writing.makeFolders path
    (Report.new .store "shot_mkdir" "cannot make folder" |>.note "path" path))

/-- Writes a text to a path, making the folder it goes into. -/
def writeText (path text : String) : Action Unit := do
  match Path.parent? path with
  | some folder => makeFolders folder
  | none => pure ()
  writing (Disk.Writing.write path (bytes text)
    (Report.new .store "shot_write" "cannot write file" |>.note "path" path))

end Action

/-! ## Making up a run -/

namespace GenerateCommand

def synthetic (c : GenerateCommand) : SyntheticRun :=
  { SyntheticRun.standard with
    files := c.files
    shots := c.shots
    seed := UInt64.ofNat c.seed
    source := ⟨c.sourcePeriod, SyntheticRun.standard.source.offset⟩
    modulator := ⟨c.modulatorPeriod, c.modulatorOffset⟩ }

/-- Settings that lead to the made-up run. The modulator offset is left to be found. -/
def settings (c : GenerateCommand) : RunSettings :=
  { RunSettings.new "synthetic" c.out with
    aliases := SyntheticRun.aliases
    classifier := { Classifier.standard with
      sourceOffset := c.synthetic.source.offset
      modulatorPeriod := c.modulatorPeriod } }

def execute (c : GenerateCommand) : Action Unit := do
  Action.makeFolders c.out
  let _ ← Action.writing (c.synthetic.writeTo c.out)
  match c.config with
  | some path => Action.writeText path (Yaml.text c.settings.json)
  | none => pure ()

end GenerateCommand

/-! ## Averaging -/

namespace AverageCommand

/-- The runs that the settings name. -/
def readRuns (c : AverageCommand) : Action (List Run) := do
  let d ← Action.disk
  let unread (code message : String) : Report :=
    Report.new .config code message |>.note "path" c.config
  match d.read? c.config with
  | none => Action.lift (fail (unread "config_read" "cannot read settings"))
  | some content =>
    match (ofBytes? content).bind RunSetSettings.ofEither? with
    | none => Action.lift (fail (unread "config_parse" "not settings"))
    | some settings => Action.lift (RunSet.runsOf settings d)

def query (c : AverageCommand) : Outcome Query := do
  let rules := c.rules.map some
  return { (Query.all c.quantity).withRules (if c.includeAll then none :: rules else rules) with
    splits := ⟨c.sourceSplit, c.modulatorSplit⟩
    slices := ← Slices.parse c.slices }

def options (c : AverageCommand) : AverageOptions :=
  { AverageOptions.standard with
    useCache := !c.noCache
    makeCache := !c.noMakeCache
    blockSize := c.blockSize
    saveIncomplete := c.saveIncomplete }

def execute (c : AverageCommand) (now : String) : Action Unit := do
  let runs ← c.readRuns
  let query ← Action.lift c.query
  let members : RunSet := ⟨List.range runs.length⟩
  let stage : RunSet.Stage := ⟨runs.map fun r => ⟨r, .fresh⟩, ← Action.disk, [], now⟩
  let (result, stage) := (members.average query c.options).run stage
  modify fun console => { console with disk := stage.disk }
  let report ← Action.lift (do AverageReport.build query (← result) c.combine)
  match c.out with
  | some path => Action.writeText path report.text
  | none => Action.printLine report.text

end AverageCommand

/-! ## Trying a rule -/

namespace RuleCommand

def execute (c : RuleCommand) : Action Unit := do
  let rule ← Action.lift ((Rule.Predicate.compile (some c.expression)).mapError Rule.Fault.failure)
  Action.printLine ("postfix: " ++ rule.text)
  Action.printLine ("keywords: " ++ ", ".intercalate rule.keywords)
  match c.file with
  | none => pure ()
  | some path =>
    let file ← Action.lift (ShotFile.readFrom (← Action.disk) path)
    let shots := (← Action.lift (file.shotIndices c.shotIndexDataset)).length
    let flags ← Action.lift (rule.mask (file.accessor (.ofList c.aliases) shots) shots)
    Action.printLine ("selected: " ++ natText (flags.count true) ++ "/" ++ natText shots)

end RuleCommand

/-! ## Listing a file -/

namespace InspectCommand

/-- A text with blanks behind it up to a width. -/
def widened (width : Nat) (s : String) : String :=
  s ++ String.ofList (List.replicate (width - s.length) ' ')

def datasetLine (name : String) (d : Dataset) : String :=
  "  " ++ widened 32 name ++ " " ++ widened 8 d.kind ++ " " ++ sizesText d.shape

def execute (c : InspectCommand) : Action Unit := do
  let file ← Action.lift (ShotFile.readFrom (← Action.disk) c.file)
  Action.printLine (c.file ++ " (schema " ++ file.version.text ++ ")")
  file.datasets.entries.forM fun (name, d) => Action.printLine (datasetLine name d)

end InspectCommand

/-! ## Commands -/

def Command.execute (now : String) : Command → Action Unit
  | .generate c => c.execute
  | .average c => c.execute now
  | .rule c => c.execute
  | .inspect c => c.execute

/-- How a call ended: the exit code, what was printed, the disk, and what went wrong. -/
structure Ending where
  code : Nat
  printed : String
  disk : Disk
  failure : Option Failure

/-- The code a call ends with after a failure. -/
def failureCode : Failure → Nat
  | .reported _ => 1
  | .outOfRange => 101

/-- Executes the command that some arguments give. The code is zero when all went well, and two
when the arguments give no command. -/
def call (arguments : List String) (disk : Disk) (now : String) : Ending :=
  match Command.parse? arguments with
  | none => ⟨2, "", disk, none⟩
  | some command =>
    match (command.execute now).run ⟨disk, ""⟩ with
    | (.ok _, console) => ⟨0, console.printed, console.disk, none⟩
    | (.error f, console) => ⟨failureCode f, console.printed, console.disk, some f⟩

end ShotTally.CommandLine
