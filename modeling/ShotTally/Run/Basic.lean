/-
Runs: a list of files in a store, with what is needed to read them.
-/
import ShotTally.Bucket.Compile
import ShotTally.Cache.Key
import ShotTally.Cache.WorkFolder
import ShotTally.Condition.Offset
import ShotTally.Run.Scene
import ShotTally.Run.Settings
import ShotTally.Shot.Store

namespace ShotTally

structure Run where
  name : String
  store : Store
  files : List String
  aliases : Aliases
  classifier : Classifier
  shotIndexDataset : String
  sourcePeriodDataset : String
  /-- Where results are kept, if anywhere. -/
  shelf : Option Shelf

namespace Run

variable {α : Type}

/-! ## Setting up -/

/-- A run over some files, keeping results in the work folder of its data folder. -/
def ofFiles (name : String) (store : Store) (files : List String) : Run :=
  { name := name
    store := store
    files := files
    aliases := .none
    classifier := .standard
    shotIndexDataset := RunSettings.standardShotIndex
    sourcePeriodDataset := RunSettings.standardSourcePeriod
    shelf := store.location?.map fun folder => ⟨Cache.workFolder folder⟩ }

/-- A run over all files of a store. -/
def ofStore (name : String) (store : Store) (d : Disk) : Outcome Run := do
  return ofFiles name store (← store.list d)

def ofSettings (settings : RunSettings) (d : Disk) : Outcome Run := do
  let store ← Store.openFolder d settings.dataFolder
  let files ← match settings.files with
    | some files => pure files
    | none => store.list d
  return { ofFiles settings.name store files with
    aliases := settings.aliases
    classifier := settings.classifier
    shotIndexDataset := settings.shotIndexDataset
    sourcePeriodDataset := settings.sourcePeriodDataset }

def workFolder? (r : Run) : Option String := r.shelf.map (·.root)

/-- Adds files behind those of the run; a file it holds already is passed over with a notice. -/
def addFiles (r : Run) : List String → Run × List Notice
  | [] => (r, [])
  | file :: rest =>
    if r.files.contains file then
      let (last, notices) := addFiles r rest
      (last, .alreadyHeld r.name file :: notices)
    else addFiles { r with files := r.files ++ [file] } rest

/-! ## The modulator offset -/

/-- Mean of the values of each shot. -/
def rowMeans (signal : Tensor Double) : Outcome (List Double) := do
  let width := Double.ofNat (max signal.rowWidth 1)
  return (← signal.rows).map fun row => Scalar.sum row / width

/-- The reference signal of a file as readings for its shots, if it has one for each. -/
def readings (r : Run) (file : ShotFile) : Outcome (Option (List Int × List Double)) :=
  match file.numeric? (r.aliases.resolve r.classifier.modulatorReference) with
  | none => .ok none
  | some signal => do
    let shots ← file.shotIndices r.shotIndexDataset
    if signal.rank = 0 ∨ signal.rowCount ≠ shots.length then return none
    else return some (shots, ← rowMeans signal)

/-- The offset found from the first of the files that has a usable reference signal. -/
def detectOffsetIn (r : Run) (d : Disk) : List String → Outcome Int
  | [] => fail (Report.new .classify "modulator_reference_missing"
        "no file carries a per-shot modulator reference"
      |>.note "run" r.name
      |>.note "reference" r.classifier.modulatorReference)
  | name :: rest => do
    let file ← r.store.load d name
    match ← r.readings file with
    | some (shots, values) =>
      Modulator.detectOffset shots values r.classifier.modulatorPeriod
    | none => detectOffsetIn r d rest

/-- The configured offset, else the one found before, else the one found now and remembered. -/
def modulatorOffset (r : Run) : Job Int := do
  match r.classifier.modulatorOffset with
  | some offset => return offset
  | none =>
    match (← Job.memory).offset with
    | some offset => return offset
    | none =>
      let offset ← Job.lift (r.detectOffsetIn (← Job.disk) r.files)
      Job.setMemory { (← Job.memory) with offset := some offset }
      return offset

/-- Forgets the offset found. -/
def resetOffset : Job Unit := do Job.setMemory { (← Job.memory) with offset := none }

/-!
## Reading files

Files are read one after the other in the order of the run, and the first that fails ends the work. Reading
some of them at the same time would give the same numbers; it could change only the order of the notices, and
which of several failures is reported. So how many are read at a time is no option.
-/

/-- How the files are read; the offset is needed only when the modulator splits. -/
def plan (r : Run) (splits : Splits) : Job ReadingPlan := do
  let offset ←
    if splits.modulator ∧ 0 < r.classifier.modulatorPeriod then r.modulatorOffset
    else pure (r.classifier.modulatorOffset.getD 0)
  return {
    aliases := r.aliases
    shotIndexDataset := r.shotIndexDataset
    sourcePeriodDataset := r.sourcePeriodDataset
    sourcePeriod := r.classifier.sourcePeriod
    sourceOffset := r.classifier.sourceOffset
    modulator := ⟨r.classifier.modulatorPeriod, offset⟩ }

/-- Loads a file and sorts it into buckets. -/
def compileFile [Scalar α] (r : Run) (plan : ReadingPlan) (q : Query)
    (rules : List Rule.Predicate) (name : String) : Job (Option (FileBuckets α)) := do
  Job.record (.compiled name)
  let file ← Job.lift (r.store.load (← Job.disk) name)
  Job.noted ((plan.compile file name q rules).within "file" name)

def noData (q : Query) (files : List String) : Report :=
  Report.new .compile "no_data" "no file holds the requested quantity"
    |>.note "quantity" q.quantity
    |>.note "files" (", ".intercalate files)

/-- The sums of each file, or none for a file without the quantity. -/
def fileSums [Scalar α] (r : Run) (q : Query) :
    Job (List (String × Option (BucketSums α))) := do
  let rules ← Job.lift (Rule.Predicate.compileAll q.rules)
  let plan ← r.plan q.splits
  r.files.mapM fun name => do
    match ← r.compileFile plan q rules name with
    | none => return (name, none)
    | some buckets => return (name, some (← Job.lift buckets.sums))

/-- The averages of each file. -/
def fileAverages [Scalar α] (r : Run) (q : Query) :
    Job (List (String × Option (WeightedAverage α))) := do
  (← r.fileSums q).mapM fun (name, sums) => do
    return (name, ← Job.lift (sums.mapM BucketSums.average))

/-! ## The shelf -/

def keyFor (r : Run) (operation : Cache.Operation) (files : List String) (q : Query) : String :=
  Cache.key operation.name r.store.location? files q

/-- The value kept under a key, if there is a shelf and it holds one. -/
def lookUp {β : Type} [Binary β] (r : Run) (operation : Cache.Operation) (key : String) :
    Job (Option β) :=
  match r.shelf with
  | none => return none
  | some shelf => do
    let (found, notices) := (shelf.load (← Job.disk) operation.name key :
      Option (Artifact β) × List Notice)
    Job.give notices
    return found.map (·.value)

/-- The record of an artifact for some files. -/
def recordOf (shelf : Shelf) (operation : Cache.Operation) (key : String) (files : List String) :
    CacheRecord :=
  ⟨shelf.path operation.name key, files⟩

/-- Keeps a value under a key, if there is a shelf. -/
def keep {β : Type} [Binary β] (r : Run) (operation : Cache.Operation) (key : String)
    (files : List String) (value : β) : Job (List CacheRecord) :=
  match r.shelf with
  | none => return []
  | some shelf => do
    Job.writing (shelf.save operation.name key files (← get).now value)
    return [recordOf shelf operation key files]

/-- The record of what was recalled. -/
def recalled (r : Run) (operation : Cache.Operation) (key : String) (files : List String) :
    List CacheRecord :=
  match r.shelf with
  | none => []
  | some shelf => [recordOf shelf operation key files]

end Run
end ShotTally
