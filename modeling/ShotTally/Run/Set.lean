/-
Sets of runs. Runs stand on a roster and keep their memory there; a set names members of the
roster, so that two sets can share a run.
-/
import ShotTally.Run.Average
import ShotTally.Run.Collect

namespace ShotTally

/-- A run with what it remembers. -/
structure Member where
  run : Run
  memory : Memory

/-- All runs there are, by their places. -/
abbrev Roster := List Member

namespace Roster

/-- Lets a member work on the disk, with its own memory; gives its result, the roster with its
memory renewed, the disk and the journal. -/
def work {α : Type} (roster : Roster) (place : Nat) (run : Run) (memory : Memory) (disk : Disk)
    (now : String) (task : Run → Job α) : Outcome α × Roster × Scene :=
  let (result, scene) := (task run).run ⟨disk, memory, [], now⟩
  (result, roster.set place ⟨run, scene.memory⟩, scene)

end Roster

/-- The averages of the runs of a set, with what each call read and kept. -/
structure RunSetAverage (α : Type) where
  runs : List (String × WeightedAverage α)
  cache : List CacheInfo
  deriving DecidableEq

namespace RunSetAverage

variable {α : Type}

/-- The averages side by side. -/
def stacked (a : RunSetAverage α) : Outcome (StackedAverage α) :=
  WeightedAverage.stack (a.runs.map (·.2))

/-- One average over all runs. -/
def combined [Scalar α] (a : RunSetAverage α) : Outcome (WeightedAverage α) := do
  match ← WeightedAverage.fold (a.runs.map (·.2)) with
  | some average => return average
  | none => fail (Report.new .compile "empty_run_set" "run set holds no runs")

end RunSetAverage

/-- Members of a roster in the order they were added, each once. -/
structure RunSet where
  members : List Nat
  deriving DecidableEq, Repr

namespace RunSet

def empty : RunSet := ⟨[]⟩

/-- Adds a member unless it is there, and says whether it was added. -/
def add (s : RunSet) (place : Nat) : RunSet × Bool :=
  if s.members.contains place then (s, false) else (⟨s.members ++ [place]⟩, true)

/-- Takes a member out, and says whether it was there. -/
def remove (s : RunSet) (place : Nat) : RunSet × Bool :=
  (⟨s.members.filter (· != place)⟩, s.members.contains place)

def size (s : RunSet) : Nat := s.members.length

def isEmpty (s : RunSet) : Bool := s.members.isEmpty

/-- The runs of the settings, each with the common keywords it does not set itself. -/
def runsOf (settings : RunSetSettings) (d : Disk) : Outcome (List Run) :=
  settings.runs.mapM fun r => Run.ofSettings { r with aliases := r.aliases.withDefaults settings.aliases } d

/-- What a set works on: the roster, the disk, and a journal. -/
structure Stage where
  roster : Roster
  disk : Disk
  journal : List Event
  now : String

abbrev Tour (α : Type) := ExceptT Failure (StateM Stage) α

/-- Lets the member at a place of the roster work. -/
def visit {α : Type} (place : Nat) (task : Run → Job α) : Tour (Option α) := do
  let stage ← get
  match stage.roster[place]? with
  | none => return none
  | some m =>
    let (result, roster, scene) := stage.roster.work place m.run m.memory stage.disk stage.now task
    set { stage with roster := roster, disk := scene.disk, journal := stage.journal ++ scene.journal }
    return some (← ExceptT.mk (pure result))

/-- Lets the members work in order, and names the results. -/
def tour {α : Type} (s : RunSet) (task : Run → Job α) : Tour (List (String × α)) := do
  let results ← s.members.mapM fun place => visit place fun r => do return (r.name, ← task r)
  return results.filterMap id

variable {α : Type} [Scalar α] [Binary α]

def average (s : RunSet) (q : Query) (opts : AverageOptions) : Tour (RunSetAverage α) := do
  let results : List (String × RunAverage α) ← s.tour fun r => r.average q opts
  return ⟨results.map fun (name, a) => (name, a.average), results.map fun (_, a) => a.cache⟩

def collect (s : RunSet) (q : Query) (opts : AverageOptions) :
    Tour (List (String × RunCollection α)) :=
  s.tour fun r => r.collect q opts

end RunSet
end ShotTally
