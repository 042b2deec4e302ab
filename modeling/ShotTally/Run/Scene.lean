/-
What a run works on: the disk, what the run remembers from call to call, and a journal of what
happened. All of it outlives a call that fails.
-/
import ShotTally.Cache.Shelf

namespace ShotTally

/-- What a run remembers: the modulator offset found, and the notices given once. -/
structure Memory where
  offset : Option Int
  watch : Watch
  deriving DecidableEq

def Memory.fresh : Memory := ⟨none, []⟩

inductive Event where
  | notice (n : Notice)
  /-- A file was loaded and sorted into buckets. -/
  | compiled (file : String)
  deriving DecidableEq

structure Scene where
  disk : Disk
  memory : Memory
  journal : List Event
  /-- The time written on artifacts. -/
  now : String

/-- A step of work on a scene that may fail; what it changed before stays changed. -/
abbrev Job (α : Type) := ExceptT Failure (StateM Scene) α

namespace Scene

/-- The notices of the journal, in order. -/
def notices (s : Scene) : List Notice :=
  s.journal.filterMap fun
    | .notice n => some n
    | .compiled _ => none

/-- The files of the journal that were loaded and sorted, in order. -/
def compiled (s : Scene) : List String :=
  s.journal.filterMap fun
    | .compiled file => some file
    | .notice _ => none

end Scene

namespace Job

variable {α : Type}

def lift (x : Outcome α) : Job α := ExceptT.mk (pure x)

def disk : Job Disk := do return (← get).disk

/-- Works on the disk. -/
def writing (x : Disk.Writing α) : Job α := do
  let (result, d) := x.run (← get).disk
  modify fun s => { s with disk := d }
  lift result

def memory : Job Memory := do return (← get).memory

def setMemory (m : Memory) : Job Unit := modify fun s => { s with memory := m }

def record (e : Event) : Job Unit := modify fun s => { s with journal := s.journal ++ [e] }

/-- Gives the notices that are still due. -/
def give (notices : List Notice) : Job Unit :=
  modify fun s =>
    let (due, watch) := s.memory.watch.due notices
    { s with memory := { s.memory with watch := watch }, journal := s.journal ++ due.map .notice }

/-- Gives the notices of a computation and goes on with its outcome. -/
def noted (x : Noted α) : Job α := do
  give x.notices
  lift x.outcome

end Job
end ShotTally
