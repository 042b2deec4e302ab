/-
Things worth a warning that do not stop the work.
-/
import ShotTally.Tensor.Basic
import ShotTally.Version

namespace ShotTally

open Text

inductive Notice where
  | quantityMissing (quantity path file : String)
  | sourcePeriodMissing (dataset file : String)
  | notPerShot (quantity file : String) (shape : List Nat) (shots : Nat)
  | alreadyHeld (run file : String)
  | artifactCorrupt (path : String)
  | artifactUnfit (path : String) (version : Version) (key : String)
  deriving DecidableEq

namespace Notice

def text : Notice → String
  | quantityMissing quantity path file =>
    "quantity '" ++ quantity ++ "' (" ++ path ++ ") missing in " ++ file ++ "; skipping file"
  | sourcePeriodMissing dataset file =>
    "source period dataset '" ++ dataset ++ "' missing in " ++ file ++ "; period unknown"
  | notPerShot quantity file shape shots =>
    "quantity '" ++ quantity ++ "' in " ++ file ++ " is not per-shot (shape " ++ sizesText shape
      ++ ", " ++ natText shots ++ " shots); condition splitting disabled"
  | alreadyHeld run file => "run '" ++ run ++ "' already holds " ++ file
  | artifactCorrupt path => "cache artifact " ++ path ++ " is corrupt: not an artifact; recomputing"
  | artifactUnfit path version key =>
    "cache artifact " ++ path ++ " has schema " ++ version.text ++ " and key " ++ key
      ++ "; recomputing"

/-- File and subject of a notice that is given once for each of them. -/
def subject? : Notice → Option (String × String)
  | sourcePeriodMissing dataset file => some (file, "source_period:" ++ dataset)
  | notPerShot quantity file _ _ => some (file, "split:" ++ quantity)
  | _ => none

end Notice

/-- The files and subjects that notices were given for. -/
abbrev Watch := List (String × String)

/-- Whether a notice is still to be given. -/
def Watch.isDue (watch : Watch) (n : Notice) : Bool :=
  match n.subject? with
  | some subject => !watch.contains subject
  | none => true

/-- The watch after a notice. -/
def Watch.after (watch : Watch) (n : Notice) : Watch :=
  match n.subject? with
  | some subject => if watch.contains subject then watch else subject :: watch
  | none => watch

/-- The notices that are still to be given, each subject once, and the watch afterwards. -/
def Watch.due (watch : Watch) : List Notice → List Notice × Watch
  | [] => ([], watch)
  | n :: rest =>
    let (given, last) := Watch.due (watch.after n) rest
    (if watch.isDue n then n :: given else given, last)

/-- A computation that may give notices, kept also when it fails. -/
abbrev Noted (α : Type) := ExceptT Failure (StateM (List Notice)) α

namespace Noted

variable {α : Type}

def give (n : Notice) : Noted Unit := modify fun given => given ++ [n]

def lift (x : Outcome α) : Noted α := ExceptT.mk (pure x)

/-- The outcome and the notices in the order they were given. -/
def results (x : Noted α) : Outcome α × List Notice := x.run []

def outcome (x : Noted α) : Outcome α := x.results.1

def notices (x : Noted α) : List Notice := x.results.2

/-- Adds a circumstance to the report the computation may end with. -/
def within (x : Noted α) (name value : String) : Noted α :=
  ExceptT.mk ((fun r => Outcome.within r name value) <$> x.run)

end Noted
end ShotTally
