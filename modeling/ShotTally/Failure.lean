/-
What can go wrong, and how it is told. A report names the part of the work that failed, a code
that stays the same from release to release, a message, the circumstances by name, and
sometimes a hint.
-/
import ShotTally.Keyed

namespace ShotTally

/-- The part of the work a report comes from. -/
inductive Family where
  | rule | store | classify | compile | cache | stats | config | serde
  deriving DecidableEq, Repr

def Family.all : List Family :=
  [.rule, .store, .classify, .compile, .cache, .stats, .config, .serde]

/-- The family as written in front of a code. -/
def Family.text : Family → String
  | .rule => "rule"
  | .store => "store"
  | .classify => "classify"
  | .compile => "compile"
  | .cache => "cache"
  | .stats => "stats"
  | .config => "config"
  | .serde => "serde"

/-- The family as a title. -/
def Family.title : Family → String
  | .rule => "Rule"
  | .store => "Store"
  | .classify => "Classify"
  | .compile => "Compile"
  | .cache => "Cache"
  | .stats => "Stats"
  | .config => "Config"
  | .serde => "Serde"

structure Report where
  family : Family
  code : String
  message : String
  context : Keyed String
  hint : Option String
  deriving DecidableEq

namespace Report

def new (family : Family) (code message : String) : Report :=
  ⟨family, code, message, .empty, none⟩

/-- Notes a circumstance, over an older one of the same name. -/
def note (r : Report) (name value : String) : Report :=
  { r with context := r.context.insert name value }

/-- Adds a circumstance known further out; what was noted closer to the fault stays. -/
def within (r : Report) (name value : String) : Report :=
  { r with context := r.context.insertNew name value }

def withHint (r : Report) (hint : String) : Report := { r with hint := some hint }

/-- The report on one line. -/
def text (r : Report) : String :=
  let circumstances := r.context.entries.map fun e => e.1 ++ "=" ++ e.2
  r.family.text ++ " error: " ++ r.message ++ " (code: " ++ r.code ++ ")"
    ++ (if r.context.isEmpty then "" else
      " | context: [" ++ ", ".intercalate circumstances ++ "]")
    ++ (match r.hint with
      | some hint => " | hint: " ++ hint
      | none => "")

end Report

/-- A reported failure, or a read past the end of an array's data. -/
inductive Failure where
  | reported (report : Report)
  | outOfRange
  deriving DecidableEq

abbrev Outcome (α : Type) := Except Failure α

/-- Ends with a report. -/
def fail {α : Type} (r : Report) : Outcome α := .error (.reported r)

/-- Adds a circumstance to the report an outcome may end with. -/
def Outcome.within {α : Type} (x : Outcome α) (name value : String) : Outcome α :=
  match x with
  | .error (.reported r) => .error (.reported (r.within name value))
  | other => other

end ShotTally
