/-
Short keywords for dataset paths.
-/
import ShotTally.Keyed

namespace ShotTally

structure Aliases where
  paths : Keyed String
  deriving DecidableEq

namespace Aliases

def none : Aliases := ⟨.empty⟩

def ofList (l : List (String × String)) : Aliases := ⟨.ofList l⟩

def insert (a : Aliases) (keyword path : String) : Aliases := ⟨a.paths.insert keyword path⟩

/-- The path of a keyword; a keyword without one is a path itself. -/
def resolve (a : Aliases) (keyword : String) : String := (a.paths.get? keyword).getD keyword

/-- Takes over the defaults for keywords that have no path yet. -/
def withDefaults (a defaults : Aliases) : Aliases :=
  ⟨a.paths.entries.foldl (fun m e => m.insert e.1 e.2) defaults.paths⟩

end Aliases
end ShotTally
