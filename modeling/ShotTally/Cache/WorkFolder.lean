/-
Where results of a data folder are kept: in a folder `work` beside it, or beside the folder
`rawdata` that it lies in.
-/
import ShotTally.Disk.Path

namespace ShotTally.Cache

/-- The path of some components. -/
def rejoin (components : List String) : String := components.foldl Path.join ""

def workFolder (data : String) : String :=
  let components := Path.components data
  if components.contains "rawdata" then
    Path.join (rejoin (components.takeWhile (· != "rawdata"))) "work"
  else match Path.parent? data with
    | some parent => if parent = "" then Path.join data "work" else Path.join parent "work"
    | none => Path.join data "work"

end ShotTally.Cache
