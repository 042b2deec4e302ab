/-
Paths as text. They are taken apart and put together by their letters alone, whatever lies on the
disk; empty segments and `.` mean the folder they stand in.
-/
import ShotTally.Text.Split

namespace ShotTally.Path

open Text

def isAbsolute (path : String) : Bool := path.toList.head? == some '/'

/-- The parts between slashes; an absolute path starts with an empty one. -/
def segments (path : String) : List String := (splitAt '/' path.toList).map String.ofList

/-- The path of something under a base; an absolute path is not moved under it. -/
def join (base child : String) : String :=
  if isAbsolute child ∨ base = "" then child
  else if base.toList.getLast? = some '/' then base ++ child
  else base ++ "/" ++ child

/-- The parts that lead somewhere: the root, a leading `.`, and every segment that is not empty
and not `.`. -/
def components (path : String) : List String :=
  let named (l : List String) : List String := l.filter fun s => s != "" && s != "."
  match segments path with
  | [] => []
  | first :: rest =>
    if isAbsolute path then "/" :: named rest
    else if first = "." then "." :: named rest
    else named (first :: rest)

/-- Leaves out trailing segments that lead nowhere, given the reversed segments after the first. -/
def trimmed (reversed : List String) : List String :=
  reversed.dropWhile fun s => s == "" || s == "."

/-- The path without its last component; the root and the empty path have none to lose. -/
def parent? (path : String) : Option String :=
  match segments path with
  | [] => none
  | first :: rest =>
    match trimmed rest.reverse with
    | _ :: before => some ("/".intercalate (first :: (trimmed before).reverse))
      |>.map fun p => if p = "" ∧ isAbsolute path then "/" else p
    | [] => if first = "" then none else some ""

/-- The part of a name after its last dot; a dot at the start does not count. -/
def extension? (name : String) : Option String :=
  match splitAt '.' name.toList |>.reverse with
  | last :: before :: more =>
    if before = [] ∧ more = [] then none else some (String.ofList last)
  | _ => none

end ShotTally.Path
