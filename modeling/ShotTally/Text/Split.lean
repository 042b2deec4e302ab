/-
Text cut at a separating character.
-/

namespace ShotTally.Text

/-- The parts between separators; a text without any is one part. -/
def splitAt (separator : Char) : List Char → List (List Char)
  | [] => [[]]
  | c :: cs =>
    match splitAt separator cs with
    | [] => [[c]]
    | part :: rest => if c = separator then [] :: part :: rest else (c :: part) :: rest

/-- The parts before and after the first separator, when there is one. -/
def cutAt (separator : Char) : List Char → Option (List Char × List Char)
  | [] => none
  | c :: cs =>
    if c = separator then some ([], cs)
    else (cutAt separator cs).map fun (before, after) => (c :: before, after)

end ShotTally.Text
