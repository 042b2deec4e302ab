/-
Structured records as text: on one line without blanks, or spread over lines with two blanks for
each level.
-/
import ShotTally.Decimal.Layout
import ShotTally.Json.Basic

namespace ShotTally.Json

open Text

/-- A character within quotes. Quotes, backslashes and control characters are escaped. -/
def escape (c : Char) : List Char :=
  match c with
  | '"' => ['\\', '"']
  | '\\' => ['\\', '\\']
  | '\n' => ['\\', 'n']
  | '\r' => ['\\', 'r']
  | '\t' => ['\\', 't']
  | '\x08' => ['\\', 'b']
  | '\x0c' => ['\\', 'f']
  | c =>
    if c.toNat < 0x20 then ['\\', 'u', '0', '0', hexDigit (c.toNat / 16), hexDigit (c.toNat % 16)]
    else [c]

def quoted (s : String) : List Char := '"' :: (s.toList.flatMap escape ++ ['"'])

def boolWord (b : Bool) : List Char := if b then "true".toList else "false".toList

def numberWord (x : Double) : List Char :=
  if x.isFinite then (Decimal.record.text x).toList else "null".toList

/-! ## On one line -/

mutual

def compact : Json → List Char
  | .null => "null".toList
  | .bool b => boolWord b
  | .int i => intDigits i
  | .float x => numberWord x
  | .text s => quoted s
  | .list items => '[' :: compactItems items
  | .object members => '\x7b' :: compactMembers members

/-- The items of a list after its opening bracket. -/
def compactItems : List Json → List Char
  | [] => [']']
  | [j] => compact j ++ [']']
  | j :: rest => compact j ++ ',' :: compactItems rest

/-- The members of an object after its opening brace. -/
def compactMembers : List (String × Json) → List Char
  | [] => ['\x7d']
  | [(k, j)] => quoted k ++ ':' :: (compact j ++ ['\x7d'])
  | (k, j) :: rest => quoted k ++ ':' :: (compact j ++ ',' :: compactMembers rest)

end

/-! ## Over several lines -/

def newLine (level : Nat) : List Char := '\n' :: List.replicate (2 * level) ' '

mutual

/-- A record that starts at the given level. -/
def spread (level : Nat) : Json → List Char
  | .list (j :: rest) => '[' :: spreadItems level (j :: rest)
  | .object (m :: rest) => '\x7b' :: spreadMembers level (m :: rest)
  | .list [] => ['[', ']']
  | .object [] => ['\x7b', '\x7d']
  | .null => "null".toList
  | .bool b => boolWord b
  | .int i => intDigits i
  | .float x => numberWord x
  | .text s => quoted s

def spreadItems (level : Nat) : List Json → List Char
  | [] => newLine level ++ [']']
  | [j] => newLine (level + 1) ++ spread (level + 1) j ++ newLine level ++ [']']
  | j :: rest => newLine (level + 1) ++ spread (level + 1) j ++ ',' :: spreadItems level rest

def spreadMembers (level : Nat) : List (String × Json) → List Char
  | [] => newLine level ++ ['\x7d']
  | [(k, j)] =>
    newLine (level + 1) ++ quoted k ++ ':' :: ' ' :: (spread (level + 1) j ++ newLine level
      ++ ['\x7d'])
  | (k, j) :: rest =>
    newLine (level + 1) ++ quoted k ++ ':' :: ' ' :: (spread (level + 1) j
      ++ ',' :: spreadMembers level rest)

end

/-! ## Canonical text -/

/-- The canonical form on one line. -/
def canonicalText (j : Json) : String := String.ofList (compact (canonical j))

/-- The canonical form over several lines. -/
def canonicalPretty (j : Json) : String := String.ofList (spread 0 (canonical j))

end ShotTally.Json
