/-
Records as documents. Texts are written plain where nothing in them asks for quotes, in quotes
where it does, and as blocks when they have lines.
-/
import ShotTally.Decimal.Layout
import ShotTally.Json.Basic
import ShotTally.Yaml.Meaning

namespace ShotTally.Yaml

open Text

/-! ## What a text allows -/

/-- Characters that are written as they are. -/
def isPrintable (c : Char) : Bool :=
  c == '\n' || (' ' ≤ c && c ≤ '~') || ('\u00a0' ≤ c && c.toNat ≤ 0xfffd && c != byteOrderMark)

/-- Whether some two neighbours satisfy conditions. -/
def hasNeighbours (p q : Char → Bool) : List Char → Bool
  | a :: b :: rest => (p a && q b) || hasNeighbours p q (b :: rest)
  | _ => false

/-- Whether a text starts with something that has a meaning of its own. -/
def startsSpecial (cs : List Char) : Bool :=
  match cs with
  | [] => false
  | c :: rest =>
    "#,[]\x7b\x7d&*!|>'\"%@`".toList.contains c
      || ((c == '?' || c == ':' || c == '-') && rest.head?.all isGap)
      || ['-', '-', '-'].isPrefixOf cs || ['.', '.', '.'].isPrefixOf cs

/-- Whether a text, from its second character on, holds a colon in front of a gap or a number
sign behind one. -/
def hasIndicator : List Char → Bool
  | a :: b :: rest =>
    (b == ':' && rest.head?.all isGap) || (b == '#' && isGap a) || hasIndicator (b :: rest)
  | _ => false

def isSpace (c : Char) : Bool := c == ' '

/-- Whether quotes can hold a text as it is. -/
def allowsSingle (cs : List Char) : Bool :=
  cs.all isPrintable && !hasNeighbours isSpace isBreak cs && !hasNeighbours isBreak isSpace cs

/-- Whether a text can be written without quotes. -/
def allowsPlain (cs : List Char) : Bool :=
  allowsSingle cs && !cs.any isBreak && !cs.head?.any isSpace && !cs.getLast?.any isSpace
    && !startsSpecial cs && !hasIndicator cs

/-- Whether a text can be written as a block. -/
def allowsBlock (cs : List Char) : Bool :=
  cs.all isPrintable && !hasNeighbours isSpace isBreak cs && !cs.getLast?.any isSpace

/-- How a text is written. -/
inductive Form where
  | plain
  | single
  | double
  | block
  deriving DecidableEq, Repr

/-- Whether a text without quotes would be taken for something else. -/
def isAmbiguous (s : String) : Bool :=
  match Meaning.ofPlain s with
  | .text _ => isPaddedDigits s.toList
  | _ => true

def Form.ofText (s : String) : Form :=
  let cs := s.toList
  if cs.contains '\n' then if allowsBlock cs then .block else .double
  else if !isAmbiguous s && allowsPlain cs then .plain
  else if allowsSingle cs then .single
  else .double

/-! ## Scalars -/

def pad (n : Nat) : List Char := List.replicate n ' '

/-- Puts an indentation in front of every line that is not empty. -/
def indented (indent : Nat) (lineStart : Bool) : List Char → List Char
  | [] => []
  | c :: cs =>
    if isBreak c then c :: indented indent true cs
    else (if lineStart then pad indent else []) ++ c :: indented indent false cs

def singleQuoted (indent : Nat) (cs : List Char) : List Char :=
  let doubled := cs.flatMap fun c => if c == '\'' then ['\'', '\''] else [c]
  '\'' :: (indented indent false doubled ++ ['\''])

/-- A digit of an escape by code. -/
def codeDigit (n : Nat) : Char := if n < 10 then digitChar n else Char.ofNat (55 + n)

/-- So many hexadecimal digits of a number. -/
def codeDigits : (width : Nat) → Nat → List Char
  | 0, _ => []
  | w + 1, n => codeDigits w (n / 16) ++ [codeDigit (n % 16)]

/-- The letter of a short escape. -/
def escapeLetter? : Char → Option Char
  | '\x00' => some '0'
  | '\x07' => some 'a'
  | '\x08' => some 'b'
  | '\t' => some 't'
  | '\n' => some 'n'
  | '\x0b' => some 'v'
  | '\x0c' => some 'f'
  | '\r' => some 'r'
  | '\x1b' => some 'e'
  | '"' => some '"'
  | '\\' => some '\\'
  | '\u0085' => some 'N'
  | '\u2028' => some 'L'
  | '\u2029' => some 'P'
  | _ => none

def doubleEscaped (c : Char) : List Char :=
  if isPrintable c && !isBreak c && c != '"' && c != '\\' then [c]
  else match escapeLetter? c with
    | some letter => ['\\', letter]
    | none =>
      let n := c.toNat
      if n ≤ 0xff then '\\' :: 'x' :: codeDigits 2 n
      else if n ≤ 0xffff then '\\' :: 'u' :: codeDigits 4 n
      else '\\' :: 'U' :: codeDigits 8 n

def doubleQuoted (cs : List Char) : List Char := '"' :: (cs.flatMap doubleEscaped ++ ['"'])

/-- Whether the breaks at the end of a text have to be kept in number. -/
def keepsBreaks (cs : List Char) : Bool :=
  match cs.reverse with
  | last :: before => isBreak last && before.head?.all isBreak
  | [] => false

/-- What stands behind the indicator of a block. -/
def blockHints (cs : List Char) : List Char :=
  (if cs.head?.any (fun c => isSpace c || isBreak c) then ['2'] else [])
    ++ (if !cs.getLast?.any isBreak then ['-'] else if keepsBreaks cs then ['+'] else [])

/-- A text up to the end of its line. -/
def textLine (indent : Nat) (s : String) : List Char :=
  let cs := s.toList
  match Form.ofText s with
  | .plain => cs ++ ['\n']
  | .single => singleQuoted indent cs ++ ['\n']
  | .double => doubleQuoted cs ++ ['\n']
  | .block =>
    '|' :: (blockHints cs ++ '\n' :: indented indent true cs)
      ++ (if cs.getLast?.any isBreak then [] else ['\n'])

def floatWord (x : Double) : List Char :=
  if x.isFinite then (Decimal.record.text x).toList
  else if x.isNaN then ".nan".toList
  else if x.isNegative then "-.inf".toList
  else ".inf".toList

/-- A scalar, or an empty collection, up to the end of its line. -/
def scalarLine (indent : Nat) : Json → List Char
  | .null => "null\n".toList
  | .bool b => (if b then "true\n" else "false\n").toList
  | .int i => intDigits i ++ ['\n']
  | .float x => floatWord x ++ ['\n']
  | .text s => textLine indent s
  | .list _ => "[]\n".toList
  | .object _ => "\x7b\x7d\n".toList

/-! ## Collections -/

/-- Whether a text can stand in front of a colon on one line. -/
def isSimpleKey (s : String) : Bool := !s.toList.any isBreak && s.utf8ByteSize ≤ 128

/-- A key in front of its colon. -/
def simpleKey (s : String) : List Char := (textLine 0 s).dropLast

mutual

/-- A value behind a dash or a question mark. -/
def inLine (indent : Nat) : Json → List Char
  | .list (j :: rest) => items [] indent (j :: rest)
  | .object (m :: rest) => members [] indent (m :: rest)
  | .list [] => scalarLine indent (.list [])
  | .object [] => scalarLine indent (.object [])
  | .null => scalarLine indent .null
  | .bool b => scalarLine indent (.bool b)
  | .int i => scalarLine indent (.int i)
  | .float x => scalarLine indent (.float x)
  | .text s => scalarLine indent (.text s)

/-- A value behind the colon of its key. -/
def behind (indent : Nat) : Json → List Char
  | .list (j :: rest) => '\n' :: items (pad indent) indent (j :: rest)
  | .object (m :: rest) => '\n' :: members (pad (indent + 2)) (indent + 2) (m :: rest)
  | .list [] => ' ' :: scalarLine (indent + 2) (.list [])
  | .object [] => ' ' :: scalarLine (indent + 2) (.object [])
  | .null => ' ' :: scalarLine (indent + 2) .null
  | .bool b => ' ' :: scalarLine (indent + 2) (.bool b)
  | .int i => ' ' :: scalarLine (indent + 2) (.int i)
  | .float x => ' ' :: scalarLine (indent + 2) (.float x)
  | .text s => ' ' :: scalarLine (indent + 2) (.text s)

/-- The items of a list; the first stands behind what leads to it. -/
def items (lead : List Char) (indent : Nat) : List Json → List Char
  | [] => []
  | j :: rest =>
    lead ++ '-' :: ' ' :: (inLine (indent + 2) j ++ items (pad indent) indent rest)

/-- The members of an object; the first stands behind what leads to it. -/
def members (lead : List Char) (indent : Nat) : List (String × Json) → List Char
  | [] => []
  | (k, j) :: rest =>
    (if isSimpleKey k then lead ++ simpleKey k ++ ':' :: behind indent j
      else lead ++ '?' :: ' ' :: (textLine (indent + 2) k
        ++ pad indent ++ ':' :: ' ' :: inLine (indent + 2) j))
      ++ members (pad indent) indent rest

end

mutual

/-- Whether a document ends with a block whose last breaks are kept. -/
def endsOpen : Json → Bool
  | .text s => Form.ofText s = .block && keepsBreaks s.toList
  | .list items => lastOpen items
  | .object members => lastMemberOpen members
  | _ => false

def lastOpen : List Json → Bool
  | [] => false
  | [j] => endsOpen j
  | _ :: rest => lastOpen rest

def lastMemberOpen : List (String × Json) → Bool
  | [] => false
  | [(_, j)] => endsOpen j
  | _ :: rest => lastMemberOpen rest

end

/-- A record as a document. -/
def text (j : Json) : String :=
  String.ofList (inLine 0 j ++ (if endsOpen j then "...\n".toList else []))

end ShotTally.Yaml
