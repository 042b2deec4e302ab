/-
Scalars as they are written: plain, in quotes, and as blocks. Blanks and breaks between the
pieces of a plain or quoted scalar are folded; those of a block are kept or folded by its header.
-/
import ShotTally.Yaml.Source

namespace ShotTally.Yaml

inductive Style where
  | plain
  | quoted
  | literal
  | folded
  deriving DecidableEq, Repr

/-! ## Gaps between pieces -/

/-- Blanks and breaks in a row. -/
structure Gap where
  /-- The blanks in front of the first break. -/
  blanks : List Char
  broken : Bool
  /-- The first break; nothing when it was escaped. -/
  first : List Char
  /-- The breaks after the first. -/
  others : List Char

namespace Gap

def none : Gap := ⟨[], false, [], []⟩

/-- What a gap reads as: a single break as a space, of several breaks all but the first. -/
def text (g : Gap) : List Char :=
  if !g.broken then g.blanks
  else if g.first.head? = some '\n' then if g.others.isEmpty then [' '] else g.others
  else g.first ++ g.others

/-- Reads on in a gap. After a break no tab may stand left of the margin. -/
def read (margin : Int) : (fuel : Nat) → Gap → Source → Option (Gap × Source)
  | 0, _, _ => Option.none
  | n + 1, g, s =>
    match s.rest with
    | [] => some (g, s)
    | c :: _ =>
      if isBlank c then
        if g.broken then
          if c == '\t' && decide ((s.column : Int) < margin) then Option.none
          else read margin n g s.skip
        else read margin n { g with blanks := g.blanks ++ [c] } s.skip
      else if isBreak c then
        let (text, s) := s.takeBreak
        if g.broken then read margin n { g with others := g.others ++ text } s
        else read margin n ⟨[], true, text, []⟩ s
      else some (g, s)

end Gap

/-! ## Plain scalars -/

/-- The next piece of a plain scalar: up to a gap, a colon in front of a gap, or an indicator of
the flow style. -/
def plainPiece (flow : Bool) : List Char → Option (List Char)
  | [] => some []
  | c :: cs =>
    if isGap c then some []
    else if c == ':' && cs.head?.all isGap then some []
    else if flow && c == ':' && cs.head?.any fun d => ",?[]\x7b\x7d".toList.contains d then none
    else if flow && ",[]\x7b\x7d".toList.contains c then some []
    else (plainPiece flow cs).map (c :: ·)

/-- Reads a plain scalar from a piece on; tells whether a break stands behind it. -/
def readPlain (flow : Bool) (margin : Int) :
    (fuel : Nat) → List Char → Gap → Source → Option (List Char × Bool × Source)
  | 0, _, _, _ => none
  | n + 1, text, gap, s =>
    if s.atDocumentMark || s.starts '#' then some (text, gap.broken, s)
    else do
      let piece ← plainPiece flow s.rest
      let text := if piece.isEmpty then text else text ++ gap.text ++ piece
      let broken := piece.isEmpty && gap.broken
      let s := s.forward piece.length
      if !s.rest.head?.any isGap then return (text, broken, s)
      let (gap, s) ← Gap.none.read margin (s.rest.length + 1) s
      if !flow && decide ((s.column : Int) < margin) then return (text, gap.broken, s)
      readPlain flow margin n text gap s

/-! ## Quoted scalars -/

/-- The next piece in single quotes, and what comes behind it. -/
def singlePiece : List Char → List Char × List Char
  | '\'' :: '\'' :: cs => let (text, rest) := singlePiece cs; ('\'' :: text, rest)
  | c :: cs =>
    if c == '\'' || isGap c then ([], c :: cs)
    else let (text, rest) := singlePiece cs; (c :: text, rest)
  | [] => ([], [])

/-- The character of a short escape. -/
def escaped? : Char → Option Char
  | '0' => some '\x00'
  | 'a' => some '\x07'
  | 'b' => some '\x08'
  | 't' => some '\t'
  | '\t' => some '\t'
  | 'n' => some '\n'
  | 'v' => some '\x0b'
  | 'f' => some '\x0c'
  | 'r' => some '\r'
  | 'e' => some '\x1b'
  | ' ' => some ' '
  | '"' => some '"'
  | '/' => some '/'
  | '\\' => some '\\'
  | 'N' => some '\u0085'
  | '_' => some '\u00a0'
  | 'L' => some '\u2028'
  | 'P' => some '\u2029'
  | _ => none

/-- The number of digits of an escape by code. -/
def codeLength? : Char → Option Nat
  | 'x' => some 2
  | 'u' => some 4
  | 'U' => some 8
  | _ => none

def hexValue? (c : Char) : Option Nat :=
  if c.isDigit then some (c.toNat - '0'.toNat)
  else if 'a' ≤ c ∧ c ≤ 'f' then some (c.toNat - 'a'.toNat + 10)
  else if 'A' ≤ c ∧ c ≤ 'F' then some (c.toNat - 'A'.toNat + 10)
  else none

/-- The character of a code in hexadecimal digits. -/
def coded? (digits : List Char) : Option Char := do
  let code ← digits.foldlM (fun n c => (hexValue? c).map (16 * n + ·)) 0
  if code.isValidChar then some (Char.ofNat code) else none

/-- The character of the escape behind a backslash, and how many characters the escape takes. -/
def escape? : List Char → Option (Char × Nat)
  | [] => none
  | c :: cs =>
    match codeLength? c with
    | some length =>
      if cs.length < length then none else (coded? (cs.take length)).map fun d => (d, length + 1)
    | none => (escaped? c).map fun d => (d, 1)

/-- The next piece in double quotes, how many characters it takes, and whether it ends with an
escaped break, of which only the backslash is counted. -/
def doublePiece : (fuel : Nat) → List Char → Option (List Char × Nat × Bool)
  | 0, _ => none
  | n + 1, '\\' :: cs =>
    if cs.head?.any isBreak then some ([], 1, true)
    else do
      let (c, length) ← escape? cs
      let (text, count, cut) ← doublePiece n (cs.drop length)
      return (c :: text, length + 1 + count, cut)
  | n + 1, c :: cs =>
    if c == '"' || isGap c then some ([], 0, false)
    else do
      let (text, count, cut) ← doublePiece n cs
      return (c :: text, count + 1, cut)
  | _ + 1, [] => some ([], 0, false)

/-- The next piece in quotes, how many characters it takes, and whether it ends with an escaped
break. -/
def quotedPiece (quote : Char) (cs : List Char) : Option (List Char × Nat × Bool) :=
  if quote == '"' then doublePiece (cs.length + 1) cs
  else
    let (text, rest) := singlePiece cs
    some (text, cs.length - rest.length, false)

/-- Reads a quoted scalar from behind its opening quote. -/
def readQuoted (quote : Char) : (fuel : Nat) → List Char → Source → Option (List Char × Source)
  | 0, _, _ => none
  | n + 1, text, s =>
    if s.atDocumentMark || s.rest.isEmpty then none
    else do
      let (piece, count, cut) ← quotedPiece quote s.rest
      let text := text ++ piece
      let s := s.forward count
      let (gap, s) := if cut then (⟨[], true, [], []⟩, s.skipBreak) else (Gap.none, s)
      if s.starts quote then return (text, s.skip)
      let (gap, s) ← gap.read (-1) (s.rest.length + 1) s
      readQuoted quote n (text ++ gap.text) s

/-! ## Block scalars -/

/-- What becomes of the breaks at the end of a block. -/
inductive Chomping where
  | strip
  | clip
  | keep
  deriving DecidableEq, Repr

def chomping? : Option Char → Option Chomping
  | some '+' => some .keep
  | some '-' => some .strip
  | _ => none

def indentation? (c : Option Char) : Option Nat :=
  c.bind fun c => if c.isDigit then some (c.toNat - '0'.toNat) else none

/-- The header of a block: chomping and indentation in either order. -/
def readHeader (s : Source) : Option (Chomping × Option Nat × Source) :=
  let made (c : Option Chomping) (i : Option Nat) (s : Source) :
      Option (Chomping × Option Nat × Source) :=
    if i = some 0 then none else some (c.getD .clip, i, s)
  match chomping? (s.peek 0), indentation? (s.peek 0) with
  | some c, _ =>
    match indentation? (s.peek 1) with
    | some i => made c i (s.forward 2)
    | none => made c none s.skip
  | none, some i =>
    match chomping? (s.peek 1) with
    | some c => made c i (s.forward 2)
    | none => made none i s.skip
  | none, none => made none none s

/-- Reads empty lines inside a block, up to its indentation when that is known; gives their
breaks and the widest column reached. -/
def readEmptyLines (indent : Option Nat) :
    (fuel : Nat) → (widest : Nat) → List Char → Source → Option (Nat × List Char × Source)
  | 0, _, _, _ => none
  | n + 1, widest, breaks, s =>
    let spaces := (s.rest.takeWhile (· == ' ')).length
    let s := match indent with
      | none => s.forward spaces
      | some i => s.forward (min spaces (i - s.column))
    let widest := max widest s.column
    if indent.all (s.column < ·) && s.starts '\t' then none
    else if s.atBreak then
      let (text, s) := s.takeBreak
      readEmptyLines indent n widest (breaks ++ text) s
    else some (widest, breaks, s)

/-- Reads the lines of a block: text so far, the break of the last line, and the breaks of the
empty lines behind it. -/
def readLines (folded : Bool) (indent : Nat) :
    (fuel : Nat) → (text first others : List Char) → (blankBefore : Bool) → Source →
      Option (List Char × List Char × List Char × Source)
  | 0, _, _, _, _, _ => none
  | n + 1, text, first, others, blankBefore, s =>
    if s.column ≠ indent ∨ s.rest.isEmpty then some (text, first, others, s)
    else do
      let blank := s.rest.head?.any isBlank
      let joint :=
        if folded && first.head? == some '\n' && !blankBefore && !blank then
          if others.isEmpty then [' '] else others
        else first ++ others
      let line := s.rest.takeWhile fun c => !isBreak c
      let (first, s) := (s.forward line.length).takeBreak
      let (_, others, s) ← readEmptyLines indent (s.rest.length + 1) 0 [] s
      readLines folded indent n (text ++ joint ++ line) first others blank s

/-- Reads a block scalar from behind its indicator. -/
def readBlock (folded : Bool) (parent : Int) (s : Source) : Option (List Char × Source) := do
  let (chomping, increment, s) ← readHeader s
  let s := s.skipWhile isBlank
  let s := if s.starts '#' then s.skipWhile fun c => !isBreak c else s
  if !s.rest.isEmpty && !s.atBreak then none
  let s := s.skipBreak
  let known := increment.map fun i => (max parent 0).toNat + i
  let (widest, breaks, s) ← readEmptyLines known (s.rest.length + 1) 0 [] s
  let indent := known.getD (max (max widest (parent + 1).toNat) 1)
  let (text, first, others, s) ← readLines folded indent (s.rest.length + 1) [] [] breaks false s
  let ending := match chomping with
    | .strip => []
    | .clip => first
    | .keep => first ++ others
  return (text ++ ending, s)

end ShotTally.Yaml
