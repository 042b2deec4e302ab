/-
The text of a document as it is read: what is left of it, and where reading stands. Lines end at
any of the line breaks that the format knows, and columns count characters.
-/

namespace ShotTally.Yaml

/-! ## Characters -/

def isBlank (c : Char) : Bool := c == ' ' || c == '\t'

def isBreak (c : Char) : Bool :=
  c == '\n' || c == '\r' || c == '\u0085' || c == '\u2028' || c == '\u2029'

def isGap (c : Char) : Bool := isBlank c || isBreak c

/-- Letters, digits, `_` and `-`. -/
def isWord (c : Char) : Bool := c.isAlphanum || c == '_' || c == '-'

/-- The mark that may stand in front of a text to tell its encoding. -/
def byteOrderMark : Char := '\ufeff'

/-- The characters a document may hold. -/
def isAllowed (c : Char) : Bool :=
  c == '\t' || c == '\n' || c == '\r' || (' ' ≤ c && c ≤ '~') || c == '\u0085'
    || ('\u00a0' ≤ c && c.toNat ≤ 0xfffd) || 0x10000 ≤ c.toNat

/-! ## Reading -/

structure Source where
  rest : List Char
  /-- The number of characters read. -/
  index : Nat
  line : Nat
  column : Nat
  deriving DecidableEq

namespace Source

def ofText (text : List Char) : Source := ⟨text, 0, 0, 0⟩

def peek (s : Source) (n : Nat) : Option Char := s.rest[n]?

def starts (s : Source) (c : Char) : Bool := s.rest.head? == some c

/-- Whether a character some way on is a blank, a break, or past the end. -/
def gapAt (s : Source) (n : Nat) : Bool := (s.peek n).all isGap

/-- Goes on so many characters, none of them a break. -/
def forward (s : Source) (n : Nat) : Source :=
  let n := min n s.rest.length
  ⟨s.rest.drop n, s.index + n, s.line, s.column + n⟩

def skip (s : Source) : Source := s.forward 1

/-- Goes on past the characters in front that satisfy a condition, none of them a break. -/
def skipWhile (s : Source) (p : Char → Bool) : Source := s.forward (s.rest.takeWhile p).length

/-- Reads a break, if one comes next. The breaks of plain text all read as line feeds. -/
def takeBreak (s : Source) : List Char × Source :=
  match s.rest with
  | '\r' :: '\n' :: cs => (['\n'], ⟨cs, s.index + 2, s.line + 1, 0⟩)
  | c :: cs =>
    if isBreak c then
      ([if c == '\u2028' || c == '\u2029' then c else '\n'], ⟨cs, s.index + 1, s.line + 1, 0⟩)
    else ([], s)
  | [] => ([], s)

def skipBreak (s : Source) : Source := s.takeBreak.2

def atBreak (s : Source) : Bool := s.rest.head?.any isBreak

/-- Whether one of the marks between documents comes next. -/
def atDocumentMark (s : Source) : Bool :=
  s.column == 0 && s.gapAt 3
    && (['-', '-', '-'].isPrefixOf s.rest || ['.', '.', '.'].isPrefixOf s.rest)

end Source
end ShotTally.Yaml
