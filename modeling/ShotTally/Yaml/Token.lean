/-
Documents as tokens. Indentation is told by tokens that open and close blocks. Whether a scalar is
the key of a mapping shows only at the colon behind it; then the tokens that say so are put in
front of it.
-/
import ShotTally.Yaml.Scalar

namespace ShotTally.Yaml

inductive Token where
  | version (major minor : List Char)
  | tagPrefix (handle text : List Char)
  | directivesEnd
  | documentEnd
  | openBlockSequence
  | openBlockMapping
  | closeBlock
  | openSequence
  | closeSequence
  | openMapping
  | closeMapping
  | entry
  | comma
  | key
  | value
  | alias (name : String)
  | anchor (name : String)
  | tag (handle suffix : List Char)
  | scalar (style : Style) (text : String)
  deriving DecidableEq

/-- A place where a key may start. -/
structure Candidate where
  /-- The number of tokens in front of it. -/
  place : Nat
  /-- Whether nothing but a key can stand there. -/
  required : Bool
  index : Nat
  line : Nat
  column : Nat

structure TokenReader where
  source : Source
  /-- The tokens so far, the newest first. -/
  tokens : List Token
  /-- The columns of the open blocks, the innermost first. -/
  blocks : List Nat
  /-- The candidate of every open flow collection, the innermost first. -/
  flows : List (Option Candidate)
  /-- The candidate outside all flow collections, or in the innermost. -/
  candidate : Option Candidate
  /-- Whether a key may start here. -/
  keyAllowed : Bool

abbrev ReadTokens (α : Type) := StateT TokenReader Option α

namespace ReadTokens

def source : ReadTokens Source := do return (← get).source

def setSource (s : Source) : ReadTokens Unit := modify ({ · with source := s })

def skip (n : Nat) : ReadTokens Unit := do setSource ((← source).forward n)

def add (t : Token) : ReadTokens Unit := modify fun s => { s with tokens := t :: s.tokens }

def allowKey (b : Bool) : ReadTokens Unit := modify ({ · with keyAllowed := b })

def inFlow : ReadTokens Bool := do return !(← get).flows.isEmpty

/-- The column of the innermost block, or one to the left of all. -/
def margin : ReadTokens Int := do
  match (← get).blocks with
  | column :: _ => return column
  | [] => return -1

/-- Puts tokens in front of the tokens from a place on. -/
def insertAt (place : Nat) (ts : List Token) : ReadTokens Unit :=
  modify fun s =>
    let after := s.tokens.length - place
    { s with tokens := s.tokens.take after ++ ts.reverse ++ s.tokens.drop after }

/-! ## Blocks -/

/-- Closes the blocks that start to the right of a column. -/
def closeBlocks (column : Int) : ReadTokens Unit := do
  if !(← inFlow) then
    modify fun s =>
      let inner := s.blocks.takeWhile fun (b : Nat) => decide (column < (b : Int))
      { s with
        tokens := inner.map (fun _ => Token.closeBlock) ++ s.tokens
        blocks := s.blocks.drop inner.length }

/-- Whether a column starts a block in the innermost one; the block is then entered. -/
def entersBlock (column : Nat) : ReadTokens Bool := do
  if !(← inFlow) && decide ((← margin) < (column : Int)) then
    modify fun s => { s with blocks := column :: s.blocks }
    return true
  else return false

/-- Opens a block at the current column unless one is open there. -/
def openBlock (t : Token) : ReadTokens Unit := do
  if ← entersBlock (← source).column then add t

/-! ## Candidates for keys -/

/-- Gives up the candidate; one that had to be a key cannot be given up. -/
def dropCandidate : ReadTokens Unit := do
  if (← get).candidate.any Candidate.required then failure
  modify ({ · with candidate := none })

/-- Takes the current place as a candidate, if keys are allowed. -/
def markCandidate : ReadTokens Unit := do
  let s ← get
  if s.keyAllowed then
    let required := !(← inFlow) && decide ((← margin) = (s.source.column : Int))
    dropCandidate
    let c : Candidate :=
      ⟨s.tokens.length, required, s.source.index, s.source.line, s.source.column⟩
    modify ({ · with candidate := some c })

/-- The candidate if it can still be a key: on this line, and not too far back. -/
def freshCandidate : ReadTokens (Option Candidate) := do
  let s ← get
  match s.candidate with
  | none => return none
  | some c =>
    if c.line < s.source.line ∨ c.index + 1024 < s.source.index then
      dropCandidate
      return none
    else return some c

/-! ## Tokens -/

/-- Goes past blanks, comments and breaks. Tabs count as blanks where no key can start. -/
def skipGaps : (fuel : Nat) → ReadTokens Unit
  | 0 => return
  | n + 1 => do
    let s ← source
    let s := if s.column = 0 ∧ s.starts byteOrderMark then s.skip else s
    let tabs := (← inFlow) || !(← get).keyAllowed
    let s := s.skipWhile fun c => c == ' ' || (tabs && c == '\t')
    let s := if s.starts '#' then s.skipWhile fun c => !isBreak c else s
    if s.atBreak then
      setSource s.skipBreak
      if !(← inFlow) then allowKey true
      skipGaps n
    else setSource s

/-- A mark between documents. -/
def documentMark (t : Token) : ReadTokens Unit := do
  closeBlocks (-1)
  dropCandidate
  allowKey false
  skip 3
  add t

def openFlow (t : Token) : ReadTokens Unit := do
  markCandidate
  modify fun s => { s with flows := s.candidate :: s.flows, candidate := none }
  allowKey true
  skip 1
  add t

def closeFlow (t : Token) : ReadTokens Unit := do
  dropCandidate
  modify fun s =>
    match s.flows with
    | outer :: flows => { s with flows := flows, candidate := outer }
    | [] => s
  allowKey false
  skip 1
  add t

def comma : ReadTokens Unit := do
  dropCandidate
  allowKey true
  skip 1
  add .comma

def entry : ReadTokens Unit := do
  if !(← inFlow) then
    if !(← get).keyAllowed then failure
    openBlock .openBlockSequence
  dropCandidate
  allowKey true
  skip 1
  add .entry

def key : ReadTokens Unit := do
  if !(← inFlow) then
    if !(← get).keyAllowed then failure
    openBlock .openBlockMapping
  dropCandidate
  allowKey (!(← inFlow))
  skip 1
  add .key

def value : ReadTokens Unit := do
  match ← freshCandidate with
  | some c =>
    let opened ← entersBlock c.column
    insertAt c.place (if opened then [.openBlockMapping, .key] else [.key])
    modify ({ · with candidate := none })
    allowKey false
  | none =>
    if !(← inFlow) then
      if !(← get).keyAllowed then failure
      openBlock .openBlockMapping
    allowKey (!(← inFlow))
  skip 1
  add .value

/-- The name behind the indicator of an anchor or alias. -/
def name : ReadTokens String := do
  let s := (← source).skip
  let word := s.rest.takeWhile isWord
  let s := s.forward word.length
  setSource s
  if word.isEmpty || !(s.gapAt 0 || s.rest.head?.any fun c => "?:,]\x7d%@`".toList.contains c) then
    failure
  return String.ofList word

def reference (make : String → Token) : ReadTokens Unit := do
  markCandidate
  allowKey false
  add (make (← name))

/-- Whether a character may stand in the text of a tag. -/
def isTagChar (verbatim : Bool) (c : Char) : Bool :=
  isWord c || ";/?:@&=+$.!~*'()%".toList.contains c || (verbatim && ",[]".toList.contains c)

/-- A tag from behind its first indicator: its handle, its suffix, and how long both are. -/
def tagParts (cs : List Char) : Option (List Char × List Char × Nat) :=
  match cs with
  | '<' :: cs =>
    let text := cs.takeWhile (isTagChar true)
    if text.isEmpty || (cs.drop text.length).head? ≠ some '>' then none
    else some ([], text, text.length + 2)
  | cs =>
    let word := cs.takeWhile isWord
    let rest := cs.drop word.length
    if rest.head? = some '!' then
      let suffix := (rest.drop 1).takeWhile (isTagChar false)
      if suffix.isEmpty then none
      else some ('!' :: (word ++ ['!']), suffix, word.length + 1 + suffix.length)
    else
      let suffix := cs.takeWhile (isTagChar false)
      if suffix.isEmpty then some ([], ['!'], 0) else some (['!'], suffix, suffix.length)

def tag : ReadTokens Unit := do
  markCandidate
  allowKey false
  let s := (← source).skip
  let (handle, suffix, length) ← tagParts s.rest
  let s := s.forward length
  setSource s
  if !(s.gapAt 0 || ((← inFlow) && s.starts ',')) then failure
  add (.tag handle suffix)

def block (folded : Bool) : ReadTokens Unit := do
  dropCandidate
  allowKey true
  let (text, s) ← readBlock folded (← margin) (← source).skip
  setSource s
  add (.scalar (if folded then .folded else .literal) (String.ofList text))

def quoted (quote : Char) : ReadTokens Unit := do
  markCandidate
  allowKey false
  let s := (← source).skip
  let (text, s) ← readQuoted quote (s.rest.length + 1) [] s
  setSource s
  add (.scalar .quoted (String.ofList text))

def plain : ReadTokens Unit := do
  markCandidate
  allowKey false
  let s ← source
  let (text, broken, s) ← readPlain (← inFlow) ((← margin) + 1) (s.rest.length + 1) [] .none s
  setSource s
  if broken then allowKey true
  add (.scalar .plain (String.ofList text))

/-- The words of the line of a directive. -/
def words (fuel : Nat) (cs : List Char) : List (List Char) :=
  match fuel with
  | 0 => []
  | n + 1 =>
    let cs := cs.dropWhile isBlank
    if cs.isEmpty || cs.head? = some '#' then []
    else
      let word := cs.takeWhile fun c => !isBlank c
      word :: words n (cs.drop word.length)

def directive : ReadTokens Unit := do
  closeBlocks (-1)
  dropCandidate
  allowKey false
  let s ← source
  let line := (s.rest.drop 1).takeWhile fun c => !isBreak c
  match words (line.length + 1) line with
  | [['Y', 'A', 'M', 'L'], number] =>
    let major := number.takeWhile Char.isDigit
    let minor := number.drop (major.length + 1)
    if major.isEmpty || minor.isEmpty || !minor.all Char.isDigit
      || (number.drop major.length).head? ≠ some '.' then failure
    add (.version major minor)
  | [['T', 'A', 'G'], handle, text] => add (.tagPrefix handle text)
  | _ => failure
  setSource (s.forward (line.length + 1)).skipBreak

/-- Whether a plain scalar may start with a character. -/
def startsPlain (s : Source) (flow : Bool) (c : Char) : Bool :=
  if isGap c then false
  else if c == '-' then !(s.peek 1).any isBlank
  else if c == '?' || c == ':' then !flow && !s.gapAt 1
  else !",[]\x7b\x7d#&*!|>'\"%@`".toList.contains c

/-- Reads the next token; gives whether there was one. -/
def next : ReadTokens Bool := do
  skipGaps ((← source).rest.length + 1)
  closeBlocks (← source).column
  let s ← source
  let flow ← inFlow
  let marks := flow || s.gapAt 1
  match s.rest with
  | [] =>
    closeBlocks (-1)
    dropCandidate
    return false
  | c :: _ =>
    if s.column = 0 ∧ c = '%' then directive
    else if s.atDocumentMark then documentMark (if c = '-' then .directivesEnd else .documentEnd)
    else if c = '[' then openFlow .openSequence
    else if c = '\x7b' then openFlow .openMapping
    else if c = ']' then closeFlow .closeSequence
    else if c = '\x7d' then closeFlow .closeMapping
    else if c = ',' then comma
    else if c = '-' ∧ s.gapAt 1 then entry
    else if c = '?' ∧ marks then key
    else if c = ':' ∧ marks then value
    else if c = '*' then reference .alias
    else if c = '&' then reference .anchor
    else if c = '!' then tag
    else if c = '|' ∧ !flow then block false
    else if c = '>' ∧ !flow then block true
    else if c = '\'' ∨ c = '"' then quoted c
    else if startsPlain s flow c then plain
    else failure
    return true

def all : (fuel : Nat) → ReadTokens Unit
  | 0 => failure
  | n + 1 => do if ← next then all n

end ReadTokens

/-- The tokens of a text, if it has the form of a document. -/
def tokens? (text : List Char) : Option (List Token) := do
  if !text.all isAllowed then none
  let start : TokenReader := ⟨.ofText text, [], [], [], none, true⟩
  let (_, s) ← (ReadTokens.all (text.length + 2)).run start
  return s.tokens.reverse

end ShotTally.Yaml
