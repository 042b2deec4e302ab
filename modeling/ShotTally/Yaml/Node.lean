/-
Documents as trees. References to an earlier node are copies of it; a reference from within the
node itself leads round in a circle and has no copy.
-/
import ShotTally.Yaml.Token

namespace ShotTally.Yaml

inductive Node where
  | scalar (tag : Option String) (style : Style) (text : String)
  | sequence (items : List Node)
  | mapping (entries : List (Node × Node))
  | circle

/-- A node of which nothing is written. -/
def Node.nothing : Node := .scalar none .plain ""

instance : Inhabited Node := ⟨.nothing⟩

structure NodeReader where
  tokens : List Token
  /-- Named nodes, the latest first; one still being read is a circle. -/
  anchors : List (String × Node)
  /-- What the handles of tags stand for. -/
  handles : List (List Char × List Char)

abbrev ReadNodes (α : Type) := StateT NodeReader Option α

namespace ReadNodes

def peek : ReadNodes (Option Token) := do return (← get).tokens.head?

def advance : ReadNodes Unit := modify fun s => { s with tokens := s.tokens.drop 1 }

/-- Takes a token if it comes next. -/
def accept (t : Token) : ReadNodes Bool := do
  if (← peek) = some t then
    advance
    return true
  else return false

/-- Takes a token that has to come next. -/
def expect (t : Token) : ReadNodes Unit := do
  if !(← accept t) then failure

/-- Whether one of some tokens comes next, or none at all. -/
def comes (ts : List Token) : ReadNodes Bool := do
  return (← peek).all ts.contains

/-- Takes the node that a name stands for. -/
def lookup (name : String) : ReadNodes Node := do
  match (← get).anchors.lookup name with
  | some n => return n
  | none => failure

/-- What a tag stands for. -/
def expand (handle suffix : List Char) : ReadNodes String := do
  if handle.isEmpty then return String.ofList suffix
  else
    match (← get).handles.lookup handle with
    | some text => return String.ofList (text ++ suffix)
    | none => failure

/-- The anchor and tag in front of a node, in either order. -/
def properties : ReadNodes (Option String × Option String) := do
  match ← peek with
  | some (.anchor name) =>
    advance
    match ← peek with
    | some (.tag handle suffix) =>
      advance
      return (some name, some (← expand handle suffix))
    | _ => return (some name, none)
  | some (.tag handle suffix) =>
    advance
    let tag ← expand handle suffix
    match ← peek with
    | some (.anchor name) =>
      advance
      return (some name, some tag)
    | _ => return (none, some tag)
  | _ => return (none, none)

/-- Reads a node under a name; within it the name is a circle. -/
def named (name : Option String) (read : ReadNodes Node) : ReadNodes Node := do
  match name with
  | none => read
  | some name =>
    let below := (← get).anchors.length
    modify fun s => { s with anchors := (name, .circle) :: s.anchors }
    let n ← read
    modify fun s => { s with anchors := s.anchors.set (s.anchors.length - 1 - below) (name, n) }
    return n

/-- Reads a node unless one of some tokens comes next. -/
def nothingBefore (ts : List Token) (read : ReadNodes Node) : ReadNodes Node := do
  if ← comes ts then return .nothing else read

mutual

/-- Reads a node. In blocks a sequence may stand at the column of the mapping around it. -/
def node : (fuel : Nat) → (inBlock flush : Bool) → ReadNodes Node
  | 0, _, _ => failure
  | n + 1, inBlock, flush => do
    match ← peek with
    | some (.alias name) =>
      advance
      lookup name
    | _ =>
      let (name, tag) ← properties
      match ← peek with
      | some (.scalar style text) =>
        advance
        named name (return .scalar tag style text)
      | some .openSequence =>
        advance
        named name (return .sequence (← items n true))
      | some .openMapping =>
        advance
        named name (return .mapping (← pairs n true))
      | some .openBlockSequence =>
        if !inBlock then failure
        advance
        named name (return .sequence (← entries n))
      | some .openBlockMapping =>
        if !inBlock then failure
        advance
        named name (return .mapping (← keys n))
      | some .entry =>
        if flush then named name (return .sequence (← flushEntries n))
        else if name.isSome || tag.isSome then named name (return .scalar tag .plain "")
        else failure
      | _ =>
        if name.isSome || tag.isSome then named name (return .scalar tag .plain "")
        else failure

/-- The items of a sequence in a block of its own. -/
def entries : (fuel : Nat) → ReadNodes (List Node)
  | 0 => failure
  | n + 1 => do
    if ← accept .entry then
      let item ← nothingBefore [.entry, .closeBlock] (node n true false)
      return item :: (← entries n)
    else
      expect .closeBlock
      return []

/-- The items of a sequence in the block of the mapping around it. -/
def flushEntries : (fuel : Nat) → ReadNodes (List Node)
  | 0 => failure
  | n + 1 => do
    if ← accept .entry then
      let item ← nothingBefore [.entry, .key, .value, .closeBlock] (node n true false)
      return item :: (← flushEntries n)
    else return []

/-- The keys and values of a mapping in a block. -/
def keys : (fuel : Nat) → ReadNodes (List (Node × Node))
  | 0 => failure
  | n + 1 => do
    if ← accept .closeBlock then return []
    else
      expect .key
      let key ← nothingBefore [.key, .value, .closeBlock] (node n true true)
      let value ←
        if ← accept .value then nothingBefore [.key, .value, .closeBlock] (node n true true)
        else pure .nothing
      return (key, value) :: (← keys n)

/-- The items of a sequence in brackets. -/
def items : (fuel : Nat) → (first : Bool) → ReadNodes (List Node)
  | 0, _ => failure
  | n + 1, first => do
    if ← accept .closeSequence then return []
    else
      if !first then expect .comma
      if ← accept .closeSequence then return []
      else
        let item ← if ← accept .key then pair n else node n false false
        return item :: (← items n false)

/-- A single key and value among the items of a sequence. A key that is left out takes the token
behind it along. -/
def pair : (fuel : Nat) → ReadNodes Node
  | 0 => failure
  | n + 1 => do
    let key ←
      if ← comes [.value, .comma, .closeSequence] then do
        advance
        pure .nothing
      else node n false false
    let value ←
      if ← accept .value then nothingBefore [.comma, .closeSequence] (node n false false)
      else pure .nothing
    return .mapping [(key, value)]

/-- The keys and values of a mapping in braces. -/
def pairs : (fuel : Nat) → (first : Bool) → ReadNodes (List (Node × Node))
  | 0, _ => failure
  | n + 1, first => do
    if ← accept .closeMapping then return []
    else
      if !first then expect .comma
      if ← accept .closeMapping then return []
      else if ← accept .key then
        let key ← nothingBefore [.value, .comma, .closeMapping] (node n false false)
        let value ←
          if ← accept .value then nothingBefore [.comma, .closeMapping] (node n false false)
          else pure .nothing
        return (key, value) :: (← pairs n false)
      else
        let key ← node n false false
        return (key, .nothing) :: (← pairs n false)

end

/-- The handles that need no directive. -/
def standardHandles : List (List Char × List Char) :=
  [(['!'], ['!']), (['!', '!'], "tag:yaml.org,2002:".toList)]

/-- Reads the directives in front of a document; gives whether there were any. -/
def directives : (fuel : Nat) → (versioned : Bool) → ReadNodes Bool
  | 0, _ => failure
  | n + 1, versioned => do
    match ← peek with
    | some (.version major minor) =>
      advance
      if versioned || major ≠ ['1'] || (minor ≠ ['1'] && minor ≠ ['2']) then failure
      let _ ← directives n true
      return true
    | some (.tagPrefix handle text) =>
      advance
      modify fun s => { s with handles := (handle, text) :: s.handles }
      let _ ← directives n versioned
      return true
    | _ => return false

/-- Reads the one document of a text. -/
def document (fuel : Nat) : ReadNodes Node := do
  if (← peek).isNone then return .nothing
  let directed ← directives fuel false
  let marked ← accept .directivesEnd
  if directed && !marked then failure
  let root ←
    if marked then nothingBefore [.directivesEnd, .documentEnd] (node fuel true false)
    else node fuel true false
  let rest := (← get).tokens.dropWhile (· == .documentEnd)
  if rest.isEmpty then return root else failure

end ReadNodes

/-- The document of a text, if it has the form of one document and no more. -/
def Node.read? (text : List Char) : Option Node := do
  let tokens ← tokens? text
  let (root, _) ← (ReadNodes.document (4 * tokens.length + 16)).run
    ⟨tokens, [], ReadNodes.standardHandles⟩
  return root

end ShotTally.Yaml
