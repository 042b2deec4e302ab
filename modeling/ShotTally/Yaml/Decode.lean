/-
Taking values out of documents. Either the place decides what a scalar is, so that a text may be
written in any way, or every scalar is what it looks like, wherever it stands.
-/
import ShotTally.Keyed
import ShotTally.Yaml.Meaning

namespace ShotTally.Yaml

inductive Manner where
  /-- What a scalar is depends on the place it stands in. -/
  | byPlace
  /-- What a scalar is depends on how it is written. -/
  | byForm
  deriving DecidableEq, Repr

namespace Manner

/-- Nothing at all is written, or by form, the word for it. -/
def isNothing (m : Manner) : Node → Bool
  | .scalar tag style s =>
    match m with
    | byPlace => style = .plain && s == ""
    | byForm => Meaning.ofScalar? tag style s == some .null
  | _ => false

def text? (m : Manner) : Node → Option String
  | .scalar tag style s =>
    match m with
    | byPlace => some s
    | byForm =>
      match Meaning.ofScalar? tag style s with
      | some (.text s) => some s
      | _ => none
  | _ => none

def int64? (m : Manner) : Node → Option Int
  | .scalar tag style s =>
    match m with
    | byPlace =>
      if style = .plain ∨ (style = .literal ∧ tag = some intTag) then Yaml.int64? s else none
    | byForm =>
      match Meaning.ofScalar? tag style s with
      | some (.int i) => if Text.isInt64 i then some i else none
      | _ => none
  | _ => none

/-- Whether an optional value is left out; undecided when it does not fit its tag. -/
def isAbsent? (m : Manner) (n : Node) : Option Bool :=
  match m, n with
  | byPlace, .scalar tag style s =>
    if style ≠ .plain then some false
    else match tag with
      | none => some (s == "" || isNullWord s)
      | some tag =>
        if tag == nullTag then if isNullWord s then some true else none else some (s == "")
  | byPlace, .circle => none
  | byPlace, _ => some false
  | byForm, n => some (m.isNothing n)

/-- A value that may be left out. -/
def option? {α : Type} (m : Manner) (f : Node → Option α) (n : Node) : Option (Option α) := do
  if ← m.isAbsent? n then return none else return some (← f n)

def list? {α : Type} (m : Manner) (f : Node → Option α) (n : Node) : Option (List α) :=
  match n with
  | .sequence items => items.mapM f
  | other => if m.isNothing other then some [] else none

/-- Texts by name; of two with one name the later stays. -/
def texts? (m : Manner) (n : Node) : Option (Keyed String) := do
  let entries ← match n with
    | .mapping entries => entries.mapM fun (k, v) => do return (← m.text? k, ← m.text? v)
    | other => if m.isNothing other then some [] else none
  return .ofList entries

/-- The values of named fields, each given at most once; other fields are passed over. By place, a
sequence gives them in order. -/
def fields? (m : Manner) (names : List String) (n : Node) : Option (List (String × Node)) :=
  match n with
  | .mapping entries => do
    let given ← entries.mapM fun (k, v) => do return (← m.text? k, v)
    let known := given.filter fun e => names.contains e.1
    if (known.map (·.1)).Nodup then return known else none
  | .sequence items =>
    if m = .byPlace ∧ items.length ≤ names.length then some (names.zip items) else none
  | other => if m.isNothing other then some [] else none

end Manner

/-! ## Whether a document can be taken by form -/

/-- What a key means, if it is a scalar that means something. -/
def Node.keyMeaning? : Node → Option Meaning
  | .scalar tag style s => Meaning.ofScalar? tag style s
  | _ => none

/-- Whether a number is one that can be held. -/
def Meaning.isHeld : Meaning → Bool
  | .int i => decide (-Text.int64End ≤ i) && decide (i < Text.nat64End)
  | _ => true

mutual

/-- Whether every scalar means something, no key of a mapping is given twice, and nothing leads
round in a circle. -/
def Node.isMeaningful : Node → Bool
  | .scalar tag style s => (Meaning.ofScalar? tag style s).any Meaning.isHeld
  | .sequence items => itemsMeaningful items
  | .mapping entries => entriesMeaningful entries && (scalarKeys entries).Nodup
  | .circle => false

def itemsMeaningful : List Node → Bool
  | [] => true
  | n :: rest => n.isMeaningful && itemsMeaningful rest

def entriesMeaningful : List (Node × Node) → Bool
  | [] => true
  | (k, v) :: rest => k.isMeaningful && v.isMeaningful && entriesMeaningful rest

/-- The meanings of the keys that are scalars. -/
def scalarKeys : List (Node × Node) → List Meaning
  | [] => []
  | (k, _) :: rest =>
    match k.keyMeaning? with
    | some m => m :: scalarKeys rest
    | none => scalarKeys rest

end

/-- The value under a name at the top of a document, by form. -/
def Node.member? (name : String) : Node → Option Node
  | .mapping entries =>
    (entries.find? fun e => Manner.byForm.text? e.1 == some name).map (·.2)
  | _ => none

end ShotTally.Yaml
