/-
Structured records, and their canonical form: the members of every object in increasing order of
their names, each name once, and nothing in place of numbers that are not finite.
-/
import ShotTally.Keyed
import ShotTally.Number.Double

namespace ShotTally

inductive Json where
  | null
  | bool (b : Bool)
  | int (i : Int)
  | float (x : Double)
  | text (s : String)
  | list (items : List Json)
  | object (members : List (String × Json))
  deriving Inhabited

namespace Json

mutual

/-- The canonical form; of two members with one name the later one stays. -/
def canonical : Json → Json
  | .float x => if x.isFinite then .float x else .null
  | .list items => .list (canonicalItems items)
  | .object members =>
    .object ((canonicalMembers members).foldl (fun acc e => Keyed.place e.1 e.2 acc) [])
  | other => other

def canonicalItems : List Json → List Json
  | [] => []
  | j :: rest => canonical j :: canonicalItems rest

def canonicalMembers : List (String × Json) → List (String × Json)
  | [] => []
  | (k, j) :: rest => (k, canonical j) :: canonicalMembers rest

end

/-! ## Building records -/

def nat (n : Nat) : Json := .int n

def option {α : Type} (f : α → Json) : Option α → Json
  | some a => f a
  | none => .null

def texts (l : List String) : Json := .list (l.map .text)

def nats (l : List Nat) : Json := .list (l.map nat)

def floats (l : List Double) : Json := .list (l.map .float)

def ofKeyed {α : Type} (f : α → Json) (m : Keyed α) : Json :=
  .object (m.entries.map fun e => (e.1, f e.2))

end Json
end ShotTally
