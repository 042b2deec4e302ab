/-
What scalars mean. A plain scalar is nothing, a truth value or a number if it looks like one, and
text otherwise; a scalar in quotes or as a block is text.
-/
import ShotTally.Decimal.Reading
import ShotTally.Text.Numeral
import ShotTally.Yaml.Node

namespace ShotTally.Yaml

open Text

inductive Meaning where
  | null
  | bool (b : Bool)
  | int (i : Int)
  | float (x : Double)
  | text (s : String)
  deriving DecidableEq

/-! ## Words -/

def isNullWord (s : String) : Bool := s == "null" || s == "Null" || s == "NULL" || s == "~"

def boolWord? (s : String) : Option Bool :=
  if s == "true" || s == "True" || s == "TRUE" then some true
  else if s == "false" || s == "False" || s == "FALSE" then some false
  else none

/-! ## Numbers -/

/-- The radix of digits behind a zero and a letter. -/
def radix? : Char → Option Nat
  | 'x' => some 16
  | 'o' => some 8
  | 'b' => some 2
  | _ => none

/-- The value of digits, at least one, in a radix. -/
def digitsValue? (radix : Nat) (digits : List Char) : Option Nat :=
  if digits.isEmpty then none
  else digits.foldlM (fun n c =>
    match hexValue? c with
    | some d => if d < radix then some (radix * n + d) else none
    | none => none) 0

/-- Several digits that start with a zero, perhaps behind a sign: these are text. -/
def isPaddedDigits (cs : List Char) : Bool :=
  let digits := match cs with
    | '-' :: rest => rest
    | '+' :: rest => rest
    | _ => cs
  digits.head? == some '0' && decide (1 < digits.length) && digits.all Char.isDigit

/-- A whole number without a sign. -/
def magnitude? (cs : List Char) : Option Nat :=
  match cs with
  | '0' :: c :: digits =>
    match radix? c with
    | some radix => digitsValue? radix digits
    | none => none
  | _ => digitsValue? 10 cs

/-- A whole number. -/
def int? (s : String) : Option Int :=
  match s.toList with
  | '+' :: cs => (magnitude? cs).map Int.ofNat
  | '-' :: cs => (magnitude? cs).map fun n => -(n : Int)
  | cs => (magnitude? cs).map Int.ofNat

/-- A whole number that is held in sixty-four bits. -/
def int64? (s : String) : Option Int := (int? s).filter isInt64

/-- A number with a fraction or an exponent, or one of the words for values that are not finite. -/
def float? (s : String) : Option Double :=
  let cs := s.toList
  let unsigned := match cs with
    | '+' :: rest => rest
    | _ => cs
  let word := String.ofList unsigned
  if cs.head? = some '+' ∧ (unsigned.head? = some '+' ∨ unsigned.head? = some '-') then none
  else if word == ".inf" || word == ".Inf" || word == ".INF" then some .infinity
  else if s == "-.inf" || s == "-.Inf" || s == "-.INF" then some Double.infinity.neg
  else if s == ".nan" || s == ".NaN" || s == ".NAN" then some .nan
  else
    match Double.parse? unsigned with
    | some x => if x.isFinite then some x else none
    | none => none

/-! ## Scalars -/

/-- The whole numbers that are told from other numbers: those of 128 bits, with a sign or without. -/
def isWhole (i : Int) : Bool :=
  decide (-0x80000000000000000000000000000000 ≤ i)
    && decide (i < 0x100000000000000000000000000000000)

/-- What a plain scalar without a tag means. -/
def Meaning.ofPlain (s : String) : Meaning :=
  if s == "" || isNullWord s then .null
  else
    match boolWord? s with
    | some b => .bool b
    | none =>
      match (int? s).filter isWhole with
      | some i => .int i
      | none =>
        if isPaddedDigits s.toList then .text s
        else
          match float? s with
          | some x => .float x
          | none => .text s

def nullTag : String := "tag:yaml.org,2002:null"
def boolTag : String := "tag:yaml.org,2002:bool"
def intTag : String := "tag:yaml.org,2002:int"
def floatTag : String := "tag:yaml.org,2002:float"

/-- What a scalar means; nothing when it does not fit its tag. -/
def Meaning.ofScalar? (tag : Option String) (style : Style) (s : String) : Option Meaning :=
  let free := if style = .plain then Meaning.ofPlain s else .text s
  match tag with
  | none => some free
  | some tag =>
    if tag == nullTag then if isNullWord s then some .null else none
    else if tag == boolTag then (boolWord? s).map .bool
    else if tag == intTag then (int? s).map .int
    else if tag == floatTag then (float? s).map .float
    else if tag.toList.head? = some '!' then some free
    else some (.text s)

end ShotTally.Yaml
