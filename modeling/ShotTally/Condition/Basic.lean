/-
The four conditions of a shot: a periodic source and a periodic modulator, each on or off.
-/
import ShotTally.Number.Word

namespace ShotTally

inductive Condition where
  | sourceOnModulatorOn
  | sourceOffModulatorOn
  | sourceOnModulatorOff
  | sourceOffModulatorOff
  deriving DecidableEq, Repr

namespace Condition

/-- All conditions in the order of the condition axis. -/
def all : List Condition :=
  [sourceOnModulatorOn, sourceOffModulatorOn, sourceOnModulatorOff, sourceOffModulatorOff]

/-- Place on the condition axis. -/
def index : Condition → Nat
  | sourceOnModulatorOn => 0
  | sourceOffModulatorOn => 1
  | sourceOnModulatorOff => 2
  | sourceOffModulatorOff => 3

def ofFlags : (sourceOff modulatorOff : Bool) → Condition
  | false, false => sourceOnModulatorOn
  | true, false => sourceOffModulatorOn
  | false, true => sourceOnModulatorOff
  | true, true => sourceOffModulatorOff

end Condition

/-- The signals that separate shots into conditions of their own. -/
structure Splits where
  source : Bool
  modulator : Bool
  deriving DecidableEq, Repr

namespace Splits

def none : Splits := ⟨false, false⟩

def both : Splits := ⟨true, true⟩

def any (s : Splits) : Bool := s.source || s.modulator

/-- The condition of a shot; a signal that does not split counts as on. -/
def conditionOf (s : Splits) (sourceOff modulatorOff : Bool) : Condition :=
  Condition.ofFlags (s.source && sourceOff) (s.modulator && modulatorOff)

end Splits

/-- A periodic signal that is off at one phase. A period that is not positive is unknown. -/
structure Signal where
  period : Int
  offset : Int
  deriving DecidableEq, Repr

/-- Whether the signal is off at a shot; one of unknown period never is. How far the shot is from the offset is
computed in words. -/
def Signal.isOff (s : Signal) (shot : Int) : Bool :=
  decide (0 < s.period) && decide ((Arithmetic.words.signed (shot - s.offset)).emod s.period = 0)

/-- For each shot, whether the source and the modulator are off. -/
structure ShotFlags where
  sourceOff : List Bool
  modulatorOff : List Bool
  deriving DecidableEq, Repr

namespace ShotFlags

def classify (source modulator : Signal) (shots : List Int) : ShotFlags :=
  ⟨shots.map source.isOff, shots.map modulator.isOff⟩

def size (f : ShotFlags) : Nat := f.sourceOff.length

def isEmpty (f : ShotFlags) : Bool := f.sourceOff.isEmpty

/-- The condition of each shot. -/
def conditions (splits : Splits) (f : ShotFlags) : List Condition :=
  f.sourceOff.zipWith splits.conditionOf f.modulatorOff

/-- The shots of one condition. -/
def maskOf (splits : Splits) (f : ShotFlags) (c : Condition) : List Bool :=
  (f.conditions splits).map (· == c)

/-- The shots of each condition in the order of the condition axis. -/
def masks (splits : Splits) (f : ShotFlags) : List (List Bool) :=
  Condition.all.map (f.maskOf splits)

end ShotFlags
end ShotTally
