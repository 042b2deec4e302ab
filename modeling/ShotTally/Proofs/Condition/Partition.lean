/-
The condition a shot has. A signal is off at the shots a whole number of its periods away from its
offset, before it as well as after it, as long as a word holds how far away they are; the four conditions
divide the shots that are selected.
-/
import Mathlib.Data.List.Nodup
import ShotTally.Condition.Basic
import ShotTally.Proofs.Number.Word
import ShotTally.Proofs.Tensor.RowView

namespace ShotTally

open Tensor

/-! ## One shot -/

/-- Whether the source is off under a condition. -/
def Condition.sourceOff : Condition → Bool
  | .sourceOnModulatorOn | .sourceOnModulatorOff => false
  | .sourceOffModulatorOn | .sourceOffModulatorOff => true

/-- Whether the modulator is off under a condition. -/
def Condition.modulatorOff : Condition → Bool
  | .sourceOnModulatorOn | .sourceOffModulatorOn => false
  | .sourceOnModulatorOff | .sourceOffModulatorOff => true

theorem Condition.mem_all (c : Condition) : c ∈ all := by
  cases c <;> simp [all]

theorem Condition.ext_flags {c d : Condition} (hs : c.sourceOff = d.sourceOff)
    (hm : c.modulatorOff = d.modulatorOff) : c = d := by
  revert hs hm
  cases c <;> cases d <;> simp [sourceOff, modulatorOff]

/-- The signal is known to be off at a shot: whole periods away from the offset, as far as words tell. -/
def Signal.OffAt (s : Signal) (shot : Int) : Prop :=
  0 < s.period ∧ s.period ∣ Arithmetic.words.signed (shot - s.offset)

/-- Words tell how far a shot is from the offset if they hold it. -/
theorem Signal.offAt_of_isInt64 {s : Signal} {shot : Int} (h : Text.isInt64 (shot - s.offset) = true) :
    s.OffAt shot ↔ 0 < s.period ∧ s.period ∣ shot - s.offset := by
  rw [OffAt, Arithmetic.signed_of_isInt64 h]

theorem Signal.isOff_iff {s : Signal} {shot : Int} : s.isOff shot = true ↔ s.OffAt shot := by
  unfold isOff OffAt
  rw [Bool.and_eq_true, decide_eq_true_eq, decide_eq_true_eq]
  exact and_congr_right fun _ => Int.dvd_iff_emod_eq_zero.symm

/-- The condition of a shot: each signal is off exactly if the splits tell it apart and it is off
at the shot. -/
structure Splits.Assigns (splits : Splits) (source modulator : Signal) (shot : Int) (c : Condition) : Prop where
  source : c.sourceOff = true ↔ splits.source = true ∧ source.OffAt shot
  modulator : c.modulatorOff = true ↔ splits.modulator = true ∧ modulator.OffAt shot

namespace Splits

variable {splits : Splits} {source modulator : Signal} {shot : Int} {c d : Condition}

theorem sourceOff_conditionOf (s m : Bool) : (splits.conditionOf s m).sourceOff = (splits.source && s) := by
  unfold conditionOf
  cases splits.source && s <;> cases splits.modulator && m <;> rfl

theorem modulatorOff_conditionOf (s m : Bool) : (splits.conditionOf s m).modulatorOff = (splits.modulator && m) := by
  unfold conditionOf
  cases splits.source && s <;> cases splits.modulator && m <;> rfl

theorem assigns_conditionOf :
    splits.Assigns source modulator shot (splits.conditionOf (source.isOff shot) (modulator.isOff shot)) := by
  constructor
  · rw [sourceOff_conditionOf, Bool.and_eq_true, Signal.isOff_iff]
  · rw [modulatorOff_conditionOf, Bool.and_eq_true, Signal.isOff_iff]

/-- For a shot whose distances from both offsets are held in words, whole periods away from them. -/
theorem assigns_of_isInt64 (hs : Text.isInt64 (shot - source.offset) = true)
    (hm : Text.isInt64 (shot - modulator.offset) = true) : splits.Assigns source modulator shot c ↔
      (c.sourceOff = true ↔ splits.source = true ∧ 0 < source.period ∧ source.period ∣ shot - source.offset) ∧
      (c.modulatorOff = true ↔ splits.modulator = true ∧ 0 < modulator.period ∧
        modulator.period ∣ shot - modulator.offset) := by
  rw [← Signal.offAt_of_isInt64 hs, ← Signal.offAt_of_isInt64 hm]
  exact ⟨fun h => ⟨h.source, h.modulator⟩, fun h => ⟨h.1, h.2⟩⟩

/-- No shot has two conditions. -/
theorem Assigns.unique (hc : splits.Assigns source modulator shot c)
    (hd : splits.Assigns source modulator shot d) : c = d :=
  Condition.ext_flags (Bool.eq_iff_iff.2 (hc.source.trans hd.source.symm))
    (Bool.eq_iff_iff.2 (hc.modulator.trans hd.modulator.symm))

/-- Every shot has the condition that is computed for it, and no other. -/
theorem conditionOf_eq_iff :
    splits.conditionOf (source.isOff shot) (modulator.isOff shot) = c ↔ splits.Assigns source modulator shot c := by
  constructor
  · rintro rfl
    exact assigns_conditionOf
  · exact assigns_conditionOf.unique

end Splits

/-! ## The shots of a file -/

/-- The places, in increasing order, of the shots that are selected and have a condition. -/
structure Picks (splits : Splits) (source modulator : Signal) (shots : List Int) (mask : List Bool) (c : Condition)
    (picked : List Nat) : Prop where
  increasing : picked.Pairwise (· < ·)
  mem : ∀ i, i ∈ picked ↔ ∃ shot, shots[i]? = some shot ∧ mask[i]? = some true ∧ splits.Assigns source modulator shot c

theorem mem_placesSet {flags : List Bool} {i : Nat} : i ∈ placesSet flags ↔ flags[i]? = some true := by
  simp only [placesSet, List.mem_filter, List.mem_range, beq_iff_eq, and_iff_right_iff_imp]
  exact fun h => (List.getElem?_eq_some_iff.1 h).1

theorem placesSet_increasing (flags : List Bool) : (placesSet flags).Pairwise (· < ·) :=
  List.pairwise_lt_range.filter _

section

variable {splits : Splits} {source modulator : Signal} {shots : List Int} {mask : List Bool}

/-- The mask of a condition together with that of a rule selects the shots that have both. -/
theorem picks_placesSet (c : Condition) : Picks splits source modulator shots mask c
    (placesSet (((ShotFlags.classify source modulator shots).maskOf splits c).zipWith (· && ·) mask)) := by
  refine ⟨placesSet_increasing _, fun i => ?_⟩
  rw [mem_placesSet]
  simp only [ShotFlags.maskOf, ShotFlags.conditions, ShotFlags.classify, List.getElem?_zipWith, List.getElem?_map]
  cases hshot : shots[i]? with
  | none => simp
  | some shot =>
    cases hmask : mask[i]? with
    | none => simp
    | some flag =>
      simp [← Splits.conditionOf_eq_iff, and_comm]

/-- Over the conditions the selected shots are divided: none is lost, and none is there twice. -/
theorem Picks.partition {picked : Condition → List Nat} (hlen : mask.length = shots.length)
    (h : ∀ c, Picks splits source modulator shots mask c (picked c)) :
    (Condition.all.flatMap picked).Perm (placesSet mask) := by
  have hnodup : (Condition.all.flatMap picked).Nodup := by
    rw [List.nodup_flatMap]
    refine ⟨fun c _ => (h c).increasing.imp fun hlt => Nat.ne_of_lt hlt, ?_⟩
    have hall : Condition.all.Nodup := by decide
    refine hall.imp fun {c d} hne i hc hd => hne ?_
    obtain ⟨shot, hshot, -, hassigns⟩ := ((h c).mem i).1 hc
    obtain ⟨shot', hshot', -, hassigns'⟩ := ((h d).mem i).1 hd
    obtain rfl : shot = shot' := Option.some.inj (hshot.symm.trans hshot')
    exact hassigns.unique hassigns'
  rw [List.perm_ext_iff_of_nodup hnodup ((placesSet_increasing mask).imp fun hlt => Nat.ne_of_lt hlt)]
  intro i
  rw [mem_placesSet, List.mem_flatMap]
  constructor
  · rintro ⟨c, -, hi⟩
    obtain ⟨-, -, hmask, -⟩ := ((h c).mem i).1 hi
    exact hmask
  · intro hmask
    have hi : i < shots.length := hlen ▸ (List.getElem?_eq_some_iff.1 hmask).1
    exact ⟨_, Condition.mem_all _,
      ((h _).mem i).2 ⟨shots[i], List.getElem?_eq_getElem hi, hmask, Splits.assigns_conditionOf⟩⟩

end

/-! ## Places on the condition axis -/

/-- The entry of a condition and a rule, or what else the second axis counts, in row-major order. -/
def entryAt {β : Type} (bucketShape : List Nat) (entries : List β) (c : Condition) (j : Nat) : Option β :=
  entries[c.index * volume bucketShape.tail + j]?

/-- With an entry for each condition and item, conditions first, every entry is at its place. -/
theorem entryAt_flatMap_all {β γ : Type} (f : Condition → β → γ) (l : List β) (c : Condition) {j : Nat}
    (hj : j < l.length) :
    entryAt [Condition.all.length, l.length] (Condition.all.flatMap fun c => l.map (f c)) c j = l[j]?.map (f c) := by
  have hstride : volume [Condition.all.length, l.length].tail = l.length := Nat.mul_one _
  rw [entryAt, hstride]
  cases c <;> simp [Condition.all, Condition.index, List.getElem?_append] <;> grind

end ShotTally
