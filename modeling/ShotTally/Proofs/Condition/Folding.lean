/-
Switching off splits. A shot then has the condition it had before with the flags of those signals cleared,
so the shots of a condition are those of all conditions that become it: none is lost and none is there twice.
-/
import ShotTally.Proofs.Condition.Partition

namespace ShotTally

open Tensor

/-! ## One shot -/

theorem Condition.sourceOff_ofFlags (s m : Bool) : (ofFlags s m).sourceOff = s := by
  cases s <;> cases m <;> rfl

theorem Condition.modulatorOff_ofFlags (s m : Bool) : (ofFlags s m).modulatorOff = m := by
  cases s <;> cases m <;> rfl

/-- The condition with the flags of these signals cleared. -/
def Condition.cleared (off : Splits) (c : Condition) : Condition :=
  .ofFlags (c.sourceOff && !off.source) (c.modulatorOff && !off.modulator)

/-- The conditions that become this one. -/
def Condition.becoming (off : Splits) (c : Condition) : List Condition := all.filter fun c' => c'.cleared off = c

theorem Condition.mem_becoming {off : Splits} {c c' : Condition} : c' ∈ c.becoming off ↔ c'.cleared off = c := by
  simp [becoming, mem_all]

namespace Splits

/-- The splits that are on in the one and not in the other. -/
def without (s t : Splits) : Splits := ⟨s.source && !t.source, s.modulator && !t.modulator⟩

/-- The other splits are on as well. -/
structure Within (t s : Splits) : Prop where
  source : t.source = true → s.source = true
  modulator : t.modulator = true → s.modulator = true

/-- With fewer splits a shot has its condition cleared of those that were switched off. The phase of a modulator that
does not split makes no difference. -/
theorem cleared_conditionOf {s t : Splits} (h : t.Within s) {source modulator modulator' : Bool}
    (hm : t.modulator = true → modulator' = modulator) :
    (s.conditionOf source modulator).cleared (s.without t) = t.conditionOf source modulator' := by
  refine Condition.ext_flags ?_ ?_
  · have hs := h.source
    rw [Condition.cleared, Condition.sourceOff_ofFlags, sourceOff_conditionOf, sourceOff_conditionOf, without]
    cases hss : s.source <;> cases hts : t.source <;> simp_all
  · have hs := h.modulator
    rw [Condition.cleared, Condition.modulatorOff_ofFlags, modulatorOff_conditionOf, modulatorOff_conditionOf, without]
    cases hss : s.modulator <;> cases hts : t.modulator <;> simp_all

end Splits

/-! ## The shots of a file -/

/-- The flags of the shots that have a condition. -/
def Condition.flagsAmong (conditions : List Condition) (c : Condition) : List Bool := conditions.map (· == c)

theorem mem_placesSet_flagsAmong {conditions : List Condition} {mask : List Bool} {c : Condition} {i : Nat} :
    i ∈ placesSet ((c.flagsAmong conditions).zipWith (· && ·) mask) ↔ conditions[i]? = some c ∧
    mask[i]? = some true := by
  rw [mem_placesSet, Condition.flagsAmong, List.getElem?_zipWith, List.getElem?_map]
  cases conditions[i]? with
  | none => simp
  | some d =>
    cases mask[i]? with
    | none => simp
    | some flag => simp

/-- The selected shots of a cleared condition are those of all conditions that become it. -/
theorem placesSet_cleared_perm (conditions : List Condition) (mask : List Bool) (off : Splits) (c : Condition) :
    (placesSet ((c.flagsAmong (conditions.map (·.cleared off))).zipWith (· && ·) mask)).Perm
      ((c.becoming off).flatMap fun c' => placesSet ((c'.flagsAmong conditions).zipWith (· && ·) mask)) := by
  have hnodup : ∀ flags, (placesSet flags).Nodup := fun flags =>
    (placesSet_increasing flags).imp fun hlt => Nat.ne_of_lt hlt
  have hdisjoint : ((c.becoming off).flatMap fun c' =>
      placesSet ((c'.flagsAmong conditions).zipWith (· && ·) mask)).Nodup := by
    rw [List.nodup_flatMap]
    refine ⟨fun c' _ => hnodup _, ?_⟩
    have hall : (c.becoming off).Nodup := (by decide : Condition.all.Nodup).filter _
    -- a shot has one condition
    refine hall.imp fun {d d'} hne i hd hd' => hne ?_
    have hi := (mem_placesSet_flagsAmong.1 hd).1
    rw [(mem_placesSet_flagsAmong.1 hd').1] at hi
    exact (Option.some.inj hi).symm
  rw [List.perm_ext_iff_of_nodup (hnodup _) hdisjoint]
  intro i
  rw [mem_placesSet_flagsAmong, List.mem_flatMap, List.getElem?_map, Option.map_eq_some_iff]
  constructor
  · rintro ⟨⟨c', hi, hc⟩, hmask⟩
    exact ⟨c', Condition.mem_becoming.2 hc, mem_placesSet_flagsAmong.2 ⟨hi, hmask⟩⟩
  · rintro ⟨c', hc, hi⟩
    obtain ⟨hcondition, hmask⟩ := mem_placesSet_flagsAmong.1 hi
    exact ⟨⟨c', hcondition, Condition.mem_becoming.1 hc⟩, hmask⟩

end ShotTally
