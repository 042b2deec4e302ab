/-
The arrays of a file that was read from bytes. Reading does not compare the shape of an array with its
elements, so a file can have arrays that no operation would build. They are the arrays that stand in
the bytes: where those have as many elements as their shapes call for, so have those of the file, and
no read goes past the end of the elements.
-/
import ShotTally.Proofs.Number.Word
import ShotTally.Proofs.Shot.Bytes
import ShotTally.Proofs.Tensor.InBounds

namespace ShotTally

/-- A numeric dataset has as many elements as its shape calls for. -/
def Dataset.WellFormed : Dataset → Prop
  | .numeric array => array.WellFormed
  | .text _ => True

instance : (d : Dataset) → Decidable d.WellFormed
  | .numeric array => inferInstanceAs (Decidable array.WellFormed)
  | .text _ => inferInstanceAs (Decidable True)

namespace ShotFile

open Binary

/-- All arrays of a file have as many elements as their shapes call for. -/
def WellFormed (f : ShotFile) : Prop := ∀ e ∈ f.datasets.entries, e.2.WellFormed

instance (f : ShotFile) : Decidable f.WellFormed := inferInstanceAs (Decidable (∀ e ∈ _, _))

variable {f : ShotFile} {bytes : List UInt8}

theorem numeric?_eq_some {name : String} {t : Tensor Double} :
    f.numeric? name = some t ↔ f.dataset? name = some (.numeric t) := by
  unfold numeric?
  cases f.dataset? name with
  | none => simp
  | some d => cases d <;> simp [Dataset.numeric?]

theorem WellFormed.numeric {name : String} {t : Tensor Double} (h : f.WellFormed)
    (ht : f.dataset? name = some (.numeric t)) :
    t.WellFormed := by
  obtain ⟨l₁, l₂, hl, -⟩ := List.lookup_eq_some_iff.1 ht
  exact h (name, .numeric t) (by simp [hl])

/-- Shot numbers are words. -/
theorem isInt64_of_shotIndices {name : String} {shots : List Int} (h : f.shotIndices name = .ok shots) :
    ∀ shot ∈ shots, Text.isInt64 shot = true := by
  unfold shotIndices at h
  split at h
  · cases h
    exact List.forall_mem_map.2 fun d _ => d.isInt64_toInt64
  · cases h

/-- The arrays of a file that was read satisfy what the arrays that stand in its bytes satisfy. -/
theorem forall_numeric?_iff {entries : List (String × Dataset)} (h : Keyed.ofList entries = f.datasets)
    (P : Tensor Double → Prop) :
    (∀ name t, f.numeric? name = some t → P t) ↔
      ∀ name t, entries.reverse.lookup name = some (.numeric t) → P t := by
  have hlookup : ∀ name, f.dataset? name = entries.reverse.lookup name := by
    intro name
    unfold dataset?
    rw [← h]
    exact Keyed.get?_ofList entries name
  simp only [numeric?_eq_some, hlookup]

/-- A file that was read has well-formed arrays exactly if every array in its bytes that no later dataset
of the same name replaces has as many elements as its shape calls for. No iteration over rows, selection
of rows or gathering reads past the end exactly if it has at least as many. -/
theorem arrays_sound_iff (h : ofBytes bytes = .ok f) :
    ∃ entries, Begins bytes f.version entries ∧
      ((∀ name t, f.numeric? name = some t → t.WellFormed) ↔
        ∀ name t, entries.reverse.lookup name = some (.numeric t) → t.data.length = volume t.shape) ∧
      ((∀ name t, f.numeric? name = some t → t.Readable) ↔
        ∀ name t, entries.reverse.lookup name = some (.numeric t) → volume t.shape ≤ t.data.length) := by
  obtain ⟨-, entries, hbegins, hentries⟩ := ofBytes_eq_ok.1 h
  refine ⟨entries, hbegins, forall_numeric?_iff hentries _, ?_⟩
  rw [forall_numeric?_iff hentries]
  simp only [Tensor.readable_iff]

/-- A dataset `q` whose array is a single number. -/
def single : ShotFile := ofList [("q", .numeric ⟨[], [.one]⟩)]

/-- The bytes of that file, behind which anything may follow. -/
theorem arrays_sound_single : ∃ entries, Begins (single.toBytes ++ [255]) Version.current entries ∧
    ∀ name t, entries.reverse.lookup name = some (.numeric t) → t.data.length = volume t.shape := by
  have h : ofBytes (single.toBytes ++ [255]) = .ok single := by decide +kernel
  obtain ⟨entries, hbegins, hsound, -⟩ := arrays_sound_iff h
  refine ⟨entries, hbegins, hsound.1 fun name t ht => ?_⟩
  have hq : single.numeric? name = if name = "q" then some ⟨[], [.one]⟩ else none := by
    unfold numeric? dataset?
    rw [show single.datasets.get? name = if name = "q" then some (.numeric ⟨[], [.one]⟩) else none from
      Keyed.lookup_cons name "q" _ []]
    split <;> rfl
  rw [hq] at ht
  split at ht
  · cases ht
    rfl
  · cases ht

/-- A dataset `q` of no axes and no number. -/
def hollow : ShotFile := ofList [("q", .numeric ⟨[], []⟩)]

/-- The file is read from its bytes, though an array of no axes holds one number; going through its rows,
selecting its only row and gathering its only number all read past the end. -/
theorem ofBytes_hollow : ∃ t, ofBytes hollow.toBytes = .ok hollow ∧ hollow.numeric? "q" = some t ∧
    ¬ t.WellFormed ∧ t.rows = .error .outOfRange ∧ t.selectRows [true] = .error .outOfRange ∧
    t.gather [] = .error .outOfRange := by
  refine ⟨⟨[], []⟩, ?_⟩
  decide +kernel

end ShotFile
end ShotTally
