/-
A file sorted with slices. Its buckets have the rows of the file sorted without them, each sliced on its
own, as long as there are elements for the whole array: rows that no bucket selects are sliced too.
-/
import ShotTally.Proofs.Bucket.Places
import ShotTally.Proofs.Slice.Entries

namespace ShotTally

open Tensor

variable {α β : Type}

/-! ## Arrays with rows in front -/

namespace Tensor

variable {inner : List Nat} {rows sliced : List (List α)} {t : Tensor α}

theorem takeExactly_append {width : Nat} {data first rest : List α} (more : List α)
    (h : takeExactly width data = .ok (first, rest)) :
    takeExactly width (data ++ more) = .ok (first, rest ++ more) := by
  obtain ⟨rfl, hlen⟩ := takeExactly_eq_ok.1 h
  exact takeExactly_eq_ok.2 ⟨List.append_assoc _ _ _, hlen⟩

/-- Elements behind those that are kept make no difference. -/
theorem keepRows_append {width : Nat} (more : List α) : ∀ {flags : List Bool} {data kept : List α},
    flags.length * width ≤ data.length → keepRows width flags data = .ok kept →
    keepRows width flags (data ++ more) = .ok kept
  | [], _, _, _, h => h
  | true :: flags, data, kept, hlen, h => by
    rw [List.length_cons, Nat.succ_mul] at hlen
    obtain ⟨⟨first, rest⟩, hfirst, hkept⟩ := bind_eq_ok.1 h
    obtain ⟨others, hothers, hkept⟩ := bind_eq_ok.1 hkept
    obtain ⟨rfl, hwidth⟩ := takeExactly_eq_ok.1 hfirst
    rw [List.length_append] at hlen
    refine bind_eq_ok.2 ⟨_, takeExactly_append more hfirst,
      bind_eq_ok.2 ⟨others, keepRows_append more ?_ hothers, hkept⟩⟩
    omega
  | false :: flags, data, kept, hlen, h => by
    rw [List.length_cons, Nat.succ_mul] at hlen
    unfold keepRows at h ⊢
    rw [List.drop_append_of_le_length (by omega)]
    exact keepRows_append more (by rw [List.length_drop]; omega) h

/-- An array with enough elements for its shape has rows. -/
theorem exists_hasRows {n : Nat} (h : volume t.shape ≤ t.data.length) (hshape : t.shape = n :: inner) :
    ∃ rows, t.HasRows inner rows := by
  rw [hshape, volume_cons] at h
  obtain ⟨rows, rfl, hfit, hdata⟩ := exists_flatten (List.length_take_of_le h)
  exact ⟨rows, hshape, hfit, hdata ▸ List.take_prefix _ _⟩

namespace HasRows

theorem map (f : α → β) (h : t.HasRows inner rows) : (t.map f).HasRows inner (rows.map (List.map f)) where
  shape := by rw [List.length_map]; exact h.shape
  fits := h.fits.map f
  data := by rw [← List.map_flatten]; exact h.data.map f

/-- Selecting among the rows. -/
theorem selectRows (h : t.HasRows inner rows) {flags : List Bool} (hlen : flags.length = rows.length) :
    t.selectRows flags = .ok (ofRows inner (chosen flags rows)) := by
  obtain ⟨shape, data⟩ := t
  obtain rfl : shape = rows.length :: inner := h.shape
  obtain ⟨more, rfl⟩ := h.data
  have hwidth : flags.length * volume inner ≤ rows.flatten.length :=
    Nat.le_of_eq (by rw [hlen, h.fits.length_flatten])
  have hkept := keepRows_append more hwidth (h.fits.keepRows_flatten hlen)
  unfold Tensor.selectRows
  rw [if_neg (by simpa [rowCount] using hlen)]
  exact bind_eq_ok.2 ⟨_, hkept, by rw [ofRows, length_chosen hlen]; rfl⟩

/-- Slicing an array slices its rows. -/
theorem apply {s : Slices} (h : t.HasRows inner rows) (hle : s.axes.length ≤ inner.length) (hlands : s.Lands inner)
    (hsize : t.data.length < Text.nat64End) (hs : List.Forall₂ (s.Cuts inner) rows sliced) :
    ∃ u, s.apply t = .ok u ∧ u.HasRows (s.shapeOf inner) sliced := by
  by_cases hempty : s.axes = []
  · obtain rfl : rows = sliced := by
      rw [← List.forall₂_eq_eq_eq]
      exact hs.imp fun row out hcut => (Slices.cuts_self hempty hcut.length).takenAt.unique hcut.takenAt
    exact ⟨t, Slices.apply_of_isEmpty hempty t, by rwa [Slices.shapeOf_of_isEmpty hempty]⟩
  · have hpicks := hs.imp fun _ _ hcut => hcut.picked
    exact ⟨_, Slices.apply_of_hasRows hempty hle hlands h hsize hpicks, (Slices.fits_of_cuts hs).2.hasRows⟩

end HasRows
end Tensor

/-! ## Files -/

namespace ReadingPlan

/-- What a quantity is brought into has rows, and the elements of the quantity, if that has at least as many elements
as its shape calls for. -/
theorem hasRows_of_arrange {array layout : Tensor α} {shots : Nat} {perShot : Bool} (h : array.Readable)
    (harrange : arrange array shots = .ok (layout, perShot)) :
    layout.data = array.data ∧ ∃ inner rows, layout.HasRows inner rows := by
  -- every layout is the data in another shape, with the rows on its first axis
  have hreshape : ∀ {n : Nat} {inner : List Nat} {p : Bool}, (do return (← array.reshape (n :: inner), p) : Outcome _) =
      .ok (layout, perShot) → layout.data = array.data ∧ ∃ inner rows, layout.HasRows inner rows := by
    intro n inner p hr
    obtain ⟨u, hu, hr⟩ := bind_eq_ok.1 hr
    cases hr
    unfold reshape at hu
    split at hu
    · rename_i hvolume
      cases hu
      exact ⟨rfl, inner, exists_hasRows (Nat.le_of_eq hvolume) rfl⟩
    · cases hu
  unfold arrange at harrange
  split at harrange
  · exact hreshape harrange
  · split at harrange <;> exact hreshape harrange
  · rename_i n inner _ hshape
    split at harrange
    · cases harrange
      exact ⟨rfl, inner, exists_hasRows (readable_iff.1 h) hshape⟩
    · exact hreshape harrange

section

variable {rules : List (Option String)} {conditionMask : Condition → List Bool} {ruleMask : Option String → List Bool}
  {inner : List Nat} {samples : List (List α)} {data : Tensor α} {rows : List (Tensor α)}

/-- Buckets were selected by as many flags as the array has rows. -/
theorem length_flags_of_bucketRows (hdata : data.HasRows inner samples)
    (h : bucketRows ⟨Condition.all.map conditionMask, rules.map ruleMask⟩ data = .ok rows) :
    ∀ p ∈ places rules, ((conditionMask p.1).zipWith (· && ·) (ruleMask p.2)).length = samples.length := by
  rw [bucketRows_places] at h
  have : Nonempty (Tensor α) := ⟨⟨[], []⟩⟩
  obtain ⟨bucket, -, hbucket, -⟩ := exists_mapM_values h
  intro p hp
  rw [length_of_selectRows (hbucket p hp), rowCount, hdata.shape, List.headD_cons]

/-- With as many flags as rows a bucket has the rows with a flag. -/
theorem bucketRows_of_hasRows (hdata : data.HasRows inner samples)
    (hflags : ∀ p ∈ places rules, ((conditionMask p.1).zipWith (· && ·) (ruleMask p.2)).length = samples.length) :
    bucketRows ⟨Condition.all.map conditionMask, rules.map ruleMask⟩ data = .ok ((places rules).map fun p =>
      ofRows inner (chosen ((conditionMask p.1).zipWith (· && ·) (ruleMask p.2)) samples)) := by
  rw [bucketRows_places]
  exact mapM_ok_of_mem fun p hp => hdata.selectRows (hflags p hp)

end

variable [Scalar α] {plan : ReadingPlan} {file : ShotFile} {name : String} {q : Query} {preds : List Rule.Predicate}

/-- A file that is sorted without slices is sorted with them, if there is an axis for each that it stays on, and every
row is sliced in the bucket it is in. -/
theorem sorted_sliced (hpreds : Rule.Predicate.compileAll q.rules = .ok preds) {b : FileBuckets α}
    (hread : ∀ array, file.dataset? (plan.aliases.resolve q.quantity) = some (.numeric array) →
      array.Readable ∧ array.data.length < Text.nat64End)
    (h : plan.sorted file name { q with slices := .none } preds = .ok (some b)) :
    ∃ inner table, b.ByPlace q.rules inner table ∧ ∀ s : Slices, s.axes.length ≤ inner.length → s.Lands inner →
      ∃ b' table',
      plan.sorted file name { q with slices := s } preds = .ok (some b') ∧ b'.ByPlace q.rules (s.shapeOf inner) table' ∧
      ∀ p ∈ places q.rules, List.Forall₂ (s.Cuts inner) (table p) (table' p) := by
  obtain ⟨hlen, shots, hshots, ⟨-, hb⟩ | ⟨array, layout, data, perShot, selections, rows, hs, hb⟩⟩ := sorted_eq_ok.1 h
  · cases hb
  cases hb
  obtain rfl : layout = data := Except.ok.inj hs.sliced
  obtain ⟨hreadable, hsize⟩ := hread array hs.quantity
  obtain ⟨hdata, inner, samples, hrows⟩ := hasRows_of_arrange hreadable hs.arranged
  obtain ⟨conditionMask, ruleMask, rfl, hselected⟩ := exists_selections hpreds hpreds (List.Subset.refl _) hs.selected
  have hflags := length_flags_of_bucketRows (hrows.map _) hs.bucketed
  rw [List.length_map] at hflags
  -- a bucket has the rows with a flag, whatever rows there are for the shots
  have hplaced : ∀ {inner : List Nat} {data : Tensor Double} {rows : List (List Double)} (slices : Slices),
      data.HasRows inner rows → rows.length = samples.length → slices.apply layout = .ok data → ∃ b' : FileBuckets α,
        plan.sorted file name { q with slices := slices } preds = .ok (some b') ∧ b'.ByPlace q.rules inner fun p =>
          chosen ((conditionMask p.1).zipWith (· && ·) (ruleMask p.2)) (rows.map (List.map Scalar.ofDouble)) := by
    intro inner data rows slices hdata hcount happly
    have hbuckets := bucketRows_of_hasRows (hdata.map (Scalar.ofDouble : Double → α)) fun p hp => by
      rw [hflags p hp, List.length_map, hcount]
    refine ⟨_, sorted_eq_ok.2 ⟨hlen, shots, hshots, .inr ⟨array, layout, data, perShot, _, _,
      ⟨hs.indices, hs.quantity, hs.arranged, happly, hselected, hbuckets⟩, rfl⟩⟩, ?_⟩
    exact FileBuckets.byPlace_of_rows fun p _ => ⟨(hdata.fits.map _).chosen _, rfl⟩
  obtain ⟨b', hb', hplace⟩ := hplaced .none hrows rfl rfl
  obtain rfl := Option.some.inj (Except.ok.inj (h.symm.trans hb'))
  refine ⟨inner, _, hplace, fun s hle hlands => ?_⟩
  obtain ⟨sliced, hcuts⟩ := hlands.exists_cuts hrows.fits
  obtain ⟨data, happly, hsliced⟩ := hrows.apply hle hlands (hdata ▸ hsize) hcuts
  obtain ⟨b', hb', hplace'⟩ := hplaced s hsliced hcuts.length_eq.symm happly
  refine ⟨b', _, hb', hplace', fun p hp => Slices.cuts_chosen ?_ _⟩
  rw [List.forall₂_map_left_iff, List.forall₂_map_right_iff]
  exact hcuts.imp fun _ _ hcut => hcut.map _

/-- A file that lacks the quantity lacks it with any slices. -/
theorem sorted_none_sliced {slices slices' : Slices}
    (h : plan.sorted file name { q with slices := slices } preds = .ok (none : Option (FileBuckets α))) :
    plan.sorted file name { q with slices := slices' } preds = .ok (none : Option (FileBuckets α)) := by
  rw [sorted_eq_ok] at h ⊢
  obtain ⟨hlen, shots, hshots, ⟨hnone, -⟩ | ⟨_, _, _, _, _, _, -, hb⟩⟩ := h
  · exact ⟨hlen, shots, hshots, .inl ⟨hnone, rfl⟩⟩
  · cases hb

end ReadingPlan
end ShotTally
