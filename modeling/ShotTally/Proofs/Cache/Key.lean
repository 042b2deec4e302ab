/-
The text a key is the digest of says everything: two texts are equal only when the operation, the
paths of the files and the whole query are. A key itself is sixty-four hexadecimal digits.
-/
import ShotTally.Cache.Key
import ShotTally.Proofs.Codec.RoundTrip
import ShotTally.Proofs.Json.Unambiguous

namespace ShotTally.Cache

/-! ## The canonical form of the material -/

theorem canonical_sliceRecord (s : AxisSlice) : (sliceRecord s).canonical =
    .object [("start", .option .int s.start), ("step", .int s.step), ("stop", .option .int s.stop)] := by
  have h : ∀ o : Option Int, (Json.option Json.int o).canonical = .option .int o := by
    intro o; cases o <;> rfl
  simp only [sliceRecord, Json.canonical, Json.canonicalMembers, h, List.foldl_cons, List.foldl_nil]
  rfl

/-- A list is brought to canonical form item by item. -/
theorem canonicalItems_map {α : Type} {f g : α → Json} (h : ∀ a, (f a).canonical = g a) (l : List α) :
    Json.canonicalItems (l.map f) = l.map g := by
  induction l with
  | nil => rfl
  | cons a l ih => rw [List.map_cons, Json.canonicalItems, h, ih, List.map_cons]

theorem canonical_list_map {α : Type} {f g : α → Json} (h : ∀ a, (f a).canonical = g a) (l : List α) :
    (Json.list (l.map f)).canonical = .list (l.map g) := by
  rw [Json.canonical, canonicalItems_map h]

/-- The members of a slice in order of their names. -/
def orderedSlice (s : AxisSlice) : Json :=
  .object [("start", .option .int s.start), ("step", .int s.step), ("stop", .option .int s.stop)]

/-- The members of the material in order of their names. -/
def orderedMaterial (operation : String) (location : Option String) (files : List String) (q : Query) : Json :=
  .object [
    ("files", .texts (filePaths location files)),
    ("operation", .text operation),
    ("quantity", .text q.quantity),
    ("rules", rulesRecord q.rules),
    ("slice", .list (q.slices.axes.map orderedSlice)),
    ("splits", .object [("modulator", .bool q.splits.modulator), ("source", .bool q.splits.source)])]

theorem canonical_rulesRecord (rules : List (Option String)) : (rulesRecord rules).canonical = rulesRecord rules :=
  canonical_list_map (fun r => by cases r <;> rfl) rules

theorem canonical_slicesRecord (s : Slices) : (slicesRecord s).canonical = .list (s.axes.map orderedSlice) :=
  canonical_list_map canonical_sliceRecord s.axes

theorem canonical_splitsRecord (s : Splits) :
    (splitsRecord s).canonical = .object [("modulator", .bool s.modulator), ("source", .bool s.source)] := by
  simp only [splitsRecord, Json.canonical, Json.canonicalMembers, List.foldl_cons, List.foldl_nil]
  rfl

theorem canonical_material (operation : String) (location : Option String) (files : List String) (q : Query) :
    (material operation location files q).canonical = orderedMaterial operation location files q := by
  have hfiles : (Json.texts (filePaths location files)).canonical = .texts (filePaths location files) :=
    canonical_list_map (fun _ => rfl) _
  simp only [material, Json.canonical, Json.canonicalMembers, hfiles, canonical_rulesRecord, canonical_slicesRecord,
    canonical_splitsRecord, List.foldl_cons, List.foldl_nil]
  rfl

/-! ## Reading it back -/

theorem exact_option {α : Type} {f : α → Json} (h : ∀ a, (f a).Exact) (o : Option α) : (Json.option f o).Exact := by
  cases o
  · trivial
  · exact h _

theorem exact_list_map {α : Type} {f : α → Json} (h : ∀ a, (f a).Exact) (l : List α) : (Json.list (l.map f)).Exact := by
  refine Json.exactItems_iff.2 fun j hj => ?_
  obtain ⟨a, -, rfl⟩ := List.mem_map.1 hj
  exact h a

theorem exact_rulesRecord (rules : List (Option String)) : (rulesRecord rules).Exact :=
  exact_list_map (exact_option (f := Json.text) fun _ => trivial) rules

theorem exact_orderedSlice (s : AxisSlice) : (orderedSlice s).Exact :=
  ⟨exact_option (f := Json.int) (fun _ => trivial) _, trivial,
    exact_option (f := Json.int) (fun _ => trivial) _, trivial⟩

theorem exact_orderedMaterial (operation : String) (location : Option String) (files : List String) (q : Query) :
    (orderedMaterial operation location files q).Exact := by
  have htext : ∀ s : String, (Json.text s).Exact := fun _ => trivial
  exact ⟨exact_list_map htext _, trivial, trivial, exact_rulesRecord _, exact_list_map exact_orderedSlice _,
    ⟨trivial, trivial, trivial⟩, trivial⟩

theorem option_injective {α : Type} {f : α → Json} (hf : ∀ a b, f a = f b → a = b) (hn : ∀ a, f a ≠ .null)
    {o o' : Option α} (h : Json.option f o = Json.option f o') : o = o' := by
  cases o <;> cases o'
  · rfl
  · exact absurd h.symm (hn _)
  · exact absurd h (hn _)
  · rw [hf _ _ h]

theorem orderedSlice_injective {s t : AxisSlice} (h : orderedSlice s = orderedSlice t) : s = t := by
  have hint : ∀ o o' : Option Int, Json.option .int o = Json.option .int o' → o = o' :=
    fun _ _ => option_injective (fun _ _ => Json.int.inj) fun _ => Json.noConfusion
  obtain ⟨start, stop, step⟩ := s
  obtain ⟨start', stop', step'⟩ := t
  simp only [orderedSlice, Json.object.injEq, List.cons.injEq, Prod.mk.injEq, true_and, and_true, Json.int.injEq] at h
  obtain ⟨h1, rfl, h2⟩ := h
  rw [hint _ _ h1, hint _ _ h2]

theorem rulesRecord_injective {rules rules' : List (Option String)} (h : rulesRecord rules = rulesRecord rules') :
    rules = rules' := by
  refine List.map_injective_iff.2 (fun _ _ hr => ?_) (Json.list.inj h)
  exact option_injective (fun _ _ => Json.text.inj) (fun _ => Json.noConfusion) hr

/-- The text of a key says the operation, the paths of the files and the query. -/
theorem material_text_inj {operation operation' : String} {location location' : Option String}
    {files files' : List String} {q q' : Query}
    (h : (material operation location files q).canonicalText =
      (material operation' location' files' q').canonicalText) :
    operation = operation' ∧ filePaths location files = filePaths location' files' ∧ q = q' := by
  unfold Json.canonicalText at h
  have hc := Json.compact_injective (by rw [canonical_material]; exact exact_orderedMaterial ..)
    (by rw [canonical_material]; exact exact_orderedMaterial ..) (String.ofList_injective h)
  rw [canonical_material, canonical_material] at hc
  obtain ⟨quantity, rules, ⟨source, modulator⟩, ⟨axes⟩⟩ := q
  obtain ⟨quantity', rules', ⟨source', modulator'⟩, ⟨axes'⟩⟩ := q'
  simp only [orderedMaterial, Json.texts, Json.object.injEq, List.cons.injEq, Prod.mk.injEq, true_and, and_true,
    Json.text.injEq, Json.bool.injEq, Json.list.injEq] at hc
  obtain ⟨hf, rfl, rfl, hr, hs, rfl, rfl⟩ := hc
  have haxes : axes = axes' := List.map_injective_iff.2 (fun _ _ h => orderedSlice_injective h) hs
  exact ⟨rfl, List.map_injective_iff.2 (fun _ _ h => Json.text.inj h) hf, by rw [rulesRecord_injective hr, haxes]⟩

end ShotTally.Cache

/-! ## Digests as text -/

namespace ShotTally.Sha256

open Text

theorem length_bigEndian : ∀ k n : Nat, (bigEndian k n).length = k
  | 0, _ => rfl
  | k + 1, n => by rw [bigEndian, List.length_append, length_bigEndian k]; rfl

theorem length_digest (message : List UInt8) : (digest message).length = 32 := by
  simp only [digest, List.length_flatMap, length_bigEndian]
  rfl

/-- The letters of a digest as text. -/
theorem hexDigit_mem {n : Nat} (h : n < 16) : hexDigit n ∈ "0123456789abcdef".toList := by
  revert n; decide

theorem hexOf_letters {c : Char} {text : String} (h : c ∈ (hexOf text).toList) : c ∈ "0123456789abcdef".toList := by
  rw [hexOf, String.toList_ofList, List.mem_flatMap] at h
  obtain ⟨b, -, h⟩ := h
  have hb := b.toNat_lt
  simp only [List.mem_cons, List.not_mem_nil, or_false] at h
  rcases h with rfl | rfl
  · exact hexDigit_mem (by omega)
  · exact hexDigit_mem (by omega)

theorem length_hexOf (text : String) : (hexOf text).toList.length = 64 := by
  rw [hexOf, String.toList_ofList]
  simp [List.length_flatMap, length_digest]

end ShotTally.Sha256
