/-
What the digest of a report tells apart. The text that is digested says the query, the names of the runs, the
shapes of their data, the finite ones of their numbers and whether they are combined, and nothing else: numbers
that are not finite are all written alike, and what was read and kept on the way is not written at all.
-/
import ShotTally.Proofs.Cache.Key
import ShotTally.Proofs.Number.Finiteness
import ShotTally.Proofs.Run.Grouping
import ShotTally.Run.Report

namespace ShotTally

/-! ## Numbers in a record -/

namespace Json

/-- A number in canonical form. -/
def number (x : Double) : Json := if x.isFinite then .float x else .null

theorem number_eq_iff {x y : Double} : number x = number y ↔ x.Alike y := by
  unfold number
  constructor
  · intro h
    split at h <;> split at h
    · exact .inl (Json.float.inj h)
    · cases h
    · cases h
    · exact .inr ⟨Bool.eq_false_iff.2 ‹_›, Bool.eq_false_iff.2 ‹_›⟩
  · rintro (rfl | ⟨hx, hy⟩)
    · rfl
    · rw [hx, hy, if_neg Bool.false_ne_true, if_neg Bool.false_ne_true]

theorem exact_number (x : Double) : (number x).Exact := by
  unfold number
  split
  · assumption
  · trivial

theorem canonical_floats (l : List Double) : (floats l).canonical = .list (l.map number) :=
  Cache.canonical_list_map (fun _ => rfl) l

/-- Lists are written alike when their items are. -/
theorem map_eq_iff {α : Type} {f : α → Json} {R : α → α → Prop} (h : ∀ {a b}, f a = f b ↔ R a b) {l l' : List α} :
    l.map f = l'.map f ↔ List.Forall₂ R l l' := by
  rw [← List.forall₂_eq_eq_eq, List.forall₂_map_left_iff, List.forall₂_map_right_iff]
  exact ⟨fun hl => hl.imp fun _ _ => h.1, fun hl => hl.imp fun _ _ => h.2⟩

end Json

open Json (number)

/-! ## The canonical form of a report -/

namespace AverageEntry

/-- The essence of an entry in order of the names. -/
def ordered (e : AverageEntry) : Json :=
  .object [("average", .list (e.average.map number)), ("data_shape", .nats e.dataShape), ("name", .text e.name),
    ("weights", .list (e.weights.map number))]

theorem canonical_essence (e : AverageEntry) : (Json.object e.essence).canonical = e.ordered := by
  have hshape : (Json.nats e.dataShape).canonical = .nats e.dataShape := Cache.canonical_list_map (fun _ => rfl) _
  simp only [essence, Json.canonical, Json.canonicalMembers, Json.canonical_floats, hshape, List.foldl_cons,
    List.foldl_nil]
  rfl

theorem exact_ordered (e : AverageEntry) : e.ordered.Exact := by
  have hnat : ∀ n : Nat, (Json.nat n).Exact := fun _ => trivial
  exact ⟨Cache.exact_list_map Json.exact_number _, Cache.exact_list_map hnat _, trivial,
    Cache.exact_list_map Json.exact_number _, trivial⟩

/-- Entries of one name and shape whose numbers are alike. -/
structure Alike (e f : AverageEntry) : Prop where
  name : e.name = f.name
  dataShape : e.dataShape = f.dataShape
  weights : List.Forall₂ Double.Alike e.weights f.weights
  average : List.Forall₂ Double.Alike e.average f.average

theorem ordered_eq_iff {e f : AverageEntry} : e.ordered = f.ordered ↔ e.Alike f := by
  have hnats : ∀ l m : List Nat, Json.nats l = Json.nats m ↔ l = m := by
    refine fun l m => ⟨fun h => List.map_injective_iff.2 (fun _ _ hn => ?_) (Json.list.inj h), congrArg _⟩
    exact Int.ofNat.inj (Json.int.inj hn)
  simp only [ordered, Json.object.injEq, List.cons.injEq, Prod.mk.injEq, true_and, and_true, Json.list.injEq,
    Json.text.injEq, Json.map_eq_iff Json.number_eq_iff, hnats]
  exact ⟨fun ⟨ha, hd, hn, hw⟩ => ⟨hn, hd, hw, ha⟩, fun h => ⟨h.average, h.dataShape, h.name, h.weights⟩⟩

/-- The entries of two averages are alike when the names are equal and the averages are written alike. -/
theorem alike_make {name name' : String} {a a' : WeightedAverage Double} {cache cache' : CacheInfo} :
    (make name a cache).Alike (make name' a' cache') ↔ name = name' ∧ a.WrittenLike a' :=
  ⟨fun h => ⟨h.name, h.dataShape, h.weights, h.average⟩, fun h => ⟨h.1, h.2.dataShape, h.2.weights, h.2.average⟩⟩

end AverageEntry

namespace AverageReport

/-- The query in order of the names of its parts. -/
def orderedQuery (q : Query) : Json :=
  .object [("quantity", .text q.quantity), ("rules", Cache.rulesRecord q.rules),
    ("slice", .list (q.slices.axes.map Cache.orderedSlice)),
    ("splits", .object [("modulator", .bool q.splits.modulator), ("source", .bool q.splits.source)])]

theorem canonical_queryRecord (q : Query) : (queryRecord q).canonical = orderedQuery q := by
  simp only [queryRecord, Json.canonical, Json.canonicalMembers, Cache.canonical_rulesRecord,
    Cache.canonical_slicesRecord,
    Cache.canonical_splitsRecord, List.foldl_cons, List.foldl_nil]
  rfl

theorem exact_orderedQuery (q : Query) : (orderedQuery q).Exact :=
  ⟨trivial, Cache.exact_rulesRecord _, Cache.exact_list_map Cache.exact_orderedSlice _,
    ⟨trivial, trivial, trivial⟩, trivial⟩

theorem orderedQuery_injective {q q' : Query} (h : orderedQuery q = orderedQuery q') : q = q' := by
  obtain ⟨quantity, rules, ⟨source, modulator⟩, ⟨axes⟩⟩ := q
  obtain ⟨quantity', rules', ⟨source', modulator'⟩, ⟨axes'⟩⟩ := q'
  simp only [orderedQuery, Json.object.injEq, List.cons.injEq, Prod.mk.injEq, true_and, and_true, Json.text.injEq,
    Json.bool.injEq, Json.list.injEq] at h
  obtain ⟨rfl, hrules, hslices, rfl, rfl⟩ := h
  rw [Cache.rulesRecord_injective hrules,
    List.map_injective_iff.2 (fun _ _ h => Cache.orderedSlice_injective h) hslices]

/-- What is digested of a report, in order of the names. -/
def ordered (r : AverageReport) : Json :=
  .object [("combined", .option AverageEntry.ordered r.combined), ("query", orderedQuery r.query),
    ("runs", .list (r.runs.map AverageEntry.ordered))]

theorem canonical_hashed (r : AverageReport) : r.hashed.canonical = r.ordered := by
  have hcombined : (Json.option (fun e : AverageEntry => .object e.essence) r.combined).canonical =
      .option AverageEntry.ordered r.combined := by
    cases r.combined with
    | none => rfl
    | some e => exact e.canonical_essence
  have hruns := Cache.canonicalItems_map AverageEntry.canonical_essence r.runs
  simp only [hashed, Json.canonical, Json.canonicalMembers, hcombined, hruns, canonical_queryRecord, List.foldl_cons,
    List.foldl_nil]
  rfl

theorem exact_ordered (r : AverageReport) : r.ordered.Exact :=
  ⟨Cache.exact_option AverageEntry.exact_ordered _, exact_orderedQuery _,
    Cache.exact_list_map AverageEntry.exact_ordered _, trivial⟩

theorem ordered_eq_iff {r r' : AverageReport} : r.ordered = r'.ordered ↔
    r.query = r'.query ∧ List.Forall₂ AverageEntry.Alike r.runs r'.runs ∧
      Option.Rel AverageEntry.Alike r.combined r'.combined := by
  have hcombined : ∀ o o' : Option AverageEntry,
      Json.option AverageEntry.ordered o = Json.option AverageEntry.ordered o' ↔
      Option.Rel AverageEntry.Alike o o' := by
    rintro (_ | e) (_ | e')
    · exact ⟨fun _ => .none, fun _ => rfl⟩
    · exact ⟨fun h => Json.noConfusion h, fun h => by cases h⟩
    · exact ⟨fun h => Json.noConfusion h, fun h => by cases h⟩
    · exact AverageEntry.ordered_eq_iff.trans ⟨.some, fun | .some h => h⟩
  have hquery : orderedQuery r.query = orderedQuery r'.query ↔ r.query = r'.query :=
    ⟨orderedQuery_injective, congrArg _⟩
  simp only [ordered, Json.object.injEq, List.cons.injEq, Prod.mk.injEq, true_and, and_true, Json.list.injEq, hquery,
    Json.map_eq_iff AverageEntry.ordered_eq_iff, hcombined]
  exact ⟨fun ⟨hc, hq, hr⟩ => ⟨hq, hr, hc⟩, fun ⟨hq, hr, hc⟩ => ⟨hc, hq, hr⟩⟩

/-- Two reports have one text when their queries are equal and their entries alike. -/
theorem hashedText_eq_iff_alike {r r' : AverageReport} : r.hashedText = r'.hashedText ↔
    r.query = r'.query ∧ List.Forall₂ AverageEntry.Alike r.runs r'.runs ∧
      Option.Rel AverageEntry.Alike r.combined r'.combined := by
  rw [← ordered_eq_iff, hashedText, hashedText, Json.canonicalText, Json.canonicalText, canonical_hashed,
    canonical_hashed]
  exact ⟨fun h => Json.compact_injective r.exact_ordered r'.exact_ordered (String.ofList_injective h),
    fun h => by rw [h]⟩

/-! ## Reports of sets -/

variable {q q' : Query} {res res' : RunSetAverage Double} {combine combine' : Bool} {r r' : AverageReport}

/-- The entries of the runs and, when it is asked for, the entry of their combination. -/
structure Reports (r : AverageReport) (q : Query) (res : RunSetAverage Double) (combine : Bool) : Prop where
  query : r.query = q
  runs : r.runs = (res.runs.zip res.cache).map fun x => .make x.1.1 x.1.2 x.2
  combined : combine = false ∧ r.combined = none ∨
    combine = true ∧ ∃ v, res.combined = .ok v ∧ r.combined = some (.make "combined" v ⟨[], []⟩)

theorem reports_of_build (h : build q res combine = .ok r) : r.Reports q res combine := by
  unfold build at h
  cases combine with
  | false =>
    cases h
    exact ⟨rfl, rfl, .inl ⟨rfl, rfl⟩⟩
  | true =>
    obtain ⟨v, hv, h⟩ := bind_eq_ok.1 h
    cases h
    exact ⟨rfl, rfl, .inr ⟨rfl, v, hv, rfl⟩⟩

/-- Runs of one name whose averages are alike. -/
def SameRuns (runs runs' : List (String × WeightedAverage Double)) : Prop :=
  List.Forall₂ (fun x y => x.1 = y.1 ∧ x.2.WrittenLike y.2) runs runs'

/-- The entries of the runs are alike when the runs are, whatever was read and kept. -/
theorem alike_runs {runs runs' : List (String × WeightedAverage Double)} {cache cache' : List CacheInfo}
    (hc : runs.length ≤ cache.length) (hc' : runs'.length ≤ cache'.length) :
    List.Forall₂ AverageEntry.Alike ((runs.zip cache).map fun x => .make x.1.1 x.1.2 x.2)
      ((runs'.zip cache').map fun x => .make x.1.1 x.1.2 x.2) ↔ SameRuns runs runs' := by
  have hleft := List.map_fst_zip hc
  have hright := List.map_fst_zip hc'
  rw [SameRuns]
  conv_rhs => rw [← hleft, ← hright]
  rw [List.forall₂_map_left_iff, List.forall₂_map_right_iff, List.forall₂_map_left_iff, List.forall₂_map_right_iff]
  exact ⟨fun h => h.imp fun _ _ => AverageEntry.alike_make.1, fun h => h.imp fun _ _ => AverageEntry.alike_make.2⟩

/-- Runs that are alike are combined to averages that are alike. -/
theorem alike_combined (hruns : SameRuns res.runs res'.runs) {v v' : WeightedAverage Double} (h : res.combined = .ok v)
    (h' : res'.combined = .ok v') : v.WrittenLike v' := by
  have haverages : List.Forall₂ WeightedAverage.WrittenLike (res.runs.map (·.2)) (res'.runs.map (·.2)) :=
    List.forall₂_map_left_iff.2 (List.forall₂_map_right_iff.2 (hruns.imp fun _ _ => And.right))
  cases WeightedAverage.writtenLike_of_fold haverages (RunSetAverage.combined_eq_ok.1 h)
    (RunSetAverage.combined_eq_ok.1 h') with
  | some hv => exact hv

/-- Whether there is a combined entry shows whether it was asked for, and what it says follows from the runs. -/
theorem combined_alike_iff (h : r.Reports q res combine) (h' : r'.Reports q' res' combine')
    (hruns : SameRuns res.runs res'.runs) :
    Option.Rel AverageEntry.Alike r.combined r'.combined ↔ combine = combine' := by
  rcases h.combined with ⟨rfl, hnone⟩ | ⟨rfl, v, hv, hsome⟩ <;>
    rcases h'.combined with ⟨rfl, hnone'⟩ | ⟨rfl, v', hv', hsome'⟩
  · rw [hnone, hnone']
    exact ⟨fun _ => rfl, fun _ => .none⟩
  · rw [hnone, hsome']
    exact iff_of_false nofun nofun
  · rw [hsome, hnone']
    exact iff_of_false nofun nofun
  · rw [hsome, hsome']
    exact ⟨fun _ => rfl, fun _ => .some (AverageEntry.alike_make.2 ⟨rfl, alike_combined hruns hv hv'⟩)⟩

/-- Two reports have one digested text just when their queries are the same, the names of their runs, the shapes of
their data and their numbers are the same, where all numbers that are not finite count as one, and both or neither
combine the runs. -/
theorem hashedText_eq_iff (hc : res.runs.length ≤ res.cache.length) (hc' : res'.runs.length ≤ res'.cache.length)
    (h : build q res combine = .ok r) (h' : build q' res' combine' = .ok r') :
    r.hashedText = r'.hashedText ↔ q = q' ∧ combine = combine' ∧ SameRuns res.runs res'.runs := by
  have hr := reports_of_build h
  have hr' := reports_of_build h'
  rw [hashedText_eq_iff_alike, hr.query, hr'.query, hr.runs, hr'.runs, alike_runs hc hc']
  constructor
  · rintro ⟨hq, hruns, hcombined⟩
    exact ⟨hq, (combined_alike_iff hr hr' hruns).1 hcombined, hruns⟩
  · rintro ⟨hq, hcombine, hruns⟩
    exact ⟨hq, hruns, (combined_alike_iff hr hr' hruns).2 hcombine⟩

/-! ## One run with one number -/

/-- The average of a run is this number, and this was read and kept. -/
def ofNumber (x : Double) (cache : CacheInfo) : RunSetAverage Double :=
  ⟨[("r", ⟨[1], ⟨[1], [x]⟩, ⟨[1], [.one]⟩⟩)], [cache]⟩

/-- Nothing was read or kept. -/
def untouched : CacheInfo := ⟨[], []⟩

/-- Something was read. -/
def recalled : CacheInfo := ⟨[], [⟨"work", ["a"]⟩]⟩

/-- Recalled or computed, a number has one text. -/
theorem hashedText_ofNumber_recalled : ∃ r r' : AverageReport,
    build (.all "q") (ofNumber .one untouched) true = .ok r ∧ build (.all "q") (ofNumber .one recalled) true = .ok r' ∧
      r.runs ≠ r'.runs ∧ r.hashedText = r'.hashedText := by
  obtain ⟨r, hr, hloaded⟩ : ∃ r, build (.all "q") (ofNumber .one untouched) true = .ok r ∧
      r.runs.map (·.cacheLoaded) = [0] := by decide +kernel
  obtain ⟨r', hr', hloaded'⟩ : ∃ r, build (.all "q") (ofNumber .one recalled) true = .ok r ∧
      r.runs.map (·.cacheLoaded) = [1] := by decide +kernel
  have hsame : SameRuns (ofNumber .one untouched).runs (ofNumber .one recalled).runs :=
    .cons ⟨rfl, rfl, .cons (.refl _) .nil, .cons (.refl _) .nil⟩ .nil
  refine ⟨r, r', hr, hr', fun h => ?_, (hashedText_eq_iff (by decide) (by decide) hr hr').2 ⟨rfl, rfl, hsame⟩⟩
  rw [h, hloaded'] at hloaded
  cases hloaded

/-- Averages that are different numbers, and neither of them NaN, have one text. -/
theorem hashedText_ofNumber_infinity : ∃ (x y : Double) (r r' : AverageReport),
    x ≠ y ∧ x.isNaN = false ∧ y.isNaN = false ∧ build (.all "q") (ofNumber x untouched) false = .ok r ∧
      build (.all "q") (ofNumber y untouched) false = .ok r' ∧ r.hashedText = r'.hashedText := by
  refine ⟨.infinity, Double.neg .infinity, _, _, by decide, by decide, by decide, rfl, rfl, ?_⟩
  decide +kernel

end AverageReport

end ShotTally
