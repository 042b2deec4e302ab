/-
Buckets by place. The buckets for a list of rules come from one function of the condition and the rule,
whatever other rules are in the list. So for some of the rules, in any order and number, a file is sorted
where it was for all of them, and into the same rows.
-/
import ShotTally.Proofs.Bucket.Contents
import ShotTally.Proofs.Statistics.Tables
import ShotTally.Run.Collect

namespace ShotTally

open Tensor

variable {α : Type}

/-! ## Places -/

/-- A bucket goes by its condition and its rule. -/
abbrev Place := Condition × Option String

/-- The places of the buckets for some rules, conditions first. -/
def places (rules : List (Option String)) : List Place := Condition.all.flatMap fun c => rules.map fun rule => (c, rule)

variable {rules rules' : List (Option String)}

theorem mem_places {p : Place} : p ∈ places rules ↔ p.2 ∈ rules := by
  obtain ⟨c, rule⟩ := p
  simp [places, Condition.mem_all]

theorem places_subset (h : rules' ⊆ rules) : places rules' ⊆ places rules :=
  fun _ hp => mem_places.2 (h (mem_places.1 hp))

theorem length_places (rules : List (Option String)) :
    (places rules).length = volume [Condition.all.length, rules.length] := by
  simp [places, volume, Condition.all]
  omega

theorem places_ne_nil (h : rules ≠ []) : places rules ≠ [] := by
  obtain ⟨rule, others, rfl⟩ := List.exists_cons_of_ne_nil h
  simp [places, Condition.all]

/-- What a function makes of the places stands at the places of the buckets. -/
theorem entryAt_places {β : Type} (f : Place → β) {c : Condition} {j : Nat} {rule : Option String}
    (h : rules[j]? = some rule) :
    entryAt [Condition.all.length, rules.length] ((places rules).map f) c j = some (f (c, rule)) := by
  have hmap : (places rules).map f = Condition.all.flatMap fun c => rules.map fun rule => f (c, rule) := by
    simp [places, List.map_flatMap, Function.comp_def]
  rw [hmap, entryAt_flatMap_all (fun c rule => f (c, rule)) rules c (List.getElem?_eq_some_iff.1 h).1, h,
    Option.map_some]

/-! ## Rows by place -/

/-- The buckets for some rules have the rows that these tables have at the places. -/
structure FileBuckets.ByPlace (b : FileBuckets α) (rules : List (Option String)) (inner : List Nat)
    (table : Place → List (List α)) : Prop where
  bucketShape : b.bucketShape = [Condition.all.length, rules.length]
  holds : b.Holds inner ((places rules).map table)

/-- Buckets made of tables at the places. -/
theorem FileBuckets.byPlace_of_rows {name : String} {inner : List Nat} {bucket : Place → Tensor α}
    {table : Place → List (List α)} (h : ∀ p ∈ places rules, Fits inner (table p) ∧ bucket p = ofRows inner (table p)) :
    (⟨name, [Condition.all.length, rules.length], (places rules).map bucket⟩ : FileBuckets α).ByPlace rules
      inner table := by
  refine ⟨rfl, ⟨?rows, ?fits, ?count⟩⟩
  case rows =>
    rw [List.map_map]
    exact List.map_congr_left fun p hp => (h p hp).2
  case fits =>
    intro t ht
    obtain ⟨p, hp, rfl⟩ := List.mem_map.1 ht
    exact (h p hp).1
  case count => rw [List.length_map, length_places]

/-- Buckets for some rules and for others that have the same rows at the same places. -/
def FileBuckets.Alike (rules rules' : List (Option String)) (b b' : FileBuckets α) : Prop :=
  ∃ inner table, b.ByPlace rules inner table ∧ b'.ByPlace rules' inner table

/-- Rows are selected by as many flags as there are rows. -/
theorem Tensor.length_of_selectRows {flags : List Bool} {t u : Tensor α} (h : t.selectRows flags = .ok u) :
    flags.length = t.rowCount := by
  unfold selectRows at h
  split at h
  · cases h
  · rename_i hcount
    exact not_not.1 hcount

/-- Rows that were selected are the rows of an array. -/
theorem Tensor.exists_of_selectRows {flags : List Bool} {t u : Tensor α} (h : t.selectRows flags = .ok u) :
    ∃ rows, Fits t.innerShape rows ∧ u = ofRows t.innerShape rows := by
  obtain ⟨-, hwf⟩ := selectRows_eq_ok h
  unfold selectRows at h
  split at h
  · cases h
  · obtain ⟨kept, -, h⟩ := bind_eq_ok.1 h
    cases h
    obtain ⟨rows, -, hfit, hrows⟩ := hwf.exists_ofRows rfl
    exact ⟨rows, hfit, hrows⟩

namespace ReadingPlan

variable {plan : ReadingPlan} {file : ShotFile} {name : String} {q : Query} {preds preds' : List Rule.Predicate}

/-- With a flag list for each condition and each rule, the rows of a bucket are selected at its place. -/
theorem bucketRows_places (conditionMask : Condition → List Bool) (ruleMask : Option String → List Bool)
    (data : Tensor α) :
    bucketRows ⟨Condition.all.map conditionMask, rules.map ruleMask⟩ data =
      (places rules).mapM fun p => data.selectRows ((conditionMask p.1).zipWith (· && ·) (ruleMask p.2)) := by
  have hflags : ((Condition.all.map conditionMask).flatMap fun c => (rules.map ruleMask).map fun r =>
    c.zipWith (· && ·) r) =
      (places rules).map fun p => (conditionMask p.1).zipWith (· && ·) (ruleMask p.2) := by
    simp [places, List.flatMap_map, List.map_flatMap, Function.comp_def]
  rw [bucketRows, hflags, List.mapM_map]
  rfl

/-- The selection of a rule does not depend on the other rules. -/
theorem exists_selections {splits : Splits} {shots : List Int} {perShot : Bool} {selections : Selections}
    (hpreds : Rule.Predicate.compileAll rules = .ok preds) (hpreds' : Rule.Predicate.compileAll rules' = .ok preds')
    (hsub : rules' ⊆ rules)
    (h : (if perShot then plan.shotSelections file splits preds shots else .ok (selectSingle preds)) = .ok selections) :
    ∃ conditionMask ruleMask, selections = ⟨Condition.all.map conditionMask, rules.map ruleMask⟩ ∧
      (if perShot then plan.shotSelections file splits preds' shots else .ok (selectSingle preds')) =
        .ok (⟨Condition.all.map conditionMask, rules'.map ruleMask⟩ : Selections) := by
  have hlen : preds.length = rules.length := (mapM_eq_ok.1 hpreds).length_eq.symm
  have hlen' : preds'.length = rules'.length := (mapM_eq_ok.1 hpreds').length_eq.symm
  cases perShot with
  | false =>
    refine ⟨fun c => [c == .sourceOnModulatorOn], fun _ => [true], ?_, ?_⟩
    · rw [← Except.ok.inj h]
      simp [selectSingle_eq, hlen]
    · simp [selectSingle_eq, hlen']
  | true =>
    obtain ⟨masks, hmasks, rfl⟩ := shotSelections_eq_ok.1 h
    -- a rule is compiled and evaluated on its own
    obtain ⟨ruleMask, rfl, -, hfewer⟩ := exists_mapM_values (mapM_mapM_eq_ok.1 ⟨preds, hpreds, mapM_eq_ok.2 hmasks⟩)
    obtain ⟨preds'', hpreds'', hmasks'⟩ := mapM_mapM_eq_ok.2 (hfewer rules' hsub)
    obtain rfl : preds' = preds'' := Except.ok.inj (hpreds'.symm.trans hpreds'')
    exact ⟨_, ruleMask, rfl, shotSelections_eq_ok.2 ⟨_, mapM_eq_ok.1 hmasks', rfl⟩⟩

variable [Scalar α]

/-- A file that is sorted for some rules is sorted for others that are among them, into the same rows. -/
theorem sorted_among (hpreds : Rule.Predicate.compileAll q.rules = .ok preds)
    (hpreds' : Rule.Predicate.compileAll rules' = .ok preds') (hsub : rules' ⊆ q.rules) {x : Option (FileBuckets α)}
    (h : plan.sorted file name q preds = .ok x) :
    ∃ x', plan.sorted file name { q with rules := rules' } preds' = .ok x' ∧
      Option.Rel (FileBuckets.Alike q.rules rules') x x' := by
  have hlen' : preds'.length = rules'.length := (mapM_eq_ok.1 hpreds').length_eq.symm
  obtain ⟨hlen, shots, hshots, ⟨hnone, rfl⟩ | ⟨array, layout, data, perShot, selections, rows, hs, rfl⟩⟩ :=
    sorted_eq_ok.1 h
  · exact ⟨none, sorted_eq_ok.2 ⟨hlen', shots, hshots, .inl ⟨hnone, rfl⟩⟩, .none⟩
  obtain ⟨conditionMask, ruleMask, rfl, hselected⟩ := exists_selections hpreds hpreds' hsub hs.selected
  have hrows := hs.bucketed
  rw [bucketRows_places] at hrows
  have : Nonempty (Tensor α) := ⟨⟨[], []⟩⟩
  obtain ⟨bucket, rfl, hbucket, hfewer⟩ := exists_mapM_values hrows
  have hrows' : bucketRows ⟨Condition.all.map conditionMask, rules'.map ruleMask⟩ (data.map Scalar.ofDouble) =
      .ok ((places rules').map bucket) := by
    rw [bucketRows_places]
    exact hfewer _ (places_subset hsub)
  refine ⟨some ⟨name, [Condition.all.length, rules'.length], (places rules').map bucket⟩,
    sorted_eq_ok.2 ⟨hlen', shots, hshots, .inr ⟨array, layout, data, perShot, _, _,
      ⟨hs.indices, hs.quantity, hs.arranged, hs.sliced, hselected, hrows'⟩, rfl⟩⟩, .some ?_⟩
  -- the selected rows as lists of rows
  have htable : ∀ p ∈ places q.rules, ∃ table, Fits data.innerShape table ∧ bucket p = ofRows data.innerShape table :=
    fun p hp => exists_of_selectRows (hbucket p hp)
  choose! table htable using htable
  exact ⟨data.innerShape, table, FileBuckets.byPlace_of_rows htable,
    FileBuckets.byPlace_of_rows fun p hp => htable p (places_subset hsub hp)⟩

/-- A file is sorted into rows by place. -/
theorem exists_byPlace_of_sorted (hpreds : Rule.Predicate.compileAll q.rules = .ok preds) {b : FileBuckets α}
    (h : plan.sorted file name q preds = .ok (some b)) : ∃ inner table, b.ByPlace q.rules inner table := by
  obtain ⟨x, -, halike⟩ := sorted_among hpreds hpreds (List.Subset.refl _) h
  cases halike with
  | some halike =>
    obtain ⟨inner, table, hb, -⟩ := halike
    exact ⟨inner, table, hb⟩

end ReadingPlan

/-! ## Putting files together -/

/-- Files with the rows of these tensors at the places are put together place by place. -/
theorem Run.joinBuckets_places {files : List (FileBuckets α)} {buckets : List (Place → Tensor α)}
    (h : List.Forall₂ (fun f bucket => f.rows = (places rules).map bucket) files buckets) (hne : files ≠ []) :
    joinBuckets files = (places rules).mapM fun p => concatRows (buckets.map fun bucket => bucket p) := by
  -- the bucket at a place, file by file
  have hat : ∀ (i : Nat) (p : Place), (places rules)[i]? = some p →
      files.filterMap (fun f => f.rows[i]?) = buckets.map fun bucket => bucket p := by
    intro i p hp
    clear hne
    induction h with
    | nil => rfl
    | @cons f bucket _ _ hf _ ih =>
      have hrow : f.rows[i]? = some (bucket p) := by
        rw [hf, List.getElem?_map, hp, Option.map_some]
      rw [List.filterMap_cons, hrow, ih, List.map_cons]
  obtain ⟨first, others, rfl⟩ := List.exists_cons_of_ne_nil hne
  have hlen : first.rows.length = (places rules).length := by
    cases h with
    | cons hfirst _ => rw [hfirst, List.length_map]
  unfold joinBuckets
  dsimp only
  rw [hlen]
  exact mapM_range fun i p hp => by rw [hat i p hp]

/-- The rows of files for some rules are put together where those for more rules were, into the same rows. -/
theorem Run.joinBuckets_among {files files' : List (FileBuckets α)}
    (h : List.Forall₂ (FileBuckets.Alike rules rules') files files') (hsub : rules' ⊆ rules) (hne : files ≠ [])
    {rows : List (Tensor α)} (hrows : joinBuckets files = .ok rows) : ∃ bucket : Place → Tensor α,
      rows = (places rules).map bucket ∧ joinBuckets files' = .ok ((places rules').map bucket) := by
  -- for each file one function from places to tensors, which serves both lists of rules
  have hbuckets : ∃ buckets : List (Place → Tensor α),
      List.Forall₂ (fun f bucket => f.rows = (places rules).map bucket) files buckets ∧
      List.Forall₂ (fun f bucket => f.rows = (places rules').map bucket) files' buckets := by
    clear hne hrows
    induction h with
    | nil => exact ⟨[], .nil, .nil⟩
    | cons halike _ ih =>
      obtain ⟨inner, table, hb, hb'⟩ := halike
      obtain ⟨buckets, hmore, hfewer⟩ := ih
      refine ⟨(fun p => ofRows inner (table p)) :: buckets, .cons ?_ hmore, .cons ?_ hfewer⟩
      · rw [hb.holds.rows, List.map_map]
        rfl
      · rw [hb'.holds.rows, List.map_map]
        rfl
  obtain ⟨buckets, hmore, hfewer⟩ := hbuckets
  have hne' : files' ≠ [] := by
    rintro rfl
    cases h
    exact hne rfl
  rw [joinBuckets_places hmore hne] at hrows
  have : Nonempty (Tensor α) := ⟨⟨[], []⟩⟩
  obtain ⟨bucket, rfl, -, hvalues⟩ := exists_mapM_values hrows
  exact ⟨bucket, rfl, by rw [joinBuckets_places hfewer hne', hvalues _ (places_subset hsub)]⟩

end ShotTally
