/-
Averages of many files against their rows put together. Folding averages, block by block or all at
once, succeeds exactly when the rows of all files have one shape, which is when the rows can be put
together, and comes to the means of what is put together.
-/
import ShotTally.Proofs.Statistics.Means
import ShotTally.Run.Collect

namespace ShotTally.Exact

open WeightedAverage

/-! ## Parts -/

/-- The rows of a file in buckets of one shape. -/
def Part (bucketShape inner : List Nat) (rows : List (Tensor ℚ)) : Prop :=
  (⟨bucketShape, rows⟩ : CollectedBuckets ℚ).Even inner

variable {bucketShape inner inner' : List Nat}

theorem Part.ne_nil (hpos : volume bucketShape ≠ 0) {rows : List (Tensor ℚ)} (h : Part bucketShape inner rows) :
    rows ≠ [] := by
  rintro rfl
  exact hpos h.count.symm

/-- The shape of the rows is that of the first bucket. -/
theorem Part.unique (hpos : volume bucketShape ≠ 0) {rows : List (Tensor ℚ)} (h : Part bucketShape inner rows)
    (h' : Part bucketShape inner' rows) : inner = inner' := by
  obtain ⟨t, rest, rfl⟩ := List.exists_cons_of_ne_nil (h.ne_nil hpos)
  exact (h.rows t (by simp)).1.symm.trans (h'.rows t (by simp)).1

/-- What some parts come to: nothing without any, else the average over rows of one shape. -/
def Comes (bucketShape : List Nat) (parts : List (List (Tensor ℚ))) (o : Option (WeightedAverage ℚ)) : Prop :=
  (parts = [] ∧ o = none) ∨ ∃ inner, parts ≠ [] ∧ (∀ rows ∈ parts, Part bucketShape inner rows) ∧
    o = some (averageOf bucketShape inner parts)

theorem comes_some {parts : List (List (Tensor ℚ))} {a : WeightedAverage ℚ} : Comes bucketShape parts (some a) ↔
    ∃ inner, parts ≠ [] ∧ (∀ rows ∈ parts, Part bucketShape inner rows) ∧ a = averageOf bucketShape inner parts := by
  unfold Comes
  simp

theorem comes_none {parts : List (List (Tensor ℚ))} : Comes bucketShape parts none ↔ parts = [] := by
  unfold Comes
  simp

/-! ## Folding -/

/-- Combining further averages succeeds when their rows have the shape of the first ones. -/
theorem foldlM_combine (hpos : volume bucketShape ≠ 0) {others : List (List (List (Tensor ℚ)))}
    {averages : List (WeightedAverage ℚ)}
    (h : List.Forall₂ (fun parts a => Comes bucketShape parts (some a)) others averages) :
    ∀ {parts : List (List (Tensor ℚ))} {v : WeightedAverage ℚ},
      averages.foldlM combine (averageOf bucketShape inner parts) = .ok v ↔
        (∀ rows ∈ others.flatten, Part bucketShape inner rows) ∧
          v = averageOf bucketShape inner (parts ++ others.flatten) := by
  induction h with
  | nil =>
    intro parts v
    simp [eq_comm]
  | @cons next a others averages hnext _ ih =>
    intro parts v
    obtain ⟨inner', hne, heven, rfl⟩ := comes_some.1 hnext
    rw [List.foldlM_cons, bind_eq_ok, List.flatten_cons]
    constructor
    · rintro ⟨m, hm, hv⟩
      obtain ⟨rfl, rfl⟩ := combine_averageOf.1 hm
      obtain ⟨hrest, rfl⟩ := ih.1 hv
      refine ⟨fun rows hr => ?_, by rw [List.append_assoc]⟩
      rcases List.mem_append.1 hr with hr | hr
      · exact heven rows hr
      · exact hrest rows hr
    · rintro ⟨hall, rfl⟩
      -- a part that comes has rows, so the inner shape is that of all others
      obtain ⟨rows, rest, rfl⟩ := List.exists_cons_of_ne_nil hne
      obtain rfl : inner = inner' := (hall rows (by simp)).unique hpos (heven rows (by simp))
      exact ⟨_, combine_averageOf.2 ⟨rfl, rfl⟩,
        ih.2 ⟨fun rows hr => hall rows (List.mem_append_right _ hr), by rw [List.append_assoc]⟩⟩

/-- Parts that come to nothing are left out. -/
theorem comes_present {blocks : List (List (List (Tensor ℚ)))} {os : List (Option (WeightedAverage ℚ))}
    (h : List.Forall₂ (Comes bucketShape) blocks os) : ∃ present, present.flatten = blocks.flatten ∧
      List.Forall₂ (fun parts a => Comes bucketShape parts (some a)) present (os.filterMap id) := by
  induction h with
  | nil => exact ⟨[], rfl, .nil⟩
  | @cons parts o blocks os hparts _ ih =>
    obtain ⟨present, hflat, hall⟩ := ih
    cases o with
    | none =>
      obtain rfl := comes_none.1 hparts
      exact ⟨present, hflat, hall⟩
    | some a => exact ⟨parts :: present, by rw [List.flatten_cons, hflat, List.flatten_cons], .cons hparts hall⟩

/-- Folding what the blocks come to is what all their parts come to. -/
theorem fold_comes (hpos : volume bucketShape ≠ 0) {blocks : List (List (List (Tensor ℚ)))}
    {os : List (Option (WeightedAverage ℚ))} (h : List.Forall₂ (Comes bucketShape) blocks os)
    {o : Option (WeightedAverage ℚ)} : fold (os.filterMap id) = .ok o ↔ Comes bucketShape blocks.flatten o := by
  obtain ⟨present, hflat, hall⟩ := comes_present h
  rw [← hflat]
  generalize os.filterMap id = averages at hall ⊢
  cases hall with
  | nil => simp [fold, Comes, eq_comm]
  | @cons parts a rest averages hparts hrest =>
    obtain ⟨inner, hne, heven, rfl⟩ := comes_some.1 hparts
    rw [fold, map_eq_ok, List.flatten_cons]
    constructor
    · rintro ⟨v, hv, rfl⟩
      obtain ⟨hrows, rfl⟩ := (foldlM_combine hpos hrest).1 hv
      refine comes_some.2 ⟨inner, by simp [hne], fun rows hr => ?_, rfl⟩
      exact (List.mem_append.1 hr).elim (heven rows) (hrows rows)
    · rintro (⟨hnil, -⟩ | ⟨inner', -, heven', rfl⟩)
      · exact absurd (List.append_eq_nil_iff.1 hnil).1 hne
      · obtain ⟨rows, more, rfl⟩ := List.exists_cons_of_ne_nil hne
        obtain rfl : inner = inner' := (heven rows (by simp)).unique hpos (heven' rows (by simp))
        exact ⟨_, (foldlM_combine hpos hrest).2 ⟨fun rows hr => heven' rows (List.mem_append_right _ hr), rfl⟩, rfl⟩

/-- When all parts together come to something, so does every block of them. -/
theorem exists_comes {blocks : List (List (List (Tensor ℚ)))} {o : Option (WeightedAverage ℚ)}
    (h : Comes bucketShape blocks.flatten o) : ∃ os, List.Forall₂ (Comes bucketShape) blocks os := by
  -- one shape for all blocks, which the induction keeps
  obtain ⟨inner, heven⟩ : ∃ inner, ∀ rows ∈ blocks.flatten, Part bucketShape inner rows := by
    rcases h with ⟨hnil, -⟩ | ⟨inner, -, heven, -⟩
    · exact ⟨[], fun rows hr => by rw [hnil] at hr; cases hr⟩
    · exact ⟨inner, heven⟩
  clear h
  induction blocks with
  | nil => exact ⟨[], .nil⟩
  | cons parts blocks ih =>
    rw [List.flatten_cons] at heven
    obtain ⟨os, hos⟩ := ih fun rows hr => heven rows (List.mem_append_right _ hr)
    rcases parts with _ | ⟨rows, parts⟩
    · exact ⟨none :: os, .cons (comes_none.2 rfl) hos⟩
    · exact ⟨_, .cons (comes_some.2 ⟨inner, List.cons_ne_nil _ _, fun rows hr => heven rows (List.mem_append_left _ hr),
        rfl⟩) hos⟩

/-! ## Putting rows together -/

/-- The rows of several tensors, one after the other. -/
def joined (inner : List Nat) (parts : List (Tensor ℚ)) : Tensor ℚ :=
  ⟨parts.foldr (fun p n => p.rowCount + n) 0 :: inner, parts.flatMap (·.data)⟩

theorem rowCount_joined (inner : List Nat) (parts : List (Tensor ℚ)) :
    (joined inner parts).rowCount = (parts.map Tensor.rowCount).sum := by
  induction parts with
  | nil => rfl
  | cons t parts ih => exact congrArg (t.rowCount + ·) ih

theorem wellFormed_joined {parts : List (Tensor ℚ)} (h : ∀ t ∈ parts, t.innerShape = inner ∧ t.WellFormed) :
    (joined inner parts).WellFormed := by
  have hwf : ∀ t ∈ parts, t.WellFormed := fun t ht => (h t ht).2
  rw [joined, ← Tensor.ofRows_flatMap_rowList inner hwf]
  exact (Tensor.fits_flatMap_rowList (fun t ht => (h t ht).1) hwf).wellFormed

theorem column_joined {j : Nat} (hj : j < volume inner) : ∀ {parts : List (Tensor ℚ)},
    (∀ t ∈ parts, t.innerShape = inner ∧ t.WellFormed) →
    (joined inner parts).column j = parts.flatMap fun t => t.column j
  | [], _ => rfl
  | t :: parts, h => by
    obtain ⟨hin, hwf⟩ := h t (by simp)
    have hw : t.rowWidth = volume inner := congrArg volume hin
    rw [List.flatMap_cons, ← column_joined hj fun u hu => h u (by simp [hu])]
    have hrest : (joined inner parts).rowWidth = t.rowWidth := hw.symm
    exact Tensor.column_append (v := joined inner (t :: parts)) hwf hrest hrest rfl rfl (by rwa [hw])

theorem concatRows_eq {parts : List (Tensor ℚ)} (hne : parts ≠ []) (h : ∀ t ∈ parts, t.innerShape = inner) :
    Tensor.concatRows parts = .ok (joined inner parts) := Tensor.concatRows_eq hne h

/-- Rows that were put together had one shape. -/
theorem innerShape_of_concatRows {first : Tensor ℚ} {others : List (Tensor ℚ)} {t : Tensor ℚ}
    (h : Tensor.concatRows (first :: others) = .ok t) : ∀ u ∈ first :: others, u.innerShape = first.innerShape := by
  obtain ⟨-, inner, hinner⟩ := Tensor.alike_of_concatRows h
  intro u hu
  rw [hinner u hu, hinner first List.mem_cons_self]

/-- The tensors of a bucket have the shape of their files. -/
theorem even_bucket {files : List (FileBuckets ℚ)} (h : ∀ f ∈ files, Part bucketShape inner f.rows) (bucket : Nat) :
    ∀ t ∈ files.filterMap (fun f => f.rows[bucket]?), t.innerShape = inner ∧ t.WellFormed := by
  intro t ht
  obtain ⟨f, hf, ht⟩ := List.mem_filterMap.1 ht
  exact (h f hf).rows t (List.mem_of_getElem? ht)

/-- Rows of one shape are put together bucket by bucket. -/
theorem mapM_concatRows {first : FileBuckets ℚ} {others : List (FileBuckets ℚ)}
    (h : ∀ f ∈ first :: others, Part bucketShape inner f.rows) :
    ((List.range (volume bucketShape)).mapM fun bucket =>
      Tensor.concatRows ((first :: others).filterMap fun f => f.rows[bucket]?)) =
    .ok ((List.range (volume bucketShape)).map fun bucket =>
      joined inner ((first :: others).filterMap fun f => f.rows[bucket]?)) := by
  refine mapM_ok_of_mem fun bucket hb => concatRows_eq ?_ fun t ht => (even_bucket h bucket t ht).1
  have hlt : bucket < first.rows.length := by
    rw [(h first (by simp)).count]
    exact List.mem_range.1 hb
  rw [List.filterMap_cons, List.getElem?_eq_getElem hlt]
  exact List.cons_ne_nil _ _

/-- The rows of files can be put together when they have one shape. -/
theorem joinBuckets_eq_ok (hpos : volume bucketShape ≠ 0) {files : List (FileBuckets ℚ)} (hne : files ≠ [])
    (h : ∀ f ∈ files, ∃ inner, Part bucketShape inner f.rows) {rows : List (Tensor ℚ)} :
    Run.joinBuckets files = .ok rows ↔ ∃ inner, (∀ f ∈ files, Part bucketShape inner f.rows) ∧
      rows = (List.range (volume bucketShape)).map fun bucket =>
        joined inner (files.filterMap fun f => f.rows[bucket]?) := by
  obtain ⟨first, others, rfl⟩ := List.exists_cons_of_ne_nil hne
  obtain ⟨inner, hfirst⟩ := h first (by simp)
  unfold Run.joinBuckets
  dsimp only
  rw [hfirst.count]
  constructor
  · intro hj
    -- the rows of the first bucket were put together, so all files have the shape of the first one
    have hall : ∀ f ∈ first :: others, Part bucketShape inner f.rows := by
      obtain ⟨n, hn⟩ := Nat.exists_eq_succ_of_ne_zero hpos
      have hzero := hj
      rw [hn, List.range_succ_eq_map, List.mapM_cons] at hzero
      obtain ⟨t, ht, -⟩ := bind_eq_ok.1 hzero
      have hfirst0 : 0 < first.rows.length := by rw [hfirst.count]; exact Nat.pos_of_ne_zero hpos
      rw [List.filterMap_cons, List.getElem?_eq_getElem hfirst0] at ht
      intro f hf
      obtain ⟨inner', hf'⟩ := h f hf
      have hf0 : 0 < f.rows.length := by rw [hf'.count]; exact Nat.pos_of_ne_zero hpos
      have hmem : f.rows[0] ∈ first.rows[0] :: others.filterMap fun f => f.rows[0]? := by
        rcases List.mem_cons.1 hf with rfl | hf
        · exact List.mem_cons_self
        · exact List.mem_cons_of_mem _ (List.mem_filterMap.2 ⟨f, hf, List.getElem?_eq_getElem hf0⟩)
      have hshape := innerShape_of_concatRows ht _ hmem
      rw [(hf'.rows _ (List.getElem_mem hf0)).1, (hfirst.rows _ (List.getElem_mem hfirst0)).1] at hshape
      rwa [hshape] at hf'
    rw [mapM_concatRows hall] at hj
    exact ⟨inner, hall, (Except.ok.inj hj).symm⟩
  · rintro ⟨inner, heven, rfl⟩
    exact mapM_concatRows heven

theorem columnOf_files (files : List (FileBuckets ℚ)) (bucket j : Nat) :
    columnOf (files.map FileBuckets.rows) bucket j =
    (files.filterMap fun f => f.rows[bucket]?).flatMap fun t => t.column j := by
  induction files with
  | nil => rfl
  | cons f files ih =>
    rw [List.map_cons, columnOf, List.flatMap_cons]
    rw [columnOf] at ih
    rw [ih, List.filterMap_cons]
    cases f.rows[bucket]? <;> rfl

theorem rowsOf_files (files : List (FileBuckets ℚ)) (bucket : Nat) : rowsOf (files.map FileBuckets.rows) bucket =
    ((files.filterMap fun f => f.rows[bucket]?).map Tensor.rowCount).sum := by
  induction files with
  | nil => rfl
  | cons f files ih =>
    rw [List.map_cons, rowsOf, List.map_cons, List.sum_cons]
    rw [rowsOf] at ih
    rw [ih, List.filterMap_cons]
    cases f.rows[bucket]? with
    | none => exact Nat.zero_add _
    | some t => rfl

/-- What is put together is even, and its means are the average over the rows of all files. -/
theorem means_joined (hpos : volume bucketShape ≠ 0) {files : List (FileBuckets ℚ)}
    (h : ∀ f ∈ files, Part bucketShape inner f.rows) {rows : List (Tensor ℚ)}
    (hrows : rows = (List.range (volume bucketShape)).map fun bucket =>
      joined inner (files.filterMap fun f => f.rows[bucket]?)) :
    Part bucketShape inner rows ∧ (⟨bucketShape, rows⟩ : CollectedBuckets ℚ).means =
      averageOf bucketShape inner (files.map FileBuckets.rows) := by
  have heven : Part bucketShape inner rows := by
    refine ⟨by rw [hrows, List.length_map, List.length_range], fun t ht => ?_⟩
    rw [hrows] at ht
    obtain ⟨bucket, -, rfl⟩ := List.mem_map.1 ht
    exact ⟨rfl, wellFormed_joined (even_bucket h bucket)⟩
  -- each bucket joined is the bucket of every file, one below the other
  have hget : ∀ bucket ∈ List.range (volume bucketShape),
      rows[bucket]? = some (joined inner (files.filterMap fun f => f.rows[bucket]?)) := fun bucket hb => by
    rw [hrows, List.getElem?_map, List.getElem?_range (List.mem_range.1 hb), Option.map_some]
  refine ⟨heven, ?_⟩
  rw [means_eq heven (heven.ne_nil hpos)]
  unfold averageOf
  congr 2
  · refine List.flatMap_congr fun bucket hb => List.map_congr_left fun j hj => congrArg mean ?_
    rw [columnOf_files, ← column_joined (List.mem_range.1 hj) (even_bucket h bucket), columnOf, List.flatMap_singleton,
      hget bucket hb]
    rfl
  · refine List.map_congr_left fun bucket hb => congrArg _ ?_
    rw [rowsOf_files, ← rowCount_joined inner, rowsOf, List.map_singleton, List.sum_singleton, hget bucket hb]
    rfl

end ShotTally.Exact
