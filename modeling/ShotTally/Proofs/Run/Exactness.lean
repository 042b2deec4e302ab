/-
Exact averages and collections of the files of a run. However the files are cut into blocks, there
is an average exactly when the rows of all files can be collected, and it is the mean of what is
collected.
-/
import ShotTally.Proofs.Bucket.Evenness
import ShotTally.Proofs.Cache.Block
import ShotTally.Proofs.Run.SideBySide
import ShotTally.Proofs.Statistics.Joining

namespace ShotTally

open Exact

namespace ReadingPlan

variable {plan : ReadingPlan} {load : String → Outcome ShotFile} {q : Query} {rules : List Rule.Predicate}

/-! ## One file -/

/-- The parts of a file: its rows, if it has the quantity. -/
def partsOf (x : Option (FileBuckets ℚ)) : List (List (Tensor ℚ)) := x.toList.map FileBuckets.rows

theorem part_of_bucketsOf {name : String} {b : FileBuckets ℚ} (h : plan.bucketsOf load q rules name = .ok (some b)) :
    b.bucketShape = q.bucketShape ∧ ∃ inner, Part q.bucketShape inner b.rows := by
  obtain ⟨file, -, h⟩ := bind_eq_ok.1 h
  rw [Outcome.within_eq_ok] at h
  obtain ⟨hshape, -, hcount, inner, hrows⟩ := even_of_sorted h
  exact ⟨hshape, inner, hcount, hrows⟩

theorem volume_bucketShape (q : Query) : volume q.bucketShape = 4 * q.rules.length := by
  show 4 * (q.rules.length * 1) = _
  rw [Nat.mul_one]

theorem volume_ne_zero (hq : q.rules ≠ []) : volume q.bucketShape ≠ 0 := by
  have := List.length_pos_iff.2 hq
  rw [volume_bucketShape]
  omega

/-- A file comes to the average of its rows. -/
theorem averageOf_eq_ok (hq : q.rules ≠ []) {name : String} {o : Option (WeightedAverage ℚ)} :
    plan.averageOf load q rules name = .ok o ↔
      ∃ x, plan.bucketsOf load q rules name = .ok x ∧ Comes q.bucketShape (partsOf x) o := by
  unfold averageOf
  rw [bind_eq_ok]
  -- both sides start with the buckets of the file
  refine exists_congr fun x => and_congr_right fun hx => ?_
  cases x with
  | none => simp [Comes, partsOf, eq_comm]
  | some b =>
    obtain ⟨hshape, inner, hpart⟩ := part_of_bucketsOf hx
    have hne := hpart.ne_nil (volume_ne_zero hq)
    rw [← hshape] at hpart
    dsimp only
    rw [FileBuckets.average_eq hpart hne, ok_bind, means_eq hpart hne, hshape]
    rw [hshape] at hpart
    constructor
    · intro h
      cases h
      exact comes_some.2 ⟨inner, List.cons_ne_nil _ _, by simpa [partsOf] using hpart, rfl⟩
    · rintro (⟨hnil, -⟩ | ⟨inner', -, heven, rfl⟩)
      · cases hnil
      · obtain rfl : inner = inner' := hpart.unique (volume_ne_zero hq) (heven _ (by simp [partsOf]))
        rfl

/-! ## Blocks -/

theorem flatten_partsOf (xs : List (Option (FileBuckets ℚ))) :
    (xs.map partsOf).flatten = (xs.filterMap id).map FileBuckets.rows := by
  induction xs with
  | nil => rfl
  | cons x xs ih =>
    rw [List.map_cons, List.flatten_cons, ih]
    cases x <;> rfl

section

variable {ι β : Type} {bucketShape : List Nat} {f : ι → Outcome (Option (WeightedAverage ℚ))} {g : ι → Outcome β}
  {parts : β → List (List (Tensor ℚ))}

/-- Items that come to the averages of some parts each. -/
theorem mapM_comes (h : ∀ i o, f i = .ok o ↔ ∃ x, g i = .ok x ∧ Comes bucketShape (parts x) o) {l : List ι}
    {os : List (Option (WeightedAverage ℚ))} :
    l.mapM f = .ok os ↔ ∃ xs, l.mapM g = .ok xs ∧ List.Forall₂ (Comes bucketShape) (xs.map parts) os := by
  induction l generalizing os with
  | nil => simp [eq_comm]
  | cons i l ih =>
    rw [List.mapM_cons, List.mapM_cons, bind_eq_ok]
    constructor
    · rintro ⟨o, ho, hr⟩
      obtain ⟨rest, hrest, hr⟩ := bind_eq_ok.1 hr
      cases hr
      obtain ⟨x, hx, hcomes⟩ := (h i o).1 ho
      obtain ⟨xs, hxs, hall⟩ := ih.1 hrest
      exact ⟨x :: xs, bind_eq_ok.2 ⟨x, hx, bind_eq_ok.2 ⟨xs, hxs, rfl⟩⟩, .cons hcomes hall⟩
    · rintro ⟨_, hr, hall⟩
      obtain ⟨x, hx, hr⟩ := bind_eq_ok.1 hr
      obtain ⟨xs, hxs, hr⟩ := bind_eq_ok.1 hr
      cases hr
      cases hall with
      | cons hcomes hall => exact ⟨_, (h i _).2 ⟨x, hx, hcomes⟩, bind_eq_ok.2 ⟨_, ih.2 ⟨xs, hxs, hall⟩, rfl⟩⟩

/-- Their averages are combined to that of all parts. -/
theorem foldPresent_comes (hpos : volume bucketShape ≠ 0)
    (h : ∀ i o, f i = .ok o ↔ ∃ x, g i = .ok x ∧ Comes bucketShape (parts x) o) {l : List ι}
    {o : Option (WeightedAverage ℚ)} :
    l.mapM f >>= foldPresent = .ok o ↔ ∃ xs, l.mapM g = .ok xs ∧ Comes bucketShape (xs.map parts).flatten o := by
  unfold foldPresent
  rw [bind_eq_ok]
  constructor
  · rintro ⟨os, hos, ho⟩
    obtain ⟨xs, hxs, hall⟩ := (mapM_comes h).1 hos
    exact ⟨xs, hxs, (fold_comes hpos hall).1 ho⟩
  · rintro ⟨xs, hxs, ho⟩
    obtain ⟨os, hall⟩ := exists_comes ho
    exact ⟨os, (mapM_comes h).2 ⟨xs, hxs, hall⟩, (fold_comes hpos hall).2 ho⟩

end

/-- A block comes to the average over the rows of its files. -/
theorem blockAverage_eq_ok (hq : q.rules ≠ []) {files : List String} {o : Option (WeightedAverage ℚ)} :
    plan.blockAverage load q rules files = .ok o ↔ ∃ xs, files.mapM (plan.bucketsOf load q rules) = .ok xs ∧
      Comes q.bucketShape (xs.map partsOf).flatten o :=
  foldPresent_comes (volume_ne_zero hq) fun _ _ => averageOf_eq_ok hq

/-- The average over blocks is folded from the averages of the blocks. -/
theorem totalOf_iff_blockAverages {blocks : List (List String)} {o : Option (WeightedAverage ℚ)} :
    plan.totalOf load q rules blocks = .ok o ↔
    blocks.mapM (plan.blockAverage load q rules) >>= foldPresent = .ok o := by
  unfold totalOf readBlocks
  rw [bind_eq_ok, bind_eq_ok]
  constructor
  · rintro ⟨fresh, hfresh, h⟩
    obtain ⟨os, hos, ho⟩ := bind_eq_ok.1 h
    exact ⟨os, mapM_mapM_eq_ok.1 ⟨fresh, hfresh, hos⟩, ho⟩
  · rintro ⟨os, hos, ho⟩
    obtain ⟨fresh, hfresh, hos⟩ := mapM_mapM_eq_ok.2 hos
    exact ⟨fresh, hfresh, bind_eq_ok.2 ⟨os, hos, ho⟩⟩

/-- However files are cut into blocks, they come to the average over the rows of all of them. -/
theorem totalOf_eq_ok (hq : q.rules ≠ []) {blocks : List (List String)} {o : Option (WeightedAverage ℚ)} :
    plan.totalOf load q rules blocks = .ok o ↔ ∃ xs, blocks.flatten.mapM (plan.bucketsOf load q rules) = .ok xs ∧
      Comes q.bucketShape (xs.map partsOf).flatten o := by
  rw [totalOf_iff_blockAverages, foldPresent_comes (volume_ne_zero hq) fun _ _ => blockAverage_eq_ok hq]
  have hflat : ∀ xss : List (List (Option (FileBuckets ℚ))),
      (xss.map fun xs => (xs.map partsOf).flatten).flatten = (xss.flatten.map partsOf).flatten := fun xss => by
    rw [List.map_flatten, List.flatten_flatten, List.map_map]
    rfl
  constructor
  · rintro ⟨xss, hxss, ho⟩
    rw [hflat] at ho
    exact ⟨xss.flatten, mapM_flatten_eq_ok.2 ⟨xss, hxss, rfl⟩, ho⟩
  · rintro ⟨xs, hxs, ho⟩
    obtain ⟨xss, hxss, rfl⟩ := mapM_flatten_eq_ok.1 hxs
    rw [← hflat] at ho
    exact ⟨xss, hxss, ho⟩

/-! ## Averages and collections -/

/-- Files are collected when some have the quantity and their rows have one shape. -/
theorem collectionOf_eq_ok (hq : q.rules ≠ []) {files : List String} {c : CollectedBuckets ℚ} :
    plan.collectionOf load q rules files = .ok (some c) ↔
    ∃ xs inner, files.mapM (plan.bucketsOf load q rules) = .ok xs ∧
      xs.filterMap id ≠ [] ∧ (∀ b ∈ xs.filterMap id, Part q.bucketShape inner b.rows) ∧
      c = ⟨q.bucketShape, (List.range (volume q.bucketShape)).map fun bucket =>
        joined inner ((xs.filterMap id).filterMap fun b => b.rows[bucket]?)⟩ := by
  unfold collectionOf
  rw [bind_eq_ok]
  refine exists_congr fun xs => ?_
  rw [exists_and_left]
  refine and_congr_right fun hxs => ?_
  -- each file present is in buckets of one inner shape; only the shapes of different files may differ
  have hpart : ∀ b ∈ xs.filterMap id, ∃ inner, Part q.bucketShape inner b.rows := by
    intro b hb
    obtain ⟨x, hx, rfl⟩ := List.mem_filterMap.1 hb
    obtain ⟨name, -, hname⟩ := exists_of_mem_mapM hxs hx
    exact (part_of_bucketsOf hname).2
  generalize xs.filterMap id = present at hpart ⊢
  rcases present with _ | ⟨first, others⟩
  · exact ⟨fun h => (by cases h), fun ⟨_, hne, _⟩ => absurd rfl hne⟩
  dsimp only
  rw [bind_eq_ok]
  constructor
  · rintro ⟨rows, hrows, h⟩
    cases h
    obtain ⟨inner, heven, rfl⟩ := (joinBuckets_eq_ok (volume_ne_zero hq) (List.cons_ne_nil _ _) hpart).1 hrows
    exact ⟨inner, List.cons_ne_nil _ _, heven, rfl⟩
  · rintro ⟨inner, hne, heven, rfl⟩
    exact ⟨_, (joinBuckets_eq_ok (volume_ne_zero hq) hne hpart).2 ⟨inner, heven, rfl⟩, rfl⟩

/-- What is collected has a bucket for each condition and rule, all with rows of one shape. -/
theorem even_of_collectionOf (hq : q.rules ≠ []) {files : List String} {c : CollectedBuckets ℚ}
    (h : plan.collectionOf load q rules files = .ok (some c)) :
    c.bucketShape = q.bucketShape ∧ ∃ inner, c.Even inner := by
  obtain ⟨xs, inner, -, -, heven, rfl⟩ := (collectionOf_eq_ok hq).1 h
  exact ⟨rfl, inner, (means_joined (volume_ne_zero hq) heven rfl).1⟩

/-- Over any blocks there is an average when the files can be collected, and it is the mean of what
is collected. -/
theorem totalOf_iff_collectionOf (hq : q.rules ≠ []) {blocks : List (List String)} {v : WeightedAverage ℚ} :
    plan.totalOf load q rules blocks = .ok (some v) ↔
      ∃ c, plan.collectionOf load q rules blocks.flatten = .ok (some c) ∧ v = c.means := by
  -- cutting into blocks does not matter: the parts of all blocks are the parts of their files
  rw [totalOf_eq_ok hq]
  constructor
  · rintro ⟨xs, hxs, ho⟩
    rw [flatten_partsOf] at ho
    obtain ⟨inner, hne, heven, rfl⟩ := comes_some.1 ho
    have hall : ∀ b ∈ xs.filterMap id, Part q.bucketShape inner b.rows := fun b hb => heven _ (List.mem_map_of_mem hb)
    exact ⟨_, (collectionOf_eq_ok hq).2 ⟨xs, inner, hxs, fun hnil => hne (by rw [hnil]; rfl), hall, rfl⟩,
      ((means_joined (volume_ne_zero hq) hall rfl).2).symm⟩
  · rintro ⟨c, hc, rfl⟩
    obtain ⟨xs, inner, hxs, hne, heven, rfl⟩ := (collectionOf_eq_ok hq).1 hc
    refine ⟨xs, hxs, ?_⟩
    rw [flatten_partsOf]
    refine comes_some.2 ⟨inner, fun hnil => hne (List.map_eq_nil_iff.1 hnil), fun rows hr => ?_,
      (means_joined (volume_ne_zero hq) heven rfl).2⟩
    obtain ⟨b, hb, rfl⟩ := List.mem_map.1 hr
    exact heven b hb

/-! ## Without rules -/

theorem foldPresent_none {os : List (Option (WeightedAverage ℚ))} (h : ∀ o ∈ os, o = none) :
    foldPresent os = .ok none := by
  have hnil : os.filterMap id = [] := by
    rw [List.filterMap_eq_nil_iff]
    exact h
  unfold foldPresent
  rw [hnil]
  rfl

theorem totalOf_of_nil (hq : q.rules = []) {blocks : List (List String)} {o : Option (WeightedAverage ℚ)}
    (h : plan.totalOf load q rules blocks = .ok o) : o = none := by
  obtain ⟨fresh, hfresh, h⟩ := bind_eq_ok.1 h
  obtain ⟨os, hos, h⟩ := bind_eq_ok.1 h
  have hnone : ∀ o ∈ os, o = none := by
    intro o ho
    obtain ⟨averages, ha, hfold⟩ := exists_of_mem_mapM hos ho
    obtain ⟨files, -, hfiles⟩ := exists_of_mem_mapM hfresh ha
    rw [foldPresent_none fun o ho => by
      obtain ⟨name, -, hname⟩ := exists_of_mem_mapM hfiles ho
      exact averageOf_of_nil hq hname] at hfold
    exact (Except.ok.inj hfold).symm
  rw [foldPresent_none hnone] at h
  exact (Except.ok.inj h).symm

/-- The block size makes no difference to the average. -/
theorem totalOf_uniform {files : List String} {v : WeightedAverage ℚ} {size size' : Option Nat} (hs : size ≠ some 0)
    (hs' : size' ≠ some 0) (h : plan.totalOf load q rules (Cache.blocksOf size files) = .ok (some v)) :
    plan.totalOf load q rules (Cache.blocksOf size' files) = .ok (some v) := by
  by_cases hq : q.rules = []
  · cases totalOf_of_nil hq h
  · rw [totalOf_iff_collectionOf hq, Cache.flatten_blocksOf hs] at h
    rw [totalOf_iff_collectionOf hq, Cache.flatten_blocksOf hs']
    exact h

end ReadingPlan
end ShotTally
