/-
Rules do not influence each other. Where a query has an average and a collection, so has every query for
some of its rules, in any order and number, and under each rule the buckets of all conditions are the same.
The two computations go side by side, file by file and block by block, and keep the same block of numbers at
the same places.
-/
import ShotTally.Proofs.Bucket.Places
import ShotTally.Proofs.Run.Configuration
import ShotTally.Proofs.Run.SideBySide

namespace ShotTally

open Tensor

variable {α : Type}

/-! ## Buckets of results -/

/-- The average and the weight of the bucket of a condition and a rule. -/
def WeightedAverage.bucket? (a : WeightedAverage α) (c : Condition) (j : Nat) : Option (List α × α) :=
  let width := volume a.dataShape
  let index := c.index * volume a.bucketShape.tail + j
  a.weights.data[index]?.map fun weight => ((a.average.data.drop (index * width)).take width, weight)

/-- The rows of the bucket of a condition and a rule. -/
def CollectedBuckets.bucket? (a : CollectedBuckets α) (c : Condition) (j : Nat) : Option (Tensor α) :=
  entryAt a.bucketShape a.rows c j

/-- Averages for two lists of rules that have, under every rule of both, the same numbers for each condition. -/
structure WeightedAverage.Agrees (rules rules' : List (Option String)) (a a' : WeightedAverage α) : Prop where
  bucketShape : a.bucketShape = [Condition.all.length, rules.length] ∧
    a'.bucketShape = [Condition.all.length, rules'.length]
  dataShape : a.dataShape = a'.dataShape
  bucket : ∀ c j j' rule, rules[j]? = some rule → rules'[j']? = some rule →
    ∃ block, a.bucket? c j = some block ∧ a'.bucket? c j' = some block

/-- Collections for two lists of rules that have, under every rule of both, the same rows for each condition. -/
structure CollectedBuckets.Agrees (rules rules' : List (Option String)) (a a' : CollectedBuckets α) : Prop where
  bucketShape : a.bucketShape = [Condition.all.length, rules.length] ∧
    a'.bucketShape = [Condition.all.length, rules'.length]
  bucket : ∀ c j j' rule, rules[j]? = some rule → rules'[j']? = some rule →
    ∃ rows, a.bucket? c j = some rows ∧ a'.bucket? c j' = some rows

/-! ## Averages by place -/

/-- The average for some rules has these blocks at the places. -/
structure WeightedAverage.ByPlace (a : WeightedAverage α) (rules : List (Option String)) (inner : List Nat)
    (block : Place → List α × α) : Prop where
  blocks : a = ofBlocks [Condition.all.length, rules.length] inner ((places rules).map block)
  width : ∀ p ∈ places rules, (block p).1.length = volume inner

/-- Averages for some rules and for others that have the same blocks at the same places. -/
def WeightedAverage.Alike (rules rules' : List (Option String)) (a a' : WeightedAverage α) : Prop :=
  ∃ inner block, a.ByPlace rules inner block ∧ a'.ByPlace rules' inner block

variable {rules rules' : List (Option String)}

namespace WeightedAverage

/-- A block among blocks of one length is found by its number. -/
theorem take_drop_blocks {inner : List Nat} {blocks : List (List α × α)} (h : ∀ b ∈ blocks, b.1.length = volume inner)
    {i : Nat} {b : List α × α} (hb : blocks[i]? = some b) :
    ((blocks.flatMap (·.1)).drop (i * volume inner)).take (volume inner) = b.1 := by
  have hfit : Fits inner (blocks.map (·.1)) := by
    simpa [Fits] using fun x y hxy => h (x, y) hxy
  obtain ⟨hi, rfl⟩ := List.getElem?_eq_some_iff.1 hb
  have hrow : i < (blocks.map (·.1)).length := by simpa using hi
  rw [List.flatMap_def, hfit.drop_flatten, List.drop_eq_getElem_cons hrow, List.flatten_cons, List.getElem_map]
  exact List.take_left' (h _ (List.getElem_mem hi))

theorem ByPlace.bucket?_eq {a : WeightedAverage α} {inner : List Nat} {block : Place → List α × α}
    (h : a.ByPlace rules inner block) {c : Condition} {j : Nat} {rule : Option String} (hj : rules[j]? = some rule) :
    a.bucket? c j = some (block (c, rule)) := by
  have hentry := entryAt_places block (c := c) hj
  have hdata : a.dataShape = inner := by
    rw [h.blocks]
    simp [dataShape, ofBlocks]
  have hwidth : ∀ b ∈ (places rules).map block, b.1.length = volume inner := by
    intro b hb
    obtain ⟨p, hp, rfl⟩ := List.mem_map.1 hb
    exact h.width p hp
  unfold bucket?
  rw [hdata, h.blocks]
  simp only [ofBlocks]
  rw [List.getElem?_map]
  unfold entryAt at hentry
  rw [hentry, Option.map_some, Option.map_some, take_drop_blocks hwidth hentry]

theorem Alike.agrees {a a' : WeightedAverage α} (h : Alike rules rules' a a') : a.Agrees rules rules' a' := by
  obtain ⟨inner, block, ha, ha'⟩ := h
  constructor
  case bucketShape => exact ⟨by rw [ha.blocks]; rfl, by rw [ha'.blocks]; rfl⟩
  case dataShape =>
    rw [ha.blocks, ha'.blocks]
    simp [dataShape, ofBlocks]
  case bucket => exact fun c j j' rule hj hj' => ⟨_, ha.bucket?_eq hj, ha'.bucket?_eq hj'⟩

variable [Scalar α]

/-- Buckets with rows by place have an average with the blocks of these rows there. -/
theorem exists_average_byPlace {b : FileBuckets α} {inner : List Nat} {table : Place → List (List α)} (hne : rules ≠ [])
    (hb : b.ByPlace rules inner table) :
    ∃ a, (do (← b.sums).average) = .ok a ∧ a.ByPlace rules inner fun p => blockOf inner (table p) := by
  refine ⟨_, hb.holds.average_eq (by simpa using places_ne_nil hne), ?_, fun p hp => ?_⟩
  · rw [hb.bucketShape, List.map_map]
    rfl
  · exact length_blockOf (hb.holds.fits _ (List.mem_map_of_mem hp))

/-- Buckets with the same rows at the same places have the same averages there. -/
theorem exists_alike {b b' : FileBuckets α} (h : FileBuckets.Alike rules rules' b b') (hne : rules ≠ [])
    (hne' : rules' ≠ []) :
    ∃ a a', (do (← b.sums).average) = .ok a ∧ (do (← b'.sums).average) = .ok a' ∧ Alike rules rules' a a' := by
  obtain ⟨inner, table, hb, hb'⟩ := h
  obtain ⟨a, ha, hplaced⟩ := exists_average_byPlace hne hb
  obtain ⟨a', ha', hplaced'⟩ := exists_average_byPlace hne' hb'
  exact ⟨a, a', ha, ha', inner, _, hplaced, hplaced'⟩

/-- Combining keeps the same blocks at the same places. -/
theorem carries_alike : Carries (Alike (α := α) rules rules') := by
  rintro a a' b b' v ⟨inner, block, hplaced, hplaced'⟩ ⟨inner', block', hother, hother'⟩ h
  rw [hplaced.blocks, hother.blocks, combine_ofBlocks hplaced.width hother.width] at h
  obtain ⟨rfl, rfl⟩ := h
  have hwidth : ∀ {l : List (Option String)}, (∀ p ∈ places l, (block p).1.length = volume inner) →
      (∀ p ∈ places l, (block' p).1.length = volume inner) →
      ∀ p ∈ places l, (combineBlock (block p) (block' p)).1.length = volume inner := fun h h' p hp =>
    length_combineBlock (h p hp) (h' p hp)
  refine ⟨_, ?_, inner, fun p => combineBlock (block p) (block' p), ⟨rfl, hwidth hplaced.width hother.width⟩,
    ⟨rfl, hwidth hplaced'.width hother'.width⟩⟩
  rw [hplaced'.blocks, hother'.blocks, combine_ofBlocks hplaced'.width hother'.width]
  exact ⟨rfl, rfl⟩

end WeightedAverage

namespace ReadingPlan

open WeightedAverage (Alike)

variable [Scalar α] {plan : ReadingPlan} {load : String → Outcome ShotFile} {q : Query}
    {preds preds' : List Rule.Predicate}

/-! ## Files and blocks -/

section

variable (hpreds : Rule.Predicate.compileAll q.rules = .ok preds)
    (hpreds' : Rule.Predicate.compileAll rules' = .ok preds')
  (hsub : rules' ⊆ q.rules)

include hpreds hpreds' hsub

theorem bucketsOf_among {name : String} {x : Option (FileBuckets α)} (h : plan.bucketsOf load q preds name = .ok x) :
    ∃ x', plan.bucketsOf load { q with rules := rules' } preds' name = .ok x' ∧
      Option.Rel (FileBuckets.Alike q.rules rules') x x' := by
  obtain ⟨file, hfile, h⟩ := bind_eq_ok.1 h
  obtain ⟨x', hx', halike⟩ := sorted_among hpreds hpreds' hsub (Outcome.within_eq_ok.1 h)
  exact ⟨x', bind_eq_ok.2 ⟨file, hfile, Outcome.within_eq_ok.2 hx'⟩, halike⟩

variable (hne : rules' ≠ [])

include hne

theorem averageOf_among {name : String} {o : Option (WeightedAverage α)}
    (h : plan.averageOf load q preds name = .ok o) :
    ∃ o', plan.averageOf load { q with rules := rules' } preds' name = .ok o' ∧
      Option.Rel (Alike q.rules rules') o o' := by
  have hmore : q.rules ≠ [] := fun hnil => hne (List.subset_nil.1 (hnil ▸ hsub))
  obtain ⟨x, hx, h⟩ := bind_eq_ok.1 h
  obtain ⟨x', hx', halike⟩ := bucketsOf_among hpreds hpreds' hsub hx
  cases halike with
  | none =>
    cases h
    exact ⟨none, bind_eq_ok.2 ⟨none, hx', rfl⟩, .none⟩
  | @some b b' halike =>
    obtain ⟨a, a', ha, ha', hboth⟩ := WeightedAverage.exists_alike halike hmore hne
    obtain ⟨v, hv, h⟩ := bind_eq_ok.1 h
    cases h
    obtain rfl : a = v := Except.ok.inj (ha.symm.trans hv)
    exact ⟨some a', bind_eq_ok.2 ⟨some b', hx', bind_eq_ok.2 ⟨a', ha', rfl⟩⟩, .some hboth⟩

theorem totalOf_among {blocks : List (List String)} {o : Option (WeightedAverage α)}
    (h : plan.totalOf load q preds blocks = .ok o) :
    ∃ o', plan.totalOf load { q with rules := rules' } preds' blocks = .ok o' ∧
      Option.Rel (Alike q.rules rules') o o' :=
  totalOf_carried WeightedAverage.carries_alike (fun _ _ _ => averageOf_among hpreds hpreds' hsub hne) h

omit hne in
theorem collectionOf_among {files : List String} {c : CollectedBuckets α}
    (h : plan.collectionOf load q preds files = .ok (some c)) :
    ∃ c', plan.collectionOf load { q with rules := rules' } preds' files = .ok (some c') ∧
      c.Agrees q.rules rules' c' := by
  obtain ⟨xs, hxs, h⟩ := bind_eq_ok.1 h
  -- file by file the buckets of a chosen rule are the same; joining them keeps that
  have hfile : ∀ name name' (x : Option (FileBuckets α)), name = name' → plan.bucketsOf load q preds name = .ok x →
      ∃ x', plan.bucketsOf load { q with rules := rules' } preds' name' = .ok x' ∧
        Option.Rel (FileBuckets.Alike q.rules rules') x x' := by
    rintro name _ x rfl h
    exact bucketsOf_among hpreds hpreds' hsub h
  obtain ⟨xs', hxs', hall⟩ := mapM_ok_of_forall₂ hfile (List.forall₂_refl files) hxs
  have hpresent := forall₂_present hall
  cases hfirst : xs.filterMap id with
  | nil =>
    rw [hfirst] at h
    cases h
  | cons first others =>
    rw [hfirst] at h hpresent
    obtain ⟨rows, hrows, h⟩ := bind_eq_ok.1 h
    cases h
    obtain ⟨bucket, rfl, hrows'⟩ := Run.joinBuckets_among hpresent hsub (List.cons_ne_nil _ _) hrows
    cases hpresent' : xs'.filterMap id with
    | nil =>
      rw [hpresent'] at hpresent
      cases hpresent
    | cons first' others' =>
      rw [hpresent'] at hrows'
      refine ⟨⟨[Condition.all.length, rules'.length], (places rules').map bucket⟩, ?_, ⟨rfl, rfl⟩, ?_⟩
      · refine bind_eq_ok.2 ⟨xs', hxs', ?_⟩
        rw [hpresent']
        exact bind_eq_ok.2 ⟨_, hrows', rfl⟩
      · intro c j j' rule hj hj'
        exact ⟨bucket (c, rule), entryAt_places bucket hj, entryAt_places bucket hj'⟩

end

end ReadingPlan

/-! ## Runs -/

namespace Run

section

variable [Scalar α] {r : Run} {d : Disk} {offset : Option Int} {q : Query}

theorem exists_preds (hsub : rules' ⊆ rules) {preds : List Rule.Predicate}
    (h : Rule.Predicate.compileAll rules = .ok preds) :
    ∃ preds', Rule.Predicate.compileAll rules' = .ok preds' := by
  have : Nonempty Rule.Predicate := ⟨.always⟩
  obtain ⟨pred, -, -, hfewer⟩ := exists_mapM_values h
  exact ⟨_, hfewer rules' hsub⟩

/-- The average for some of the rules of a query. -/
theorem averageOn_among {size : Option Nat} (hne : rules' ≠ []) (hsub : rules' ⊆ q.rules) {a : WeightedAverage α}
    (h : r.averageOn d offset q size = .ok a) :
    ∃ a', r.averageOn d offset { q with rules := rules' } size = .ok a' ∧ a.Agrees q.rules rules' a' := by
  have hs := positive_of_averageOn h
  obtain ⟨hfiles, preds, hpreds, plan, hplan, htotal⟩ := (averageOn_eq_ok hs).1 h
  obtain ⟨preds', hpreds'⟩ := exists_preds hsub hpreds
  obtain ⟨o', ho', halike⟩ := ReadingPlan.totalOf_among hpreds hpreds' hsub hne htotal
  cases halike with
  | @some _ a' halike => exact ⟨a', (averageOn_eq_ok hs).2 ⟨hfiles, preds', hpreds', plan, hplan, ho'⟩, halike.agrees⟩

/-- The rows for some of the rules of a query. -/
theorem collectionOn_among (hsub : rules' ⊆ q.rules) {c : CollectedBuckets α} (h : r.collectionOn d offset q = .ok c) :
    ∃ c', r.collectionOn d offset { q with rules := rules' } = .ok c' ∧ c.Agrees q.rules rules' c' := by
  obtain ⟨preds, hpreds, plan, hplan, hc⟩ := collectionOn_eq_ok.1 h
  obtain ⟨preds', hpreds'⟩ := exists_preds hsub hpreds
  obtain ⟨c', hc', hagrees⟩ := ReadingPlan.collectionOf_among hpreds hpreds' hsub hc
  exact ⟨c', collectionOn_eq_ok.2 ⟨preds', hpreds', plan, hplan, hc'⟩, hagrees⟩

end

variable [Scalar α] [Binary α] [Binary.Lawful α]

/-- Rules do not influence each other. With the shelf left alone and whatever the blocks, where a query has an average
or a collection, so has the query for any of its rules, in any order and number, and under each rule the buckets of
all conditions have exactly the same numbers, weights and rows. -/
theorem answers_among (r : Run) (q : Query) (opts : AverageOptions) (s : Scene) (hne : rules' ≠ [])
    (hsub : rules' ⊆ q.rules) :
    (∀ a : RunAverage α, ((r.average q opts.withoutShelf).run s).1 = .ok a →
      ∃ a' : RunAverage α, ((r.average { q with rules := rules' } opts.withoutShelf).run s).1 = .ok a' ∧
        a.average.Agrees q.rules rules' a'.average) ∧
    (∀ c : RunCollection α, ((r.collect q opts.withoutShelf).run s).1 = .ok c →
      ∃ c' : RunCollection α, ((r.collect { q with rules := rules' } opts.withoutShelf).run s).1 = .ok c' ∧
        c.buckets.Agrees q.rules rules' c'.buckets) := by
  constructor
  · intro a ha
    have hon : r.averageOn s.disk s.memory.offset q opts.blockSize = .ok a.average := by
      rw [← outcome_average r q opts s, ha]
      rfl
    obtain ⟨v, hv, hagrees⟩ := averageOn_among hne hsub hon
    obtain ⟨a', ha', rfl⟩ := map_eq_ok.1 ((outcome_average r _ opts s).trans hv)
    exact ⟨a', ha', hagrees⟩
  · intro c hc
    have hon : r.collectionOn s.disk s.memory.offset q = .ok c.buckets := by
      rw [← outcome_collect r q opts s, hc]
      rfl
    obtain ⟨v, hv, hagrees⟩ := collectionOn_among hsub hon
    obtain ⟨c', hc', rfl⟩ := map_eq_ok.1 ((outcome_collect r _ opts s).trans hv)
    exact ⟨c', hc', hagrees⟩

/-- All shots, those with a high counter, and those where one of the signals is low. -/
def threeRules : Query := { split with rules := [none, some "counter>2", some "slu<1"] }

/-- The last rule twice and then the first. -/
def fewerRules : List (Option String) := [some "slu<1", some "slu<1", none]

theorem answers_among_fourShots : ∃ (a a' : RunAverage Double) (c c' : RunCollection Double),
    ((inMemory.average threeRules AverageOptions.standard.withoutShelf).run filed).1 = .ok a ∧
      ((inMemory.average { threeRules with rules := fewerRules } AverageOptions.standard.withoutShelf).run
        filed).1 = .ok a' ∧
      ((inMemory.collect threeRules AverageOptions.standard.withoutShelf).run filed).1 = .ok c ∧
      ((inMemory.collect { threeRules with rules := fewerRules } AverageOptions.standard.withoutShelf).run
        filed).1 = .ok c' ∧
      a.average.weights.data = [2, 1, 0, 0, 0, 0, 0, 0, 0, 2, 1, 2].map Double.ofNat ∧
      a.average.Agrees threeRules.rules fewerRules a'.average ∧
      c.buckets.Agrees threeRules.rules fewerRules c'.buckets := by
  have hne : fewerRules ≠ [] := by decide
  have hsub : fewerRules ⊆ threeRules.rules := by decide
  obtain ⟨haverages, hcollections⟩ :=
    answers_among (α := Double) inMemory threeRules AverageOptions.standard filed hne hsub
  obtain ⟨a, ha, hweights⟩ : ∃ a : RunAverage Double,
      ((inMemory.average threeRules AverageOptions.standard.withoutShelf).run filed).1 = .ok a ∧
      a.average.weights.data = [2, 1, 0, 0, 0, 0, 0, 0, 0, 2, 1, 2].map Double.ofNat := by decide +kernel
  obtain ⟨c, hc, -⟩ : ∃ c : RunCollection Double,
      ((inMemory.collect threeRules AverageOptions.standard.withoutShelf).run filed).1 = .ok c ∧ True := by
    decide +kernel
  obtain ⟨a', ha', hagrees⟩ := haverages a ha
  obtain ⟨c', hc', hagrees'⟩ := hcollections c hc
  exact ⟨a, a', c, c', ha, ha', hc, hc', hweights, hagrees, hagrees'⟩

end Run
end ShotTally
