/-
Two averages over the same blocks of files, side by side. What the averages of each file have to do with
each other, and combining keeps, the two totals have to do with each other; and all that goes into a total
has its shape.
-/
import ShotTally.Proofs.Bucket.Evenness
import ShotTally.Proofs.Run.Names

namespace ShotTally

variable {α : Type} [Scalar α]

namespace WeightedAverage

/-! ## Related averages -/

/-- Where averages are combined so are related ones, and the results are related. -/
def Carries (R : WeightedAverage α → WeightedAverage α → Prop) : Prop :=
  ∀ a a' b b' v, R a a' → R b b' → a.combine b = .ok v → ∃ v', a'.combine b' = .ok v' ∧ R v v'

variable {R : WeightedAverage α → WeightedAverage α → Prop}

theorem Carries.foldlM (hR : Carries R) {others others' : List (WeightedAverage α)}
    (h : List.Forall₂ R others others') :
    ∀ {a a' v : WeightedAverage α}, R a a' → others.foldlM combine a = .ok v →
      ∃ v', others'.foldlM combine a' = .ok v' ∧ R v v' := by
  induction h with
  | nil =>
    rintro a a' v ha ⟨⟩
    exact ⟨a', rfl, ha⟩
  | cons hb _ ih =>
    intro a a' v ha hv
    obtain ⟨m, hm, hv⟩ := bind_eq_ok.1 (List.foldlM_cons.symm.trans hv)
    obtain ⟨m', hm', hrel⟩ := hR _ _ _ _ m ha hb hm
    obtain ⟨v', hv', hfinal⟩ := ih hrel hv
    exact ⟨v', by rw [List.foldlM_cons, hm', ok_bind, hv'], hfinal⟩

/-! ## One shape -/

/-- Averages of the same buckets and data. -/
structure SameShape (a b : WeightedAverage α) : Prop where
  average : a.average.shape = b.average.shape
  bucketShape : a.bucketShape = b.bucketShape

omit [Scalar α] in
theorem SameShape.trans {a b c : WeightedAverage α} (h : a.SameShape b) (h' : b.SameShape c) : a.SameShape c :=
  ⟨h.average.trans h'.average, h.bucketShape.trans h'.bucketShape⟩

omit [Scalar α] in
theorem SameShape.dataShape_eq {a b : WeightedAverage α} (h : a.SameShape b) : a.dataShape = b.dataShape := by
  rw [dataShape, dataShape, h.average, h.bucketShape]

theorem sameShape_of_combine {a b v : WeightedAverage α} (h : a.combine b = .ok v) : a.SameShape v ∧ b.SameShape v := by
  unfold combine at h
  split at h
  · cases h
  · rename_i hshape
    cases h
    rw [not_or, not_not, not_not] at hshape
    exact ⟨⟨rfl, rfl⟩, hshape.1.symm, hshape.2.symm⟩

theorem sameShape_of_foldlM {others : List (WeightedAverage α)} : ∀ {a v : WeightedAverage α},
    others.foldlM combine a = .ok v → ∀ x ∈ a :: others, x.SameShape v := by
  induction others with
  | nil =>
    intro a v h x hx
    cases h
    rw [List.mem_singleton.1 hx]
    exact ⟨rfl, rfl⟩
  | cons b others ih =>
    intro a v h x hx
    obtain ⟨m, hm, h⟩ := bind_eq_ok.1 (List.foldlM_cons.symm.trans h)
    obtain ⟨ha, hb⟩ := sameShape_of_combine hm
    have hall := ih h
    rcases List.mem_cons.1 hx with rfl | hx
    · exact ha.trans (hall m List.mem_cons_self)
    rcases List.mem_cons.1 hx with rfl | hx
    · exact hb.trans (hall m List.mem_cons_self)
    · exact hall x (List.mem_cons_of_mem _ hx)

end WeightedAverage

namespace ReadingPlan

open WeightedAverage (Carries SameShape)

variable {R : WeightedAverage α → WeightedAverage α → Prop} {plan plan' : ReadingPlan}
    {load load' : String → Outcome ShotFile}
  {q q' : Query} {rules rules' : List Rule.Predicate} {blocks : List (List String)}

/-! ## Files -/

/-- Without rules there is no average. -/
theorem averageOf_of_nil (hq : q.rules = []) {name : String} {o : Option (WeightedAverage α)}
    (h : plan.averageOf load q rules name = .ok o) : o = none := by
  obtain ⟨x, hx, h⟩ := bind_eq_ok.1 h
  cases x with
  | none => cases h; rfl
  | some b =>
    obtain ⟨file, -, hsorted⟩ := bind_eq_ok.1 hx
    obtain ⟨-, -, hcount, -⟩ := even_of_sorted (Outcome.within_eq_ok.1 hsorted)
    -- without rules there are no buckets, and nothing cannot be stacked
    have hnil : b.rows = [] := by
      rw [Query.bucketShape, hq] at hcount
      exact List.length_eq_zero_iff.1 hcount
    have hsums : b.sums = fail (Report.new .stats "stack_empty" "nothing to stack") := by
      unfold FileBuckets.sums
      rw [hnil]
      rfl
    dsimp only at h
    rw [hsums] at h
    cases h

/-! ## Totals -/

theorem foldPresent_carried (hR : Carries R) {os os' : List (Option (WeightedAverage α))}
    {o : Option (WeightedAverage α)} (h : List.Forall₂ (Option.Rel R) os os') (ho : foldPresent os = .ok o) :
    ∃ o', foldPresent os' = .ok o' ∧ Option.Rel R o o' := by
  have hpresent := forall₂_present h
  unfold foldPresent at ho ⊢
  generalize os.filterMap id = present at hpresent ho
  generalize os'.filterMap id = present' at hpresent ⊢
  cases hpresent with
  | nil =>
    cases ho
    exact ⟨none, rfl, .none⟩
  | cons hfirst hothers =>
    obtain ⟨v, hv, rfl⟩ := map_eq_ok.1 ho
    obtain ⟨v', hv', hrel⟩ := hR.foldlM hothers hfirst hv
    exact ⟨some v', map_eq_ok.2 ⟨v', hv', rfl⟩, .some hrel⟩

/-- Related averages of every file have related totals. -/
theorem totalOf_carried (hR : Carries R)
    (hfile : ∀ name ∈ blocks.flatten, ∀ o, plan.averageOf load q rules name = .ok o →
      ∃ o', plan'.averageOf load' q' rules' name = .ok o' ∧ Option.Rel R o o') {o : Option (WeightedAverage α)}
    (h : plan.totalOf load q rules blocks = .ok o) :
    ∃ o', plan'.totalOf load' q' rules' blocks = .ok o' ∧ Option.Rel R o o' := by
  obtain ⟨fresh, hfresh, h⟩ := bind_eq_ok.1 h
  obtain ⟨os, hos, ho⟩ := bind_eq_ok.1 h
  -- first over the files of a block, then over the blocks
  have hblock : ∀ (files files' : List String) (averages : List (Option (WeightedAverage α))),
      files = files' ∧ files ∈ blocks → files.mapM (plan.averageOf load q rules) = .ok averages →
      ∃ averages', files'.mapM (plan'.averageOf load' q' rules') = .ok averages' ∧
        List.Forall₂ (Option.Rel R) averages averages' := by
    rintro files _ averages ⟨rfl, hmem⟩ h
    refine mapM_ok_of_forall₂ (R := fun name name' => name = name' ∧ name ∈ files) ?_
      (List.forall₂_same.2 fun name hname => ⟨rfl, hname⟩) h
    rintro name _ o ⟨rfl, hname⟩ ho
    exact hfile name (List.mem_flatten_of_mem hmem hname) o ho
  obtain ⟨fresh', hfresh', hall⟩ := mapM_ok_of_forall₂ hblock (List.forall₂_same.2 fun files hmem => ⟨rfl, hmem⟩) hfresh
  have hfold : ∀ (averages averages' : List (Option (WeightedAverage α))) (o : Option (WeightedAverage α)),
      List.Forall₂ (Option.Rel R) averages averages' → foldPresent averages = .ok o →
      ∃ o', foldPresent averages' = .ok o' ∧ Option.Rel R o o' := fun _ _ _ => foldPresent_carried hR
  obtain ⟨os', hos', hfolded⟩ := mapM_ok_of_forall₂ hfold hall hos
  obtain ⟨o', ho', hrel⟩ := foldPresent_carried hR hfolded ho
  exact ⟨o', bind_eq_ok.2 ⟨fresh', hfresh', bind_eq_ok.2 ⟨os', hos', ho'⟩⟩, hrel⟩

/-- Averages that are there are folded to one, of their shape. -/
theorem sameShape_of_foldPresent {os : List (Option (WeightedAverage α))} {o : Option (WeightedAverage α)}
    (h : foldPresent os = .ok o) {x : WeightedAverage α} (hx : some x ∈ os) : ∃ v, o = some v ∧ x.SameShape v := by
  have hmem : x ∈ os.filterMap id := List.mem_filterMap.2 ⟨some x, hx, rfl⟩
  unfold foldPresent at h
  cases hpresent : os.filterMap id with
  | nil =>
    rw [hpresent] at hmem
    cases hmem
  | cons first others =>
    rw [hpresent] at h hmem
    obtain ⟨v, hv, rfl⟩ := map_eq_ok.1 h
    exact ⟨v, rfl, WeightedAverage.sameShape_of_foldlM hv x hmem⟩

/-- The average of every file has the shape of the total. -/
theorem sameShape_of_totalOf {v : WeightedAverage α} (h : plan.totalOf load q rules blocks = .ok (some v))
    {name : String}
    (hname : name ∈ blocks.flatten) {x : WeightedAverage α} (hx : plan.averageOf load q rules name = .ok (some x)) :
    x.SameShape v := by
  obtain ⟨fresh, hfresh, h⟩ := bind_eq_ok.1 h
  obtain ⟨os, hos, ho⟩ := bind_eq_ok.1 h
  obtain ⟨files, hfiles, hmem⟩ := List.mem_flatten.1 hname
  obtain ⟨averages, haverages, hblock⟩ := exists_mem_of_mapM hfresh hfiles
  obtain ⟨o, hsome, hread⟩ := exists_mem_of_mapM hblock hmem
  obtain rfl : some x = o := Except.ok.inj (hx.symm.trans hread)
  obtain ⟨o, hfolded, hfold⟩ := exists_mem_of_mapM hos haverages
  obtain ⟨w, rfl, hw⟩ := sameShape_of_foldPresent hfold hsome
  obtain ⟨v', hv', hv⟩ := sameShape_of_foldPresent ho hfolded
  obtain rfl := Option.some.inj hv'
  exact hw.trans hv

end ReadingPlan

/-! ## Plans -/

/-- The plan of a run is its settings with some offset of the modulator. -/
theorem Run.exists_planWith {r : Run} {d : Disk} {offset : Option Int} {splits : Splits} {plan : ReadingPlan}
    (h : r.planOn d offset splits = .ok plan) : ∃ o, plan = r.planWith o := by
  unfold planOn at h
  split at h
  · rename_i plan' hsettled
    cases h
    unfold settledPlan at hsettled
    split at hsettled
    · obtain ⟨o, -, rfl⟩ := Option.map_eq_some_iff.1 hsettled
      exact ⟨o, rfl⟩
    · cases hsettled
      exact ⟨_, rfl⟩
  · obtain ⟨o, -, rfl⟩ := map_eq_ok.1 h
    exact ⟨o, rfl⟩

end ShotTally
