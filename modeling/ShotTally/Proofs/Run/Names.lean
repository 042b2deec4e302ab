/-
Two names that lead to one file are as good as each other: what is computed from files, where it
succeeds, depends on the paths of the files only.
-/
import ShotTally.Cache.Key
import ShotTally.Proofs.Cache.Block
import ShotTally.Proofs.Run.Plain

namespace ShotTally

variable {α : Type} [Scalar α]

/-! ## Steps that succeed together -/

/-- Where the steps on related items succeed with related results, so do the lists. -/
theorem mapM_ok_of_forall₂ {ι κ β γ : Type} {R : ι → κ → Prop} {S : β → γ → Prop} {f : ι → Outcome β}
    {g : κ → Outcome γ}
    (hfg : ∀ a b x, R a b → f a = .ok x → ∃ y, g b = .ok y ∧ S x y) : ∀ {l : List ι} {m : List κ} {xs : List β},
    List.Forall₂ R l m → l.mapM f = .ok xs → ∃ ys, m.mapM g = .ok ys ∧ List.Forall₂ S xs ys
  | [], [], xs, _, h => by cases h; exact ⟨[], rfl, .nil⟩
  | a :: l, b :: m, xs, .cons hab hlm, h => by
    rw [List.mapM_cons, bind_eq_ok] at h
    obtain ⟨x, hx, h⟩ := h
    obtain ⟨xs, hxs, h⟩ := bind_eq_ok.1 h
    cases h
    obtain ⟨y, hy, hxy⟩ := hfg a b x hab hx
    obtain ⟨ys, hys, hs⟩ := mapM_ok_of_forall₂ hfg hlm hxs
    rw [List.mapM_cons, hy, ok_bind, hys]
    exact ⟨_, rfl, .cons hxy hs⟩

/-- With equal results. -/
theorem mapM_ok_congr {ι κ β : Type} {R : ι → κ → Prop} {f : ι → Outcome β} {g : κ → Outcome β}
    (hfg : ∀ a b x, R a b → f a = .ok x → g b = .ok x) {l : List ι} {m : List κ} {xs : List β}
    (hlm : List.Forall₂ R l m) (h : l.mapM f = .ok xs) : m.mapM g = .ok xs := by
  obtain ⟨ys, hys, hs⟩ := mapM_ok_of_forall₂ (S := Eq) (fun a b x hab hx => ⟨x, hfg a b x hab hx, rfl⟩) hlm h
  rw [List.forall₂_eq_eq_eq] at hs
  rw [hys, hs]

/-! ## Names of one file -/

namespace Store

/-- Two names that lead to the same file. -/
def SamePlace (s : Store) (a b : String) : Prop := ∀ d f, s.load d a = .ok f → s.load d b = .ok f

/-- Equal paths lead to the same files. -/
theorem samePlace_of_filePaths {s : Store} {files files' : List String}
    (h : Cache.filePaths s.location? files = Cache.filePaths s.location? files') :
    List.Forall₂ s.SamePlace files files' := by
  cases s with
  | memory m =>
    obtain rfl : files = files' := h
    exact List.forall₂_same.2 fun _ _ _ _ hf => hf
  | folder root =>
    have hp : List.Forall₂ (fun a b => Path.join root a = Path.join root b) files files' := by
      rw [← List.forall₂_map_left_iff (f := Path.join root) (R := fun p b => p = Path.join root b),
        ← List.forall₂_map_right_iff (f := Path.join root) (R := fun p q => p = q), List.forall₂_eq_eq_eq]
      exact h
    refine hp.imp fun a b hab d f hf => ?_
    simp only [load] at hf ⊢
    rw [← hab]
    split at hf
    · rename_i hfile
      rwa [if_pos hfile]
    · cases hf

end Store

/-! ## What is computed from files -/

/-- The average of some buckets. -/
def FileBuckets.average (b : FileBuckets α) : Outcome (WeightedAverage α) := do (← b.sums).average

theorem FileBuckets.average_renamed (b : FileBuckets α) (name : String) :
    ({ b with file := name } : FileBuckets α).average = b.average := by
  unfold FileBuckets.average FileBuckets.sums
  simp only [bind_assoc]
  rfl

namespace ReadingPlan

variable {plan : ReadingPlan} {load : String → Outcome ShotFile} {q : Query} {rules : List Rule.Predicate}
  {a b : String}

/-- Whether the second name leads wherever the first one does. -/
def Follows (load : String → Outcome ShotFile) (a b : String) : Prop := ∀ f, load a = .ok f → load b = .ok f

theorem bucketsOf_renamed (h : Follows load a b) {x : Option (FileBuckets α)}
    (hx : plan.bucketsOf load q rules a = .ok x) :
    plan.bucketsOf load q rules b = .ok (x.map fun buckets => { buckets with file := b }) := by
  obtain ⟨f, hf, hx⟩ := bind_eq_ok.1 hx
  rw [Outcome.within_eq_ok] at hx
  exact bind_eq_ok.2 ⟨f, h f hf, Outcome.within_eq_ok.2 (sorted_renamed b hx)⟩

theorem averageOf_renamed (h : Follows load a b) {x : Option (WeightedAverage α)}
    (hx : plan.averageOf load q rules a = .ok x) : plan.averageOf load q rules b = .ok x := by
  obtain ⟨buckets, hb, hx⟩ := bind_eq_ok.1 hx
  refine bind_eq_ok.2 ⟨_, bucketsOf_renamed h hb, ?_⟩
  cases buckets with
  | none => exact hx
  | some buckets =>
    have he := buckets.average_renamed b
    unfold FileBuckets.average at he
    dsimp only [Option.map_some] at hx ⊢
    rw [he]
    exact hx

theorem totalOf_renamed {blocks blocks' : List (List String)}
    (h : List.Forall₂ (List.Forall₂ (Follows load)) blocks blocks')
    {x : Option (WeightedAverage α)} (hx : plan.totalOf load q rules blocks = .ok x) :
    plan.totalOf load q rules blocks' = .ok x := by
  obtain ⟨fresh, hfresh, hx⟩ := bind_eq_ok.1 hx
  exact bind_eq_ok.2 ⟨fresh,
    mapM_ok_congr (fun _ _ _ hb => mapM_ok_congr (fun _ _ _ hab => averageOf_renamed hab) hb) h hfresh, hx⟩

omit [Scalar α] in
theorem joinBuckets_congr {l m : List (FileBuckets α)} (h : l.map FileBuckets.rows = m.map FileBuckets.rows) :
    Run.joinBuckets l = Run.joinBuckets m := by
  have hrows : ∀ bucket : Nat, l.filterMap (fun f => f.rows[bucket]?) = m.filterMap fun f => f.rows[bucket]? := by
    intro bucket
    have hm : ∀ k : List (FileBuckets α), k.filterMap (fun f => f.rows[bucket]?) =
        (k.map FileBuckets.rows).filterMap fun rows => rows[bucket]? := fun k => by rw [List.filterMap_map]; rfl
    rw [hm l, hm m, h]
  rcases l with _ | ⟨x, l⟩ <;> rcases m with _ | ⟨y, m⟩
  · rfl
  · cases h
  · cases h
  · unfold Run.joinBuckets
    simp only [hrows, (List.cons.inj h).1]

theorem collectionOf_renamed {files files' : List String} (h : List.Forall₂ (Follows load) files files')
    {x : Option (CollectedBuckets α)} (hx : plan.collectionOf load q rules files = .ok x) :
    plan.collectionOf load q rules files' = .ok x := by
  obtain ⟨compiled, hc, hx⟩ := bind_eq_ok.1 hx
  obtain ⟨compiled', hc', hs⟩ := mapM_ok_of_forall₂
    (S := fun x y : Option (FileBuckets α) => x.map FileBuckets.rows = y.map FileBuckets.rows)
    (fun _ b _ hab hx => ⟨_, bucketsOf_renamed (b := b) hab hx, by rw [Option.map_map]; rfl⟩) h hc
  refine bind_eq_ok.2 ⟨compiled', hc', ?_⟩
  -- the same rows in the same order, whatever the files are called
  have hpresent : (compiled.filterMap id).map FileBuckets.rows = (compiled'.filterMap id).map FileBuckets.rows := by
    clear hc hc' hx
    induction hs with
    | nil => rfl
    | @cons x y l m hxy _ ih =>
      cases x <;> cases y
      · exact ih
      · cases hxy
      · cases hxy
      · exact congrArg₂ List.cons (Option.some.inj hxy) ih
  cases hp : compiled.filterMap id <;> cases hp' : compiled'.filterMap id <;> rw [hp, hp'] at hpresent
  · rw [hp] at hx
    exact hx
  · cases hpresent
  · cases hpresent
  · rw [hp] at hx
    dsimp only at hx ⊢
    rw [← joinBuckets_congr hpresent]
    exact hx

end ReadingPlan

/-! ## What runs compute -/

namespace Run

open ReadingPlan (Follows)

variable {r : Run} {d d' : Disk} {name : String} {held : List String} {offset offset' : Option Int}

/-- The offset is found from the files that the names lead to. -/
theorem detectOffsetIn_renamed {o : Int} : ∀ {files files' : List String},
    (∀ file ∈ files', r.store.load d' file = r.store.load d file) →
    List.Forall₂ (Follows (r.store.load d)) files files' →
    r.detectOffsetIn d files = .ok o → ({ r with name := name, files := held } : Run).detectOffsetIn d' files' = .ok o
  | [], [], _, _, h => by cases h
  | a :: files, b :: files', hl, .cons hab hs, h => by
    obtain ⟨file, hfile, h⟩ := bind_eq_ok.1 h
    obtain ⟨found, hfound, h⟩ := bind_eq_ok.1 h
    have hload : r.store.load d' b = .ok file := (hl b List.mem_cons_self).trans (hab file hfile)
    refine bind_eq_ok.2 ⟨file, hload, bind_eq_ok.2 ⟨found, hfound, ?_⟩⟩
    cases found with
    | some x => exact h
    | none => exact detectOffsetIn_renamed (fun file hf => hl file (List.mem_cons_of_mem b hf)) hs h

/-- Two runs take one offset: the same is known of it to both, or it is known to one of them and the other finds it in
its files. -/
inductive OneOffset (r r' : Run) (d d' : Disk) (offset offset' : Option Int) : Prop
  | known (h : r.knownOffset offset = r'.knownOffset offset')
  | found {p : Int} (unknown : r.knownOffset offset = none) (found : r.detectOffsetIn d r.files = .ok p)
      (known : r'.knownOffset offset' = some p)
  | remembered {p : Int} (known : r.knownOffset offset = some p) (unknown : r'.knownOffset offset' = none)
      (found : r'.detectOffsetIn d' r'.files = .ok p)

/-- The plan, where both runs take one offset or no offset is needed. -/
theorem planOn_renamed (hl : ∀ file ∈ held, r.store.load d' file = r.store.load d file)
    (hf : List.Forall₂ (Follows (r.store.load d)) r.files held) {splits : Splits}
    (ho : r.NeedsOffset splits → OneOffset r { r with name := name, files := held } d d' offset offset')
    {plan : ReadingPlan} (h : r.planOn d offset splits = .ok plan) :
    ({ r with name := name, files := held } : Run).planOn d' offset' splits = .ok plan := by
  have hsettled : ({ r with name := name, files := held } : Run).settledPlan offset' splits =
      r.settledPlan offset' splits := rfl
  unfold planOn at h ⊢
  rw [hsettled]
  by_cases hn : r.NeedsOffset splits
  · have hs : ∀ m, r.settledPlan m splits = (r.knownOffset m).map r.planWith := fun _ => if_pos hn
    rw [hs] at h ⊢
    cases ho hn with
    | known hk =>
      have hk' : r.knownOffset offset = r.knownOffset offset' := hk
      rw [← hk']
      cases hk : r.knownOffset offset with
      | some o =>
        rw [hk] at h
        exact h
      | none =>
        -- neither run knows the offset: both look for it in their files
        rw [hk] at h
        obtain ⟨o, hd, rfl⟩ := map_eq_ok.1 h
        exact map_eq_ok.2 ⟨o, detectOffsetIn_renamed hl hf hd, rfl⟩
    | found unknown found known =>
      have hk' : r.knownOffset offset' = some _ := known
      rw [unknown, Option.map_none, found] at h
      rw [hk']
      exact h
    | remembered known unknown found =>
      have hk' : r.knownOffset offset' = none := unknown
      rw [known] at h
      rw [hk', Option.map_none, found]
      exact h
  · have hs : ∀ m, r.settledPlan m splits = some (r.planWith (r.classifier.modulatorOffset.getD 0)) :=
      fun _ => if_neg hn
    rw [hs] at h ⊢
    exact h

theorem averageOn_renamed (hl : ∀ file ∈ held, r.store.load d' file = r.store.load d file)
    (hf : List.Forall₂ (Follows (r.store.load d)) r.files held) {q : Query} {size : Option Nat}
    (ho : r.NeedsOffset q.splits → OneOffset r { r with name := name, files := held } d d' offset offset')
    {a : WeightedAverage α} (h : r.averageOn d offset q size = .ok a) :
    ({ r with name := name, files := held } : Run).averageOn d' offset' q size = .ok a := by
  have hs := positive_of_averageOn h
  obtain ⟨hne, rules, hrules, plan, hplan, htotal⟩ := (averageOn_eq_ok hs).1 h
  refine (averageOn_eq_ok hs).2 ⟨?_, rules, hrules, plan, planOn_renamed hl hf ho hplan, ?_⟩
  · rintro rfl
    exact hne (List.forall₂_nil_right_iff.1 hf)
  · show plan.totalOf (r.store.load d') q rules (Cache.blocksOf size held) = _
    rw [ReadingPlan.totalOf_congr fun _ hb file hfile => hl file (Cache.subset_of_mem_blocksOf hb hfile)]
    exact ReadingPlan.totalOf_renamed (Cache.forall₂_blocksOf size hf) htotal

end Run
end ShotTally
