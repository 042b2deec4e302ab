/-
Runs that differ in their names and files only and share a shelf that starts empty: every call has
the answer that it has without the shelf, bit for bit. No law of the numbers is used.
-/
import ShotTally.Proofs.Cache.PlainFolder
import ShotTally.Proofs.Run.Session

namespace ShotTally

open Binary (Fits)
open RunSet (Stage)

/-! ## Starting -/

/-- The files of a question and what they come to have lengths that their written form can hold. -/
structure Question.Writable (α : Type) [Scalar α] [Binary α] [Binary.Lawful α] (load : String → Outcome ShotFile)
    (plan : ReadingPlan) (size : Option Nat) (x : Question) : Prop where
  files : Fits x.files
  average : x.operation = .average →
    ∀ rules (v : WeightedAverage α), Rule.Predicate.compileAll x.query.rules = .ok rules →
    plan.totalOf load x.query rules (Cache.blocksOf size x.files) = .ok (some v) → Fits v
  collection : x.operation = .collect → ∀ rules (c : CollectedBuckets α),
    Rule.Predicate.compileAll x.query.rules = .ok rules →
    plan.collectionOf load x.query rules x.files = .ok (some c) → Fits c

/-- Only the files of the question matter. -/
theorem Question.Writable.congr {α : Type} [Scalar α] [Binary α] [Binary.Lawful α]
    {load load' : String → Outcome ShotFile}
    {plan : ReadingPlan} {size : Option Nat} {x : Question} (h : x.Writable α load plan size)
    (hload : ∀ name ∈ x.files, load' name = load name) : x.Writable α load' plan size where
  files := h.files
  average hx rules v hr hv := by
    rw [ReadingPlan.totalOf_congr fun _ hb name hname => hload name (Cache.subset_of_mem_blocksOf hb hname)] at hv
    exact h.average hx rules v hr hv
  collection hx rules c hr hc := by
    rw [ReadingPlan.collectionOf_congr hload] at hc
    exact h.collection hx rules c hr hc

/-- What holds of the value of an outcome can be decided. -/
instance Outcome.decidableForall {β : Type} (o : Outcome β) (P : β → Prop) [∀ b, Decidable (P b)] :
    Decidable (∀ b, o = .ok b → P b) :=
  match o with
  | .error _ => .isTrue fun _ h => by cases h
  | .ok b => decidable_of_iff (P b) ⟨fun hb _ h => by cases h; exact hb, fun h => h b rfl⟩

instance {α : Type} [Scalar α] [Binary α] [Binary.Lawful α] [∀ a : α, Decidable (Fits a)]
    (load : String → Outcome ShotFile)
    (plan : ReadingPlan) (size : Option Nat) (x : Question) : Decidable (x.Writable α load plan size) :=
  decidable_of_iff (Fits x.files ∧
      (x.operation = .average → ∀ rules, Rule.Predicate.compileAll x.query.rules = .ok rules →
        ∀ v, plan.totalOf load x.query rules (Cache.blocksOf size x.files) = .ok v →
          ∀ a : WeightedAverage α, a ∈ v → Fits a) ∧
      (x.operation = .collect → ∀ rules, Rule.Predicate.compileAll x.query.rules = .ok rules →
        ∀ c, plan.collectionOf load x.query rules x.files = .ok c → ∀ b : CollectedBuckets α, b ∈ c → Fits b))
    ⟨fun ⟨hf, ha, hc⟩ => ⟨hf, fun hx rules v hr hv => ha hx rules hr _ hv v rfl,
      fun hx rules c hr hv => hc hx rules hr _ hv c rfl⟩,
    fun ⟨hf, ha, hc⟩ => ⟨hf, fun hx rules hr v hv a hm => ha hx rules a hr (by rw [hv, hm]),
      fun hx rules hr c hv b hm => hc hx rules b hr (by rw [hv, hm])⟩⟩

namespace Ground

variable {α : Type} [Scalar α] [Binary α]

/-- A shelf without artifacts is sound, whatever is settled. -/
theorem sound_of_empty {g : Ground} {settled : Splits → Option ReadingPlan} {d : Disk} (hg : g.good d)
    (hl : ∀ file ∈ g.files, g.store.load d file = g.load file) (he : ∀ shelf ∈ g.shelf, shelf.Empty d) :
    g.Sound α settled d where
  good := hg
  loads := hl
  averages shelf hm := Shelf.holds_of_empty (he shelf hm)
  collections shelf hm := Shelf.holds_of_empty (he shelf hm)

end Ground

/-! ## Kin -/

/-- A run that differs from another in its name and its files at most. -/
def Run.Kin (r₀ r : Run) : Prop := r = { r₀ with name := r.name, files := r.files }

namespace Run.Kin

variable {r₀ r : Run}

theorem store (h : r₀.Kin r) : r.store = r₀.store := by rw [h]

theorem shelf (h : r₀.Kin r) : r.shelf = r₀.shelf := by rw [h]

theorem classifier (h : r₀.Kin r) : r.classifier = r₀.classifier := by rw [h]

theorem planWith (h : r₀.Kin r) (o : Int) : r.planWith o = r₀.planWith o := by rw [h]; rfl

end Run.Kin

namespace Session

variable {α : Type} [Scalar α] [Binary α] [Binary.Lawful α]

/-- The ground of runs that are kin: they read files with one plan and use one block size. -/
def kinGround (r₀ : Run) (o : Int) (size : Option Nat) (files : List String) (d : Disk) (good : Disk → Prop)
    (involved : Question → Prop) : Ground :=
  ⟨r₀.shelf, r₀.store, files, r₀.store.load d, good, involved, (· = size), (· = r₀.planWith o)⟩

variable {r₀ : Run} {shelf : Shelf} {o : Int} {size : Option Nat} {files : List String} {good : Disk → Prop} {d : Disk}
  {involved : Question → Prop}

theorem trusted_kinGround (hshelf : r₀.shelf = some shelf) (hdep : shelf.Dependable r₀.store files good)
    (hpos : size ≠ some 0) (hsep : Shelf.Separate r₀.store.location? involved)
    (hheld : ∀ x, involved x → x.files ⊆ files)
    (hwrite : ∀ x, involved x → x.Writable α (r₀.store.load d) (r₀.planWith o) size) :
    (kinGround r₀ o size files d good involved).Trusted α where
  dependable s hs := by
    obtain rfl : shelf = s := Option.some.inj (hshelf.symm.trans hs)
    exact hdep
  separate := hsep
  filesHeld := hheld
  filesFit x hx := (hwrite x hx).files
  averagesFit files q plan v hx hp := by
    cases hp
    rintro ⟨rules, hrules, hv⟩
    exact (hwrite _ hx).average rfl rules v hrules (hv size rfl)
  collectionsFit files q plan c hx hp := by
    cases hp
    rintro ⟨rules, hrules, hc⟩
    exact (hwrite _ hx).collection rfl rules c hrules hc
  positive k hk := by rw [hk]; exact hpos
  uniform plan q rules files v k k' hk hk' hv := by
    cases hk
    cases hk'
    exact hv

omit [Binary.Lawful α] in
theorem stands_kinGround {stage : Stage} (hkin : ∀ r ∈ runsOn stage, r₀.Kin r)
    (ho : r₀.classifier.modulatorOffset = some o) (hshelf : r₀.shelf = some shelf) (hgood : good stage.disk)
    (hempty : shelf.Empty stage.disk) (hheld : ∀ r ∈ runsOn stage, r.files ⊆ files) :
    (kinGround r₀ o size files stage.disk good involved).Stands α stage := by
  have hon : ∀ (i : Nat) (m : Member), stage.roster[i]? = some m → m.run ∈ runsOn stage := fun i m hm =>
    List.mem_map.2 ⟨m, List.mem_of_getElem? hm, rfl⟩
  have hmem : ∀ (i : Nat) (m : Member), stage.roster[i]? = some m → r₀.Kin m.run := fun i m hm => hkin _ (hon i m hm)
  have hsettled : ∀ (i : Nat) (m : Member), stage.roster[i]? = some m → ∀ offset splits,
      m.run.settledPlan offset splits = some (r₀.planWith o) := fun i m hm offset splits => by
    rw [← (hmem i m hm).planWith]
    exact Run.settledPlan_of_configured (by rw [(hmem i m hm).classifier, ho]) splits
  refine ⟨fun i m hm =>
    ⟨⟨⟨(hmem i m hm).store, hheld _ (hon i m hm)⟩, fun offset splits plan hp => ?_⟩, (hmem i m hm).shelf⟩,
    fun i m hm => Ground.sound_of_empty hgood (fun _ _ => rfl) fun s hs => ?_,
    fun i j m m' hm hm' _ offset offset' => ?_⟩
  · rw [hsettled i m hm] at hp
    exact (Option.some.inj hp).symm
  · obtain rfl : shelf = s := Option.some.inj (hshelf.symm.trans hs)
    exact hempty
  · exact funext fun splits => by rw [hsettled i m hm, hsettled j m' hm']

/-- Calls on runs that read the same store in the same way and share a shelf that starts empty have
the answers that they have without the shelf. -/
theorem answers_eq_withoutShelf {stage : Stage} {requests : List Request} (hkin : ∀ r ∈ runsOn stage, r₀.Kin r)
    (ho : r₀.classifier.modulatorOffset = some o) (hshelf : r₀.shelf = some shelf)
    (hdep : shelf.Dependable r₀.store (filesOf (runsOn stage) requests) good) (hgood : good stage.disk)
    (hempty : shelf.Empty stage.disk) (hpos : size ≠ some 0)
    (hsize : ∀ x ∈ requests, ∀ q opts, x.call = .average q opts → opts.blockSize = size)
    (hsep : Shelf.Separate r₀.store.location? (· ∈ questions (runsOn stage) requests))
    (hnow : ∀ x ∈ requests, Fits x.now)
    (hwrite : ∀ x ∈ questions (runsOn stage) requests,
      x.Writable α (r₀.store.load stage.disk) (r₀.planWith o) size) :
    (answers stage requests : List (Answer α)) = answers stage (requests.map Request.withoutShelf) := by
  have ht := trusted_kinGround (d := stage.disk) hshelf hdep hpos hsep (fun _ => subset_filesOf_of_mem_questions) hwrite
  have hst : (kinGround r₀ o size (filesOf (runsOn stage) requests) stage.disk good
      (· ∈ questions (runsOn stage) requests)).Stands α stage :=
        stands_kinGround hkin ho hshelf hgood hempty fun _ => subset_filesOf_of_run
  refine answers_of_stands ht hst hst rfl (o := o) (fun r hr => ?_) hnow hsize (fun _ hy => hy) fun _ =>
    subset_filesOf_of_request
  rw [(hkin r hr).classifier, ho]

/-! ## Two runs that share a shelf -/

/-- Two shots of a quantity `q`. -/
def twoShots : ShotFile :=
  .ofList [("bunches", .numeric ⟨[2], [.zero, .one]⟩), ("q", .numeric ⟨[2], [.one, .one]⟩)]

/-- A run over one file in memory. -/
def single : Run :=
  { Run.ofFiles "first" (.memory (.ofList [("a", twoShots)])) ["a"] with
    classifier := { Classifier.standard with modulatorOffset := some 0 }
    shelf := some ⟨"work"⟩ }

/-- Two runs that are alike but for their names. -/
def twins : Stage := ⟨[⟨single, .fresh⟩, ⟨{ single with name := "second" }, .fresh⟩], .empty [], [], ""⟩

/-- The first run keeps what it computes, and the second one recalls it. -/
def twinCalls : List Request :=
  [⟨0, "", .average (.all "q") .standard⟩, ⟨1, "", .average (.all "q") .standard⟩,
    ⟨1, "", .collect (.all "q") .standard⟩, ⟨0, "", .addFiles ["b"]⟩]

theorem answers_twins_eq_withoutShelf :
    (answers twins twinCalls : List (Answer Double)) = answers twins (twinCalls.map Request.withoutShelf) := by
  have hplain : Path.Plain (Shelf.root ⟨"work"⟩) := ⟨by decide, by decide, by decide, by decide⟩
  have hsep : Shelf.Separate none (· ∈ questions (runsOn twins) twinCalls) := Shelf.separate_of_nodup
    [⟨.average, ["a"], .all "q"⟩, ⟨.collect, ["a"], .all "q"⟩]
    (by decide) (by decide +kernel)
  have hwrite : ∀ x ∈ questions (runsOn twins) twinCalls,
      x.Writable Double (single.store.load (.empty [])) (single.planWith 0) none := by decide +kernel
  have hkin : ∀ r ∈ runsOn twins, single.Kin r := by
    intro r hr
    rcases List.mem_pair.1 hr with rfl | rfl <;> rfl
  have hshelf : single.shelf = some ⟨"work"⟩ := rfl
  have hsize : ∀ x ∈ twinCalls, ∀ q opts, x.call = .average q opts → opts.blockSize = none := by
    intro x hx q opts hc
    simp only [twinCalls, List.mem_cons, List.not_mem_nil, or_false] at hx
    rcases hx with rfl | rfl | rfl | rfl <;> cases hc <;> rfl
  exact answers_eq_withoutShelf hkin rfl hshelf (Shelf.dependable_of_plain hplain _ _) (Shelf.kept_empty _)
    (Shelf.empty_of_unmade hplain (Shelf.kept_empty _) rfl) (by decide) hsize hsep (by decide) hwrite

end Session
end ShotTally
