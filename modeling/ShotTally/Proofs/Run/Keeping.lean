/-
What runs share when they share a shelf: every artifact that is found holds what its question comes
to, and keeping a result that was computed preserves that.
-/
import ShotTally.Proofs.Cache.Dependable
import ShotTally.Proofs.Run.Names

namespace ShotTally

open Binary (Fits)

/-! ## The common ground of some runs -/

/-- What some runs have in common, the files that they may read, the questions that they ask, the block sizes that they
use, the plans that they may read files with, and the disks on which the shelf can be depended on. -/
structure Ground where
  shelf : Option Shelf
  store : Store
  files : List String
  load : String → Outcome ShotFile
  good : Disk → Prop
  involved : Question → Prop
  sizes : Option Nat → Prop
  plans : ReadingPlan → Prop

namespace Ground

variable {α : Type} [Scalar α]

/-- What the files come to, whichever of the block sizes is used. -/
def IsAverage (g : Ground) (plan : ReadingPlan) (files : List String) (q : Query) (v : WeightedAverage α) : Prop :=
  ∃ rules, Rule.Predicate.compileAll q.rules = .ok rules ∧
    ∀ size, g.sizes size → plan.totalOf g.load q rules (Cache.blocksOf size files) = .ok (some v)

def IsCollection (g : Ground) (plan : ReadingPlan) (files : List String) (q : Query) (c : CollectedBuckets α) : Prop :=
  ∃ rules, Rule.Predicate.compileAll q.rules = .ok rules ∧ plan.collectionOf g.load q rules files = .ok (some c)

variable [Binary α]

/-- The shelf can be depended on, different questions have different keys and are about the files of the ground, results
fit the form they are written in, and the block sizes make no difference. -/
structure Trusted (α : Type) [Scalar α] [Binary α] [Binary.Lawful α] (g : Ground) : Prop where
  dependable : ∀ s ∈ g.shelf, s.Dependable g.store g.files g.good
  separate : Shelf.Separate g.store.location? g.involved
  filesHeld : ∀ x, g.involved x → x.files ⊆ g.files
  filesFit : ∀ x, g.involved x → Fits x.files
  averagesFit : ∀ files q plan (v : WeightedAverage α), g.involved ⟨.average, files, q⟩ → g.plans plan →
    g.IsAverage plan files q v → Fits v
  collectionsFit : ∀ files q plan (c : CollectedBuckets α), g.involved ⟨.collect, files, q⟩ → g.plans plan →
    g.IsCollection plan files q c → Fits c
  positive : ∀ size, g.sizes size → size ≠ some 0
  uniform : ∀ (plan : ReadingPlan) (q : Query) (rules : List Rule.Predicate) (files : List String)
    (v : WeightedAverage α) (size size' : Option Nat), g.sizes size → g.sizes size' →
    plan.totalOf g.load q rules (Cache.blocksOf size files) = .ok (some v) →
      plan.totalOf g.load q rules (Cache.blocksOf size' files) = .ok (some v)

/-- The average that an artifact has to hold, given the plans that are settled. -/
def RightAverage (g : Ground) (settled : Splits → Option ReadingPlan) (files : List String) (q : Query)
    (v : WeightedAverage α) : Prop :=
  ∃ plan, settled q.splits = some plan ∧ g.plans plan ∧ g.IsAverage plan files q v

def RightCollection (g : Ground) (settled : Splits → Option ReadingPlan) (files : List String) (q : Query)
    (c : CollectedBuckets α) : Prop :=
  ∃ plan, settled q.splits = some plan ∧ g.plans plan ∧ g.IsCollection plan files q c

/-- A disk on which the shelf can be depended on, the data are the ones known, and every artifact
that is found holds what its question comes to. -/
structure Sound (α : Type) [Scalar α] [Binary α] (g : Ground) (settled : Splits → Option ReadingPlan) (d : Disk) :
    Prop where
  good : g.good d
  loads : ∀ file ∈ g.files, g.store.load d file = g.load file
  averages : ∀ s ∈ g.shelf, s.Holds g.store.location? g.involved .average (g.RightAverage (α := α) settled) d
  collections : ∀ s ∈ g.shelf, s.Holds g.store.location? g.involved .collect (g.RightCollection (α := α) settled) d

/-- More plans may become settled. -/
theorem Sound.mono {g : Ground} {settled settled' : Splits → Option ReadingPlan} {d : Disk} (h : g.Sound α settled d)
    (hs : ∀ splits plan, settled splits = some plan → settled' splits = some plan) : g.Sound α settled' d where
  good := h.good
  loads := h.loads
  averages s hm files q hx a ha := by
    obtain ⟨plan, hp, hv⟩ := h.averages s hm files q hx a ha
    exact ⟨plan, hs _ _ hp, hv⟩
  collections s hm files q hx a ha := by
    obtain ⟨plan, hp, hv⟩ := h.collections s hm files q hx a ha
    exact ⟨plan, hs _ _ hp, hv⟩

/-- Files with the same paths come to the same. -/
theorem follows_of_filePaths {g : Ground} {d : Disk} (hl : ∀ file ∈ g.files, g.store.load d file = g.load file) :
    ∀ {files files' : List String}, files ⊆ g.files → files' ⊆ g.files →
      Cache.filePaths g.store.location? files = Cache.filePaths g.store.location? files' →
      List.Forall₂ (ReadingPlan.Follows g.load) files files' := by
  intro files files' hfiles hfiles' h
  refine List.forall₂_iff_get.2 ⟨(Store.samePlace_of_filePaths h).length_eq, fun i hi hi' f hf => ?_⟩
  have hplace := (List.forall₂_iff_get.1 (Store.samePlace_of_filePaths h)).2 i hi hi'
  rw [← hl _ (hfiles (List.get_mem _ _))] at hf
  rw [← hl _ (hfiles' (List.get_mem _ _))]
  exact hplace d f hf

end Ground

/-! ## Keeping a value -/

namespace Run

variable {β : Type} [Binary β]

/-- Keeping a value on a shelf that can be depended on. -/
theorem run_keep {r : Run} {files : List String} {good : Disk → Prop}
    (hd : ∀ s ∈ r.shelf, s.Dependable r.store files good) (operation : Cache.Operation) (text : String)
    (inputs : List String) (value : β) {s : Scene} (hs : good s.disk) :
    ∃ d, (r.keep operation (Sha256.hexOf text) inputs value).run s =
        (.ok (r.recalled operation (Sha256.hexOf text) inputs), { s with disk := d }) ∧ good d ∧
      (∀ shelf ∈ r.shelf, d.read? (shelf.path operation.name (Sha256.hexOf text)) =
          some (Binary.encode (Artifact.make (Sha256.hexOf text) inputs s.now value)) ∧
        ∀ (operation' : Cache.Operation) (text' : String),
          ¬ (operation' = operation ∧ Sha256.hexOf text' = Sha256.hexOf text) →
            d.read? (shelf.path operation'.name (Sha256.hexOf text')) =
              s.disk.read? (shelf.path operation'.name (Sha256.hexOf text'))) ∧
      ∀ file ∈ files, r.store.load d file = r.store.load s.disk file := by
  unfold keep recalled
  rcases hr : r.shelf with _ | shelf
  · exact ⟨s.disk, rfl, hs, by simp, fun _ _ => rfl⟩
  · obtain ⟨d, hrun, hg, hread, hother, hload⟩ := (hd shelf hr).save hs operation text inputs s.now value
    refine ⟨d, ?_, hg, ?_, hload⟩
    · refine (Job.run_bind_ok (x := (get : Job Scene)) (s := s) rfl).trans ?_
      exact Job.run_bind_ok (Job.run_writing hrun)
    · intro shelf' hm
      cases hm
      exact ⟨hread, hother⟩

end Run

namespace Ground

variable {α : Type} [Scalar α] [Binary α] [Binary.Lawful α]

/-- A run over files of the ground. -/
structure Reads (g : Ground) (r : Run) : Prop where
  store : r.store = g.store
  files : r.files ⊆ g.files

/-- A run on common ground. -/
structure Serves (g : Ground) (r : Run) : Prop extends g.Reads r where
  plans : ∀ offset splits plan, r.settledPlan offset splits = some plan → g.plans plan

/-- A run that uses the shelf for some questions. -/
structure Shares (g : Ground) (r : Run) (questions : List Question) : Prop where
  shelf : r.shelf = g.shelf
  involved : ∀ x ∈ questions, g.involved x

variable {g : Ground} {r : Run} {settled : Splits → Option ReadingPlan}

omit [Binary.Lawful α] in
/-- On sound ground a run loads the data known. -/
theorem Sound.load_eq {d : Disk} (hs : g.Sound α settled d) (hr : g.Reads r) :
    ∀ file ∈ r.files, r.store.load d file = g.load file := fun file hfile => by
  rw [hr.store]
  exact hs.loads file (hr.files hfile)

/-- What has to hold of a result of a run for it to be kept. -/
structure Keepable (g : Ground) (r : Run) (operation : Cache.Operation) (key : String) (files : List String) (q : Query)
    (now : String) : Prop where
  shelf : r.shelf = g.shelf
  involved : g.involved ⟨operation, files, q⟩
  key : key = r.keyFor operation files q
  now : Fits now

/-- Keeping what is right for a question: the artifacts of its operation stay right, and those of
other operations stay as they are. -/
theorem run_keep_right (ht : g.Trusted α) (hr : r.store = g.store) {β : Type} [Binary β] [Binary.Lawful β]
    {operation : Cache.Operation} {right : List String → Query → β → Prop} {key : String}
    {files : List String} {q : Query}
    {value : β} {s : Scene} (hk : g.Keepable r operation key files q s.now) (hf : Fits value)
    (hv : ∀ files', g.involved ⟨operation, files', q⟩ →
      Cache.filePaths g.store.location? files = Cache.filePaths g.store.location? files' → right files' q value)
    (hs : g.Sound α settled s.disk)
    (hold : ∀ shelf ∈ g.shelf, shelf.Holds g.store.location? g.involved operation right s.disk) :
    ∃ d, (r.keep operation key files value).run s = (.ok (r.recalled operation key files), { s with disk := d }) ∧
      g.good d ∧ (∀ file ∈ g.files, g.store.load d file = g.load file) ∧ ∀ shelf ∈ g.shelf,
        shelf.Holds g.store.location? g.involved operation right d ∧
        ∀ operation' ≠ operation, ∀ text, d.read? (shelf.path operation'.name (Sha256.hexOf text)) =
          s.disk.read? (shelf.path operation'.name (Sha256.hexOf text)) := by
  obtain ⟨hsh, hx, rfl, hn⟩ := hk
  obtain ⟨d, hrun, hg, hshelf, hload⟩ := Run.run_keep (by rw [hsh, hr]; exact ht.dependable) operation
    (Question.text r.store.location? ⟨operation, files, q⟩) files value hs.good
  rw [hsh, hr] at hshelf
  rw [hr] at hload
  refine ⟨d, hrun, hg, fun file hfile => (hload file hfile).trans (hs.loads file hfile), fun shelf hm => ?_⟩
  obtain ⟨hread, hother⟩ := hshelf shelf hm
  constructor
  · exact (hold shelf hm).save ht.separate hx hv (Artifact.fits_make (ht.filesFit _ hx) hn hf) hread
      fun text hne => hother operation text fun h => hne h.2
  · exact fun operation' hne text => hother operation' text fun h => hne h.1

section

variable {keeps : Bool} {key : String} {files : List String} {q : Query} {s : Scene}

/-- Keeping what the files come to, if it is to be kept. -/
theorem run_keep_average (ht : g.Trusted α) (hr : r.store = g.store)
    (hk : keeps = true → g.Keepable r .average key files q s.now) {v : WeightedAverage α}
    (hv : g.RightAverage settled files q v) (hs : g.Sound α settled s.disk) :
    ∃ records d, (if keeps = true then r.keep .average key files v else pure [] : Job (List CacheRecord)).run s =
      (.ok records, { s with disk := d }) ∧ g.Sound α settled d := by
  cases keeps with
  | false => exact ⟨[], s.disk, rfl, hs⟩
  | true =>
    obtain ⟨plan, hp, hpl, hv⟩ := hv
    have hfits := ht.averagesFit files q plan v (hk rfl).involved hpl hv
    obtain ⟨rules, hrules, hv⟩ := hv
    -- the same total comes about by other names
    have hright : ∀ files', g.involved ⟨.average, files', q⟩ →
        Cache.filePaths g.store.location? files = Cache.filePaths g.store.location? files' →
        g.RightAverage settled files' q v := fun files' hx hpaths => by
      have hfollows := follows_of_filePaths hs.loads (ht.filesHeld _ (hk rfl).involved) (ht.filesHeld _ hx) hpaths
      exact ⟨plan, hp, hpl, rules, hrules, fun size hsize =>
        ReadingPlan.totalOf_renamed (Cache.forall₂_blocksOf size hfollows) (hv size hsize)⟩
    obtain ⟨d, hrun, hg, hload, hshelf⟩ := run_keep_right ht hr (hk rfl) hfits hright hs hs.averages
    exact ⟨_, d, hrun, hg, hload, fun shelf hm => (hshelf shelf hm).1, fun shelf hm =>
      (hs.collections shelf hm).save_other fun text => (hshelf shelf hm).2 .collect (by decide) text⟩

theorem run_keep_collection (ht : g.Trusted α) (hr : r.store = g.store)
    (hk : keeps = true → g.Keepable r .collect key files q s.now) {c : CollectedBuckets α}
    (hc : g.RightCollection settled files q c) (hs : g.Sound α settled s.disk) :
    ∃ records d, (if keeps = true then r.keep .collect key files c else pure [] : Job (List CacheRecord)).run s =
      (.ok records, { s with disk := d }) ∧ g.Sound α settled d := by
  cases keeps with
  | false => exact ⟨[], s.disk, rfl, hs⟩
  | true =>
    obtain ⟨plan, hp, hpl, hc⟩ := hc
    have hfits := ht.collectionsFit files q plan c (hk rfl).involved hpl hc
    obtain ⟨rules, hrules, hc⟩ := hc
    -- the rows are right under every name of the same files
    have hright : ∀ files', g.involved ⟨.collect, files', q⟩ →
        Cache.filePaths g.store.location? files = Cache.filePaths g.store.location? files' →
        g.RightCollection settled files' q c := fun files' hx hpaths => by
      have hfollows := follows_of_filePaths hs.loads (ht.filesHeld _ (hk rfl).involved) (ht.filesHeld _ hx) hpaths
      exact ⟨plan, hp, hpl, rules, hrules, ReadingPlan.collectionOf_renamed hfollows hc⟩
    obtain ⟨d, hrun, hg, hload, hshelf⟩ := run_keep_right ht hr (hk rfl) hfits hright hs hs.collections
    exact ⟨_, d, hrun, hg, hload, fun shelf hm =>
      (hs.averages shelf hm).save_other fun text => (hshelf shelf hm).2 .average (by decide) text,
      fun shelf hm => (hshelf shelf hm).1⟩

end

end Ground
end ShotTally
