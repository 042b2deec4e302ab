/-
The warnings that a run gives once. However the calls follow one another, on whatever disks, whether they succeed
or fail and whether or not results are recalled, a subject is warned about at most once, by the first call on its
occasion.
-/
import ShotTally.Proofs.Run.Noticing
import ShotTally.Proofs.Run.Session

namespace ShotTally

/-! ## Errands -/

/-- What a run may be asked to do. -/
inductive Errand where
  | fileSums (q : Query)
  | fileAverages (q : Query)
  | average (q : Query) (opts : AverageOptions)
  | collect (q : Query) (opts : AverageOptions)
  | momentSums (q : Query) (m : MomentQuery)
  | addFiles (files : List String)
  | resetOffset

/-- An errand, the disk that it finds and the time it is done. -/
structure Turn where
  errand : Errand
  disk : Disk
  now : String

namespace Errand

variable (α : Type) [Scalar α] [Binary α]

/-- The scene after the errand, whether or not it succeeds. -/
def perform (r : Run) (s : Scene) : Errand → Scene
  | fileSums q => ((r.fileSums q : Job (List (String × Option (BucketSums α)))).run s).2
  | fileAverages q => ((r.fileAverages q : Job (List (String × Option (WeightedAverage α)))).run s).2
  | average q opts => ((r.average q opts : Job (RunAverage α)).run s).2
  | collect q opts => ((r.collect q opts : Job (RunCollection α)).run s).2
  | momentSums q m => ((r.momentSums q m : Job (List (MomentSums α))).run s).2
  | addFiles files => ((Job.give (r.addFiles files).2).run s).2
  | resetOffset => (Run.resetOffset.run s).2

/-- The run after the errand. -/
def grow (r : Run) : Errand → Run
  | addFiles files => (r.addFiles files).1
  | _ => r

omit [Binary α] in
/-- The queries that a file is sorted for when the errand sorts it. -/
def queries (r : Run) (d : Disk) (offset : Option Int) : Errand → String → List Query
  | fileSums q, _ | fileAverages q, _ | average q _, _ | collect q _, _ => [q]
  | momentSums q m, name => r.momentQueries α d offset q m name
  | addFiles _, _ | resetOffset, _ => []

end Errand

/-! ## The life of a run -/

/-- One call of a run: the run and what it remembers before, and the scene afterwards. The journal starts anew. -/
structure Episode where
  run : Run
  memory : Memory
  turn : Turn
  after : Scene

namespace Run

variable (α : Type) [Scalar α] [Binary α]

/-- The call as the turn has it. -/
def episode (r : Run) (m : Memory) (turn : Turn) : Episode :=
  ⟨r, m, turn, turn.errand.perform α r ⟨turn.disk, m, [], turn.now⟩⟩

/-- The calls one after the other; only the run and what it remembers are carried from one to the next. -/
def life (r : Run) (m : Memory) : List Turn → List Episode
  | [] => []
  | turn :: turns =>
    let first := r.episode α m turn
    first :: life (turn.errand.grow r) first.after.memory turns

end Run

/-! ## Occasions -/

/-- Sorting a file for a query gets past slicing; how the modulator is read does not matter for it. -/
def Run.GetsPastSlicing (r : Run) (file : ShotFile) (q : Query) (perShot : Bool) : Prop :=
  (r.planWith 0).GetsPastSlicing file q perShot

/-- The period of the source is neither configured nor stored in the file. -/
def Run.LacksPeriod (r : Run) (file : ShotFile) : Prop := (r.planWith 0).LacksPeriod file

namespace Episode

variable (α : Type) [Scalar α]

/-- The call sorts a file for a query. -/
def Sorts (x : Episode) (name : String) (q : Query) : Prop :=
  name ∈ x.after.compiled ∧ q ∈ x.turn.errand.queries α x.run x.turn.disk x.memory.offset name

/-- The call sorts the file past slicing with splits asked for, and the quantity has no row for each shot. -/
def CannotSplit (quantity name : String) (x : Episode) : Prop :=
  ∃ q file, x.Sorts α name q ∧ q.quantity = quantity ∧ q.splits.any = true ∧
    x.run.store.load x.turn.disk name = .ok file ∧ x.run.GetsPastSlicing file q false

/-- The call sorts the shots of the file, and there is no period to sort them by. -/
def LacksPeriod (name : String) (x : Episode) : Prop :=
  ∃ q file, x.Sorts α name q ∧ x.run.store.load x.turn.disk name = .ok file ∧
    x.run.GetsPastSlicing file q true ∧ x.run.LacksPeriod file

end Episode

/-- Over some calls a notice of this kind is given at most once, and it is given by the first call on its
occasion. -/
structure GivenOnce (kind : Notice → Bool) (occasion : Episode → Prop) (episodes : List Episode) : Prop where
  once : (episodes.flatMap (·.after.notices)).countP kind ≤ 1
  first : ∀ before x later, episodes = before ++ x :: later →
    ((∃ n ∈ x.after.notices, kind n = true) ↔ occasion x ∧ ∀ y ∈ before, ¬ occasion y)

/-! ## One call -/

variable {α : Type} [Scalar α] [Binary α]

theorem Run.addFiles_unwatched (files : List String) : ∀ r : Run, ∀ n ∈ (r.addFiles files).2, n.subject? = none := by
  induction files with
  | nil => exact fun r n hn => absurd hn List.not_mem_nil
  | cons file rest ih =>
    intro r n hn
    unfold addFiles at hn
    split at hn
    · rcases List.mem_cons.1 hn with rfl | hn
      · rfl
      · exact ih r n hn
    · exact ih _ n hn

/-- What a call leaves, whether or not it succeeds, is what sorting some files for all their queries leaves. -/
theorem Errand.exists_leave (r : Run) (s : Scene) (e : Errand) :
    ∃ files, r.Leave s.disk (Run.sortingsOf (e.queries α r s.disk s.memory.offset) files) s (e.perform α r s) := by
  cases e with
  | fileSums q => exact Run.traces_fileSums r s.disk q s rfl
  | fileAverages q => exact Run.traces_fileAverages r s.disk q s rfl
  | average q opts => exact Run.traces_average r s.disk q opts s rfl
  | collect q opts => exact Run.traces_collect r s.disk q opts s rfl
  | momentSums q m => exact Run.exists_leave_momentSums q m s
  | addFiles files => exact ⟨[], Run.leave_of_quiet (Job.Quiet.give (r.addFiles_unwatched files)) s⟩
  | resetOffset => exact ⟨[], Run.leave_of_quiet (Job.Quiet.of_same fun _ => ⟨rfl, rfl⟩) s⟩

theorem Errand.grow_eq (r : Run) (e : Errand) : ∃ files, e.grow r = { r with files := files } := by
  cases e with
  | addFiles files => exact (r.addFiles_eq files).imp fun _ h => h.1
  | _ => exact ⟨r.files, rfl⟩

namespace Episode

/-- What a call does about a subject: it is watched for from the first occasion on, and given a notice then, once. -/
structure Minds (subject : String × String) (kind : Notice → Bool) (occasion : Episode → Prop)
    (x : Episode) : Prop where
  watched : subject ∈ x.after.memory.watch ↔ subject ∈ x.memory.watch ∨ occasion x
  given : subject ∉ x.memory.watch → occasion x → x.after.notices.countP kind = 1
  silent : subject ∈ x.memory.watch ∨ ¬ occasion x → x.after.notices.countP kind = 0

end Episode

namespace Run

variable {r : Run} {m : Memory} {turn : Turn} {subject : String × String} {kind : Notice → Bool}

omit [Scalar α] [Binary α] in
theorem mem_sortingsOf {queries : String → List Query} {files : List String} {name : String} {q : Query} :
    (name, q) ∈ sortingsOf queries files ↔ name ∈ files ∧ q ∈ queries name := by
  simp [sortingsOf]

variable (α r m turn) in
/-- What a call leaves comes from the files that it sorts. -/
theorem exists_sortings : ∃ l, r.Leave turn.disk l ⟨turn.disk, m, [], turn.now⟩ (r.episode α m turn).after ∧
    ∀ name q, (r.episode α m turn).Sorts α name q ↔ (name, q) ∈ l := by
  obtain ⟨files, hleave⟩ := Errand.exists_leave (α := α) r ⟨turn.disk, m, [], turn.now⟩ turn.errand
  refine ⟨_, hleave, fun name q => ?_⟩
  have hcompiled : (r.episode α m turn).after.compiled =
      (sortingsOf (turn.errand.queries α r turn.disk m.offset) files).map Prod.fst := hleave.compiled
  unfold Episode.Sorts
  rw [hcompiled, mem_sortingsOf]
  refine and_congr_left fun hq => ?_
  simp only [List.mem_map, Prod.exists, exists_and_right, exists_eq_right, mem_sortingsOf]
  exact ⟨fun ⟨_, hname, _⟩ => hname, fun hname => ⟨q, hname, hq⟩⟩

omit [Scalar α] [Binary α] in
/-- The notices of a kind are those of a subject, and are given when it comes up for the first time. -/
theorem Leave.countP_notices {d : Disk} {l : List Sorting} {s s' : Scene} (h : r.Leave d l s s') (hs : s.journal = [])
    (hwatched : ∀ n, kind n = true → n.isWatched = true)
    (hkind : ∀ y, ∀ n ∈ r.noticesOf d y, n.subject? = some subject ↔ kind n = true) :
    s'.notices.countP kind =
      if subject ∉ s.memory.watch ∧ ∃ n ∈ l.flatMap (r.noticesOf d), n.subject? = some subject then 1 else 0 := by
  have hfilter : ∀ given : List Notice, (given.filter Notice.isWatched).countP kind = given.countP kind := by
    intro given
    rw [List.countP_filter]
    refine List.countP_congr fun n _ => ?_
    simpa using hwatched n
  have hnone : s.notices = [] := by rw [Scene.notices, hs, List.filterMap_nil]
  rw [← hfilter, h.given, hnone, List.filter_nil, List.nil_append, hfilter, ← Watch.countP_due]
  refine List.countP_congr fun n hn => ?_
  obtain ⟨y, -, hn⟩ := List.mem_flatMap.1 (Watch.mem_of_mem_due hn)
  rw [← hkind y n hn, beq_iff_eq]

/-- A call minds a subject whose notices come from sorting files. -/
theorem minds_episode {occasion : Episode → Prop} (hwatched : ∀ n, kind n = true → n.isWatched = true)
    (hkind : ∀ y, ∀ n ∈ r.noticesOf turn.disk y, n.subject? = some subject ↔ kind n = true)
    (hoccasion : occasion (r.episode α m turn) ↔ ∃ name q, (r.episode α m turn).Sorts α name q ∧
      ∃ n ∈ r.noticesOf turn.disk (name, q), kind n = true) :
    (r.episode α m turn).Minds subject kind occasion := by
  -- what an episode sorts determines its notices, and the watch lets each subject pass once
  obtain ⟨l, hleave, hsorts⟩ := exists_sortings α r m turn
  have hcount := hleave.countP_notices rfl hwatched hkind
  have hexists : (∃ n ∈ l.flatMap (r.noticesOf turn.disk), n.subject? = some subject) ↔
      occasion (r.episode α m turn) := by
    rw [hoccasion]
    simp only [List.mem_flatMap, hsorts]
    constructor
    · rintro ⟨n, ⟨⟨name, q⟩, hmem, hn⟩, hsubject⟩
      exact ⟨name, q, hmem, n, hn, (hkind _ n hn).1 hsubject⟩
    · rintro ⟨name, q, hmem, n, hn, hk⟩
      exact ⟨n, ⟨(name, q), hmem, hn⟩, (hkind _ n hn).2 hk⟩
  constructor
  · rw [hleave.watch, Watch.mem_due, hexists]
    rfl
  · intro hnew hocc
    rw [hcount, if_pos ⟨hnew, hexists.2 hocc⟩]
  · intro hnone
    rw [hcount, if_neg]
    rintro ⟨hnew, hn⟩
    exact hnone.elim hnew (absurd (hexists.1 hn))

end Run

/-! ## Every life -/

namespace GivenOnce

variable {kind : Notice → Bool} {occasion : Episode → Prop} {x : Episode} {episodes : List Episode}

theorem nil : GivenOnce kind occasion [] := ⟨by simp, fun before x later h => by simp at h⟩

/-- A call before the first occasion. -/
theorem cons_silent (hx : ¬ occasion x) (hnone : x.after.notices.countP kind = 0)
    (h : GivenOnce kind occasion episodes) :
    GivenOnce kind occasion (x :: episodes) where
  once := by
    rw [List.flatMap_cons, List.countP_append, hnone, Nat.zero_add]
    exact h.once
  first before y later heq := by
    cases before with
    | nil =>
      obtain ⟨rfl, rfl⟩ := List.cons.inj heq
      have hall := List.countP_eq_zero.1 hnone
      exact ⟨fun ⟨n, hn, hk⟩ => absurd hk (hall n hn), fun hocc => absurd hocc.1 hx⟩
    | cons z before =>
      obtain ⟨rfl, htail⟩ := List.cons.inj heq
      rw [h.first before y later htail, List.forall_mem_cons, and_iff_right hx]

/-- The first call on the occasion; those after it give no more notice. -/
theorem cons_given (hx : occasion x) (hone : x.after.notices.countP kind = 1)
    (h : ∀ y ∈ episodes, y.after.notices.countP kind = 0) : GivenOnce kind occasion (x :: episodes) where
  once := by
    have hnone : (episodes.flatMap (·.after.notices)).countP kind = 0 := by
      rw [List.countP_eq_zero]
      intro n hn
      obtain ⟨y, hy, hn⟩ := List.mem_flatMap.1 hn
      exact List.countP_eq_zero.1 (h y hy) n hn
    rw [List.flatMap_cons, List.countP_append, hone, hnone]
  first before y later heq := by
    cases before with
    | nil =>
      obtain ⟨rfl, rfl⟩ := List.cons.inj heq
      have hgiven : ∃ n ∈ x.after.notices, kind n = true := List.countP_pos_iff.1 (hone ▸ Nat.one_pos)
      exact ⟨fun _ => ⟨hx, by simp⟩, fun _ => hgiven⟩
    -- a later episode gives nothing, and the occasion was there before
    | cons z before =>
      obtain ⟨rfl, htail⟩ := List.cons.inj heq
      have hall := List.countP_eq_zero.1 (h y (by rw [htail]; simp))
      exact ⟨fun ⟨n, hn, hk⟩ => absurd hk (hall n hn), fun hocc => absurd hx (hocc.2 x List.mem_cons_self)⟩

end GivenOnce

namespace Run

variable {subject : String × String} {kind : Notice → Bool}

/-- When every call minds the subject, it is given a notice by the first call on its occasion, or never if it was
watched for before. -/
theorem givenOnce_life {occasion : Episode → Prop} {p : Run → Prop} (hgrow : ∀ r e, p r → p (Errand.grow r e))
    (hminds : ∀ r m turn, p r → (r.episode α m turn).Minds subject kind occasion) (turns : List Turn) :
    ∀ (r : Run) (m : Memory), p r →
      (subject ∉ m.watch → GivenOnce kind occasion (r.life α m turns)) ∧
      (subject ∈ m.watch → ∀ x ∈ r.life α m turns, x.after.notices.countP kind = 0) := by
  induction turns with
  | nil => exact fun r m _ => ⟨fun _ => .nil, fun _ x hx => absurd hx List.not_mem_nil⟩
  | cons turn turns ih =>
    intro r m hp
    have hx := hminds r m turn hp
    obtain ⟨hnew, hknown⟩ := ih _ (r.episode α m turn).after.memory (hgrow r turn.errand hp)
    rw [hx.watched] at hnew hknown
    constructor
    · intro hm
      -- on the first occasion the subject goes on the watch, and stays there
      by_cases hocc : occasion (r.episode α m turn)
      · exact .cons_given hocc (hx.given hm hocc) (hknown (.inr hocc))
      · exact .cons_silent hocc (hx.silent (.inr hocc)) (hnew fun h => h.elim hm hocc)
    · intro hm x hmem
      rcases List.mem_cons.1 hmem with rfl | hmem
      · exact hx.silent (.inl hm)
      · exact hknown (.inl hm) x hmem

omit [Scalar α] [Binary α] in
theorem mem_noticesOf {r : Run} {d : Disk} {name : String} {q : Query} {n : Notice} :
    n ∈ r.noticesOf d (name, q) ↔
      ∃ file, r.store.load d name = .ok file ∧ n ∈ (r.planWith 0).sortingNotices file name q :=
  Outcome.mem_following

theorem givenOnce_notPerShot (r : Run) (turns : List Turn) (quantity file : String) :
    GivenOnce (Notice.isNotPerShot quantity file) (Episode.CannotSplit α quantity file) (r.life α .fresh turns) := by
  have hminds : ∀ (r : Run) m turn, (r.episode α m turn).Minds (file, "split:" ++ quantity)
      (Notice.isNotPerShot quantity file) (Episode.CannotSplit α quantity file) := by
    intro r m turn
    refine minds_episode (fun n hn => ?_) (fun _ _ _ => Notice.subject_eq_split) ?_
    · rw [Notice.isWatched, Notice.subject_eq_split.2 hn]
      rfl
    constructor
    · rintro ⟨q, f, hsorts, hq, hsplits, hload, hpast⟩
      obtain ⟨n, hn, hkind⟩ := ReadingPlan.exists_notPerShot.2 ⟨rfl, hq, hsplits, hpast⟩
      exact ⟨file, q, hsorts, n, mem_noticesOf.2 ⟨f, hload, hn⟩, hkind⟩
    · rintro ⟨name, q, hsorts, n, hn, hkind⟩
      obtain ⟨f, hload, hn⟩ := mem_noticesOf.1 hn
      obtain ⟨rfl, hq, hsplits, hpast⟩ := ReadingPlan.exists_notPerShot.1 ⟨n, hn, hkind⟩
      exact ⟨q, f, hsorts, hq, hsplits, hload, hpast⟩
  exact (givenOnce_life (p := fun _ => True) (fun _ _ _ => trivial) (fun r m turn _ => hminds r m turn) turns r .fresh
    trivial).1 List.not_mem_nil

theorem givenOnce_periodMissing (r : Run) (turns : List Turn) (file : String) :
    GivenOnce (Notice.isPeriodMissing file) (Episode.LacksPeriod α file) (r.life α .fresh turns) := by
  have hminds : ∀ (r' : Run) m turn, r'.sourcePeriodDataset = r.sourcePeriodDataset →
      (r'.episode α m turn).Minds (file, "source_period:" ++ r.sourcePeriodDataset) (Notice.isPeriodMissing file)
        (Episode.LacksPeriod α file) := by
    intro r' m turn hr
    -- within one run there is one data set for the period, so the subject is the file
    refine minds_episode (fun n hn => ?_) (fun y n hn => ?_) ?_
    · obtain ⟨dataset, rfl⟩ := Notice.isPeriodMissing_iff.1 hn
      rfl
    · rw [Notice.subject_eq_source_period]
      constructor
      · rintro rfl
        exact Notice.isPeriodMissing_iff.2 ⟨_, rfl⟩
      · intro hk
        obtain ⟨dataset, rfl⟩ := Notice.isPeriodMissing_iff.1 hk
        obtain ⟨f, -, hn⟩ := mem_noticesOf.1 hn
        obtain ⟨-, hdataset, -⟩ := ReadingPlan.sourcePeriodMissing_mem.1 hn
        rw [← hr]
        exact congrArg (Notice.sourcePeriodMissing · file) hdataset.symm
    constructor
    · rintro ⟨q, f, hsorts, hload, hpast, hlacks⟩
      exact ⟨file, q, hsorts, _,
        mem_noticesOf.2 ⟨f, hload, ReadingPlan.sourcePeriodMissing_mem.2 ⟨rfl, rfl, hlacks, hpast⟩⟩,
        Notice.isPeriodMissing_iff.2 ⟨_, rfl⟩⟩
    · rintro ⟨name, q, hsorts, n, hn, hk⟩
      obtain ⟨f, hload, hn⟩ := mem_noticesOf.1 hn
      obtain ⟨dataset, rfl⟩ := Notice.isPeriodMissing_iff.1 hk
      obtain ⟨rfl, -, hlacks, hpast⟩ := ReadingPlan.sourcePeriodMissing_mem.1 hn
      exact ⟨q, f, hsorts, hload, hpast, hlacks⟩
  refine (givenOnce_life (p := fun r' => r'.sourcePeriodDataset = r.sourcePeriodDataset)
    (fun r' e hr => ?_) hminds turns r
    .fresh rfl).1 List.not_mem_nil
  obtain ⟨files, hgrow⟩ := Errand.grow_eq r' e
  rw [hgrow]
  exact hr

/-- Whatever is asked of a run over its life, that a quantity of a file cannot be split, and that the period of a
file is missing, are noticed at most once, and by the first call that sorts the file so. -/
theorem warnings_given_once (α : Type) [Scalar α] [Binary α] (r : Run) (turns : List Turn) :
    (∀ quantity file, GivenOnce (Notice.isNotPerShot quantity file) (Episode.CannotSplit α quantity file)
      (r.life α .fresh turns)) ∧
    ∀ file, GivenOnce (Notice.isPeriodMissing file) (Episode.LacksPeriod α file) (r.life α .fresh turns) :=
  ⟨givenOnce_notPerShot r turns, givenOnce_periodMissing r turns⟩

/-- Two shots without a period: a trace for each of them, and an energy for both together. -/
def degraded : ShotFile :=
  .ofList [("bunches", .numeric ⟨[2], [.zero, .one]⟩), ("energy", .numeric ⟨[], [.one]⟩),
    ("trace", .numeric ⟨[2], [.one, .one]⟩)]

-- the energy is sorted three times, then the trace, and at last both
example :
    let r := { Run.ofFiles "degraded" (.memory (.ofList [("a", degraded), ("b", degraded)])) ["a", "b"] with
      classifier := { Classifier.standard with modulatorOffset := some 0 } }
    let energy : Query := ⟨"energy", [none], .both, .none⟩
    let trace : Query := ⟨"trace", [none], .both, .none⟩
    let opts := { AverageOptions.uncached with blockSize := some 1 }
    let errands : List Errand := [.average energy opts, .average energy opts, .collect energy opts, .average trace opts,
      .resetOffset, .momentSums trace ⟨some "energy", .identity, .identity⟩]
    (r.life Double .fresh (errands.map (⟨·, .empty [], ""⟩))).map (·.after.notices) =
      [[.notPerShot "energy" "a" [] 2, .notPerShot "energy" "b" [] 2], [], [],
        [.sourcePeriodMissing "Background_Period" "a", .sourcePeriodMissing "Background_Period" "b"], [], []] := by
  decide +kernel

end Run
end ShotTally
