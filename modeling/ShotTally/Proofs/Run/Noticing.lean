/-
What sorting files leaves on a scene. Whatever else a job does, and also when it fails, the files that it sorts
are in the journal, and of their notices those are given whose subject had none before.
-/
import ShotTally.Proofs.Bucket.Sorting
import ShotTally.Proofs.Run.Moments
import ShotTally.Proofs.Run.SideBySide
import ShotTally.Proofs.Run.Tracing

namespace ShotTally

/-! ## Jobs that leave the disk -/

namespace Job

variable {α β : Type} {d : Disk}

/-- The job leaves this disk as it is. -/
def Leaves (d : Disk) (x : Job α) : Prop := ∀ s : Scene, s.disk = d → (x.run s).2.disk = d

namespace Leaves

theorem pure (a : α) : Leaves d (pure a) := fun _ hd => hd

theorem lift (o : Outcome α) : (Job.lift o).Leaves d := fun _ hd => hd

theorem bind {x : Job α} {f : α → Job β} (hx : x.Leaves d) (hf : ∀ a, (f a).Leaves d) : (x >>= f).Leaves d := by
  intro s hd
  have hdisk := hx s hd
  rcases hrun : x.run s with ⟨_ | a, s₁⟩
  · rw [hrun] at hdisk
    rwa [run_bind_error hrun]
  · rw [hrun] at hdisk
    rw [run_bind_ok hrun]
    exact hf a s₁ hdisk

theorem mapM {f : α → Job β} (h : ∀ a, (f a).Leaves d) : ∀ l : List α, (l.mapM f).Leaves d
  | [] => pure []
  | a :: l => by
    rw [List.mapM_cons]
    exact (h a).bind fun _ => (mapM h l).bind fun _ => pure _

theorem of_computes {x : Job α} {o : Option Int → Outcome α} (h : ∀ offset, Computes d offset x (o offset)) :
    x.Leaves d := by
  intro s hd
  obtain ⟨s', hrun, hd', -⟩ := h _ s hd rfl
  rwa [hrun]

end Leaves
end Job

/-! ## Traces -/

/-- A file and the query for which it is sorted. -/
abbrev Sorting := String × Query

namespace Run

variable {α β : Type} (r : Run) (d : Disk)

/-- The notices of sorting a file for a query; the offset of the modulator does not matter for them. -/
def noticesOf (x : Sorting) : List Notice :=
  (r.store.load d x.1).following fun file => (r.planWith 0).sortingNotices file x.1 x.2

/-- What files that were sorted for some queries have left: they are in the journal, and of their notices those
that were due are given and watched for. -/
structure Leave (sortings : List Sorting) (s s' : Scene) : Prop where
  compiled : s'.compiled = s.compiled ++ sortings.map Prod.fst
  watch : s'.memory.watch = (s.memory.watch.due (sortings.flatMap (r.noticesOf d))).2
  given : s'.notices.filter Notice.isWatched = s.notices.filter Notice.isWatched ++
    (s.memory.watch.due (sortings.flatMap (r.noticesOf d))).1.filter Notice.isWatched

variable {r d} {s s₁ s' : Scene} {l m : List Sorting}

theorem Leave.trans (h : r.Leave d l s s₁) (h' : r.Leave d m s₁ s') : r.Leave d (l ++ m) s s' where
  compiled := by rw [h'.compiled, h.compiled, List.map_append, List.append_assoc]
  watch := by rw [h'.watch, h.watch, List.flatMap_append, Watch.due_append]
  given := by
    rw [h'.given, h.given, h.watch, List.flatMap_append, Watch.due_append, List.filter_append, List.append_assoc]

/-- A quiet job leaves nothing of that kind. -/
theorem leave_of_quiet {x : Job α} (h : x.Quiet) (s : Scene) : r.Leave d [] s (x.run s).2 := by
  obtain ⟨notices, hnotices, hjournal, hwatch⟩ := h s
  have hnone : notices.filter Notice.isWatched = [] := by
    rw [List.filter_eq_nil_iff]
    intro n hn
    simp [Notice.isWatched, hnotices n hn]
  constructor
  · rw [Scene.compiled_of_journal hjournal, List.map_nil, List.append_nil]
  · exact hwatch
  · rw [Scene.notices_of_journal hjournal, List.filter_append, hnone]
    rfl

/-- What follows is quiet. -/
theorem leave_bind_quiet {x : Job α} {f : α → Job β} (hx : r.Leave d l s (x.run s).2) (hf : ∀ a, (f a).Quiet) :
    r.Leave d l s ((x >>= f).run s).2 := by
  rcases hrun : x.run s with ⟨_ | a, s₁⟩
  · rw [hrun] at hx
    rwa [Job.run_bind_error hrun]
  · rw [hrun] at hx
    rw [Job.run_bind_ok hrun]
    have h := hx.trans (leave_of_quiet (hf a) s₁)
    rwa [List.append_nil] at h

variable [Scalar α]

omit [Scalar α] in
/-- The notices of a computation that are due are given, and its outcome is that of the job. -/
theorem run_noted (x : Noted α) (s : Scene) : (Job.noted x).run s =
    (x.outcome, { s with memory := { s.memory with watch := (s.memory.watch.due x.notices).2 },
                         journal := s.journal ++ (s.memory.watch.due x.notices).1.map .notice }) := rfl

/-- Sorting one file, whether or not it can be loaded and sorted. -/
theorem leave_compileFile {o : Int} {q : Query} {rules : List Rule.Predicate} (hlen : rules.length = q.rules.length)
    (name : String) (hd : s.disk = d) :
    r.Leave d [(name, q)] s ((r.compileFile (r.planWith o) q rules name : Job (Option (FileBuckets α))).run s).2 := by
  subst hd
  have hcompiled : ({ s with journal := s.journal ++ [.compiled name] } : Scene).compiled = s.compiled ++ [name] := by
    simp [Scene.compiled]
  have hnotices : ({ s with journal := s.journal ++ [.compiled name] } : Scene).notices = s.notices := by
    simp [Scene.notices]
  have hof : r.noticesOf s.disk (name, q) =
      (r.store.load s.disk name).following fun file => (r.planWith o).sortingNotices file name q := rfl
  unfold compileFile
  rw [Job.run_bind_ok (x := Job.record (.compiled name)) (s := s) rfl, Job.run_bind_ok (x := Job.disk) rfl]
  dsimp only
  -- a file that cannot be loaded was still turned to, but gives no notice
  rcases hload : r.store.load s.disk name with e | file
  · rw [Job.run_bind_error (x := Job.lift (.error e)) rfl]
    rw [hload] at hof
    constructor
    · exact hcompiled
    · rw [List.flatMap_singleton, hof]
      rfl
    · rw [hnotices, List.flatMap_singleton, hof]
      exact (List.append_nil _).symm
  · rw [Job.run_bind_ok (x := Job.lift (.ok file)) rfl, run_noted, ReadingPlan.notices_compile hlen]
    rw [hload] at hof
    constructor
    · rw [Scene.compiled_of_journal rfl, hcompiled]
      rfl
    · rw [List.flatMap_singleton, hof]
      rfl
    · rw [Scene.notices_of_journal rfl, hnotices, List.filter_append, List.flatMap_singleton, hof]
      rfl

/-! ## Jobs that sort files -/

/-- Files, each sorted for all its queries. -/
def sortingsOf (queries : String → List Query) (files : List String) : List Sorting :=
  files.flatMap fun name => (queries name).map (name, ·)

/-- On this disk the job leaves, whatever it ends with, what sorting files for all their queries leaves. -/
def Traces (r : Run) (d : Disk) (queries : String → List Query) (x : Job β) : Prop :=
  ∀ s : Scene, s.disk = d → ∃ files, r.Leave d (sortingsOf queries files) s (x.run s).2

variable {queries : String → List Query}

namespace Traces

variable {γ : Type} {x : Job β} {f : β → Job γ}

theorem of_quiet (h : x.Quiet) : r.Traces d queries x := fun s _ => ⟨[], leave_of_quiet h s⟩

theorem bind (hx : r.Traces d queries x) (hd : x.Leaves d) (hf : ∀ a, r.Traces d queries (f a)) :
    r.Traces d queries (x >>= f) := by
  intro s hs
  obtain ⟨files, hleave⟩ := hx s hs
  have hdisk := hd s hs
  rcases hrun : x.run s with ⟨_ | a, s₁⟩
  · rw [hrun] at hleave
    rw [Job.run_bind_error hrun]
    exact ⟨files, hleave⟩
  · rw [hrun] at hleave hdisk
    obtain ⟨others, hleave'⟩ := hf a s₁ hdisk
    rw [Job.run_bind_ok hrun]
    refine ⟨files ++ others, ?_⟩
    rw [sortingsOf, List.flatMap_append]
    exact hleave.trans hleave'

theorem lift_bind {o : Outcome β} (hf : ∀ a, o = .ok a → r.Traces d queries (f a)) :
    r.Traces d queries (Job.lift o >>= f) := by
  cases o with
  | error e => exact of_quiet (Job.Quiet.lift (.error e))
  | ok a => exact hf a rfl

/-- What follows the plan, which has the settings of the run. -/
theorem plan_bind {splits : Splits} {f : ReadingPlan → Job γ} (hf : ∀ o, r.Traces d queries (f (r.planWith o))) :
    r.Traces d queries (r.plan splits >>= f) := by
  intro s hs
  obtain ⟨s₁, hrun, hd, -⟩ := r.run_plan splits hs rfl
  have hleave := leave_of_quiet (r := r) (d := d) (quiet_plan r splits) s
  rw [hrun] at hleave
  rcases hplan : r.planOn d s.memory.offset splits with e | plan
  · rw [hplan] at hrun
    rw [Job.run_bind_error hrun]
    exact ⟨[], hleave⟩
  · rw [hplan] at hrun
    obtain ⟨o, rfl⟩ := exists_planWith hplan
    obtain ⟨files, hleave'⟩ := hf o s₁ hd
    rw [Job.run_bind_ok hrun]
    exact ⟨files, hleave.trans hleave'⟩

theorem mapM {f : β → Job γ} (hd : ∀ a, (f a).Leaves d) (h : ∀ a, r.Traces d queries (f a)) :
    ∀ l : List β, r.Traces d queries (l.mapM f)
  | [] => of_quiet (.pure [])
  | a :: l => by
    rw [List.mapM_cons]
    exact (h a).bind (hd a) fun _ => (mapM hd h l).bind (Job.Leaves.mapM hd l) fun _ => of_quiet (.pure _)

end Traces

/-! ## Jobs of a run -/

variable {q : Query} {rules : List Rule.Predicate} {o : Int}

theorem leaves_compileFile (plan : ReadingPlan) (q : Query) (rules : List Rule.Predicate) (name : String) :
    (r.compileFile plan q rules name : Job (Option (FileBuckets α))).Leaves d :=
  .of_computes fun _ => computes_compileFile plan q rules name

theorem traces_compileFile (hrules : Rule.Predicate.compileAll q.rules = .ok rules) (name : String) :
    r.Traces d (fun _ => [q]) (r.compileFile (r.planWith o) q rules name : Job (Option (FileBuckets α))) :=
  fun _ hd => ⟨[name], leave_compileFile (mapM_eq_ok.1 hrules).length_eq.symm name hd⟩

theorem leaves_compileFile_bind {plan : ReadingPlan} {name : String} {f : Option (FileBuckets α) → Job β}
    (hnone : (f none).Leaves d) (hsome : ∀ buckets, (f (some buckets)).Leaves d) :
    (r.compileFile plan q rules name >>= f).Leaves d :=
  (leaves_compileFile plan q rules name).bind fun
    | none => hnone
    | some buckets => hsome buckets

/-- What is done with the buckets of a file is quiet. -/
theorem traces_compileFile_bind (hrules : Rule.Predicate.compileAll q.rules = .ok rules) {name : String}
    {f : Option (FileBuckets α) → Job β} (hnone : (f none).Quiet) (hsome : ∀ buckets, (f (some buckets)).Quiet) :
    r.Traces d (fun _ => [q]) (r.compileFile (r.planWith o) q rules name >>= f) :=
  (traces_compileFile hrules name).bind (leaves_compileFile _ q rules name) fun
    | none => .of_quiet hnone
    | some buckets => .of_quiet (hsome buckets)

variable (r d)

theorem leaves_plan (splits : Splits) : (r.plan splits).Leaves d := by
  intro s hd
  obtain ⟨s', hrun, hd', -⟩ := r.run_plan splits hd rfl
  rwa [hrun]

theorem leaves_fileSums (q : Query) : (r.fileSums q : Job (List (String × Option (BucketSums α)))).Leaves d := by
  refine (Job.Leaves.lift _).bind fun rules => (leaves_plan r d _).bind fun plan => Job.Leaves.mapM (fun name => ?_) _
  exact leaves_compileFile_bind (.pure _) fun _ => (Job.Leaves.lift _).bind fun _ => .pure _

theorem traces_fileSums (q : Query) :
    r.Traces d (fun _ => [q]) (r.fileSums q : Job (List (String × Option (BucketSums α)))) := by
  refine Traces.lift_bind fun rules hrules => Traces.plan_bind fun o => Traces.mapM (fun name => ?_) (fun name => ?_) _
  · exact leaves_compileFile_bind (.pure _) fun _ => (Job.Leaves.lift _).bind fun _ => .pure _
  · exact traces_compileFile_bind hrules (.pure _) fun _ => (Job.Quiet.lift _).bind fun _ => .pure _

theorem traces_fileAverages (q : Query) :
    r.Traces d (fun _ => [q]) (r.fileAverages q : Job (List (String × Option (WeightedAverage α)))) :=
  (traces_fileSums r d q).bind (leaves_fileSums r d q) fun sums =>
    .of_quiet (Job.Quiet.mapM (fun _ => (Job.Quiet.lift _).bind fun _ => .pure _) sums)

theorem traces_freshAverages [Binary α] (hrules : Rule.Predicate.compileAll q.rules = .ok rules) (p : Piece α) :
    r.Traces d (fun _ => [q]) (r.freshAverages (r.planWith o) q rules p) := by
  unfold freshAverages
  cases p.found with
  | some v => exact .of_quiet (.pure _)
  | none =>
    refine Traces.mapM (fun name => .of_computes fun _ => computes_fileAverage (r.planWith o) q rules name)
      (fun name => ?_) _
    exact traces_compileFile_bind hrules (.pure _) fun _ => (Job.Quiet.lift _).bind fun _ => .pure _

theorem traces_average [Binary α] (q : Query) (opts : AverageOptions) :
    r.Traces d (fun _ => [q]) (r.average q opts : Job (RunAverage α)) := by
  rw [average_eq]
  split
  · exact .of_quiet (.lift _)
  refine Traces.lift_bind fun rules hrules => (Traces.of_quiet (quiet_found r opts.useCache .average _)).bind
    (.of_computes fun _ => computes_found opts.useCache .average _) fun found => ?_
  cases found with
  | some average => exact .of_quiet (.pure _)
  | none =>
    refine Traces.lift_bind fun blocks _ => ?_
    refine (Traces.of_quiet (Job.Quiet.mapM (quiet_recallBlock (α := α) r q opts _) blocks)).bind
      (.of_computes fun _ => computes_recallBlocks q opts _ blocks) fun pieces => Traces.plan_bind fun o => ?_
    exact (Traces.mapM (fun p => .of_computes fun _ => computes_freshAverages _ q rules p)
      (traces_freshAverages r d hrules) pieces).bind
      (.mapM (fun p => .of_computes fun _ => computes_freshAverages _ q rules p) pieces)
      fun fresh => .of_quiet (quiet_averagePieces r q opts _ _ pieces fresh)

theorem traces_collect [Binary α] (q : Query) (opts : AverageOptions) :
    r.Traces d (fun _ => [q]) (r.collect q opts : Job (RunCollection α)) := by
  rw [collect_eq]
  refine Traces.lift_bind fun rules hrules => (Traces.of_quiet (quiet_found r opts.useCache .collect _)).bind
    (.of_computes fun _ => computes_found opts.useCache .collect _) fun found => ?_
  cases found with
  | some buckets => exact .of_quiet (.pure _)
  | none =>
    refine Traces.plan_bind fun o =>
      (Traces.mapM (leaves_compileFile _ q rules) (traces_compileFile hrules) r.files).bind
      (.mapM (leaves_compileFile _ q rules) r.files) fun compiled => .of_quiet ?_
    dsimp only
    split
    · exact .lift _
    · refine (Job.Quiet.lift _).bind fun rows => ?_
      split
      · exact (quiet_keep r .collect _ _ _).bind fun _ => .pure _
      · exact .pure _

/-! ## Moments -/

variable (α)

/-- Whether a file has buckets for a query. -/
def hasBuckets (offset : Option Int) (q : Query) (name : String) : Bool :=
  match (do
    let rules ← Rule.Predicate.compileAll q.rules
    let plan ← r.planOn d offset q.splits
    plan.bucketsOf (r.store.load d) q rules name : Outcome (Option (FileBuckets α))) with
  | .ok (some _) => true
  | _ => false

/-- The queries a file is sorted for when moments are asked for: that of the second quantity comes after that of
the first, if the file has buckets for it. -/
def momentQueries (offset : Option Int) (q : Query) (m : MomentQuery) (name : String) : List Query :=
  match m.second with
  | none => [q]
  | some quantity => if r.hasBuckets α d offset q name then [q, { q with quantity := quantity }] else [q]

variable {α r d} {offset : Option Int}

theorem traces_fileMoments (hrules : Rule.Predicate.compileAll q.rules = .ok rules)
    (hplan : r.planOn d offset q.splits = .ok (r.planWith o)) (m : MomentQuery) (name : String) :
    r.Traces d (r.momentQueries α d offset q m)
      (r.fileMoments (r.planWith o) q rules m name : Job (Option (List (MomentSums α)))) := by
  intro s hs
  refine ⟨[name], ?_⟩
  have hlen := (mapM_eq_ok.1 hrules).length_eq.symm
  have hfirst := leave_compileFile (r := r) (α := α) (o := o) hlen name hs
  have hsums : ∀ o : Outcome (List (MomentSums α)), Job.Quiet (do return some (← Job.lift o)) :=
    fun o => (Job.Quiet.lift o).bind fun _ => .pure _
  unfold fileMoments
  rw [sortingsOf, List.flatMap_singleton, momentQueries]
  cases m.second with
  | none =>
    refine leave_bind_quiet hfirst fun buckets => ?_
    cases buckets with
    | none => exact .pure _
    | some first => exact hsums _
  | some quantity =>
    -- whether the file is sorted once more depends on the buckets of the first quantity
    have hbuckets : r.hasBuckets α d offset q name = match ((r.planWith o).bucketsOf (r.store.load d) q rules name :
        Outcome (Option (FileBuckets α))) with
      | .ok (some _) => true
      | _ => false := by
      rw [hasBuckets, hrules, ok_bind, hplan, ok_bind]
    obtain ⟨s₁, hrun, hd₁, -⟩ := computes_compileFile (r := r) (α := α) (r.planWith o) q rules name s hs rfl
    rw [hrun] at hfirst
    dsimp only
    rcases hfound : ((r.planWith o).bucketsOf (r.store.load d) q rules name : Outcome (Option (FileBuckets α)))
      with e | _ | first
    · rw [hfound] at hbuckets hrun
      rw [Job.run_bind_error hrun, hbuckets]
      exact hfirst
    · rw [hfound] at hbuckets hrun
      rw [Job.run_bind_ok hrun, hbuckets]
      exact hfirst
    · rw [hfound] at hbuckets hrun
      rw [Job.run_bind_ok hrun, hbuckets]
      refine hfirst.trans (leave_bind_quiet (leave_compileFile (q := { q with quantity := quantity }) hlen name hd₁)
        fun buckets => ?_)
      cases buckets with
      | none => exact .pure _
      | some second => exact hsums _

theorem exists_leave_momentSums (q : Query) (m : MomentQuery) (s : Scene) :
    ∃ files, r.Leave s.disk (sortingsOf (r.momentQueries α s.disk s.memory.offset q m) files) s
      ((r.momentSums q m : Job (List (MomentSums α))).run s).2 := by
  unfold momentSums
  rcases hrules : Rule.Predicate.compileAll q.rules with e | rules
  · exact ⟨[], leave_of_quiet (Job.Quiet.lift (.error e)) s⟩
  rw [Job.run_bind_ok (x := Job.lift (.ok rules)) (s := s) rfl]
  obtain ⟨s₁, hrun, hd, -⟩ := r.run_plan q.splits (s := s) rfl rfl
  have hplanned := leave_of_quiet (r := r) (d := s.disk) (quiet_plan r q.splits) s
  rw [hrun] at hplanned
  rcases hplan : r.planOn s.disk s.memory.offset q.splits with e | plan
  · rw [hplan] at hrun
    rw [Job.run_bind_error hrun]
    exact ⟨[], hplanned⟩
  · rw [hplan] at hrun
    obtain ⟨o, rfl⟩ := exists_planWith hplan
    rw [Job.run_bind_ok hrun]
    -- looking for the offset gives no notice, so only the files are left
    suffices h : ∃ files, r.Leave s.disk (sortingsOf (r.momentQueries α s.disk s.memory.offset q m) files) s₁ _ from
      h.imp fun _ => hplanned.trans
    have hdisk : ∀ name,
      (r.fileMoments (r.planWith o) q rules m name : Job (Option (List (MomentSums α)))).Leaves s.disk :=
      fun name => .of_computes fun _ => computes_fileMoments (r.planWith o) q rules m name
    refine (Traces.mapM hdisk (traces_fileMoments hrules hplan m) r.files).bind (.mapM hdisk r.files)
      (fun perFile => .of_quiet ?_) s₁ hd
    split <;> exact .lift _

end Run
end ShotTally
