/-
The files that a job loads and sorts: those that it adds to the journal when it succeeds, in order. What goes
before and after, looking for results and keeping them, sorts no file and gives no notice that is given once.
-/
import ShotTally.Proofs.Notice
import ShotTally.Proofs.Run.Recalling

namespace ShotTally

/-! ## Journals -/

namespace Scene

variable {s s' : Scene} {notices : List Notice}

theorem compiled_of_journal (h : s'.journal = s.journal ++ notices.map .notice) : s'.compiled = s.compiled := by
  rw [compiled, h, List.filterMap_append, List.filterMap_map]
  simp [compiled]

theorem notices_of_journal (h : s'.journal = s.journal ++ notices.map .notice) : s'.notices = s.notices ++ notices := by
  rw [Scene.notices, h, List.filterMap_append, List.filterMap_map]
  simp [Scene.notices]

end Scene

namespace Job

variable {α β : Type}

theorem of_run_lift {o : Outcome α} {s s' : Scene} {a : α} (h : (Job.lift o).run s = (.ok a, s')) :
    o = .ok a ∧ s = s' :=
  Prod.mk.inj h

/-! ## Quiet jobs -/

/-- The job adds nothing to the journal but notices without a subject, and the watch stays. -/
def Quiet (x : Job α) : Prop := ∀ s, ∃ notices : List Notice, (∀ n ∈ notices, n.subject? = none) ∧
  (x.run s).2.journal = s.journal ++ notices.map .notice ∧ (x.run s).2.memory.watch = s.memory.watch

namespace Quiet

theorem of_same {x : Job α} (h : ∀ s, (x.run s).2.journal = s.journal ∧ (x.run s).2.memory.watch = s.memory.watch) :
    x.Quiet := fun s => ⟨[], by simp, by rw [(h s).1, List.map_nil, List.append_nil], (h s).2⟩

theorem pure (a : α) : Quiet (pure a) := of_same fun _ => ⟨rfl, rfl⟩

theorem lift (o : Outcome α) : (Job.lift o).Quiet := of_same fun _ => ⟨rfl, rfl⟩

theorem disk : Job.disk.Quiet := of_same fun _ => ⟨rfl, rfl⟩

theorem scene : Quiet (get : Job Scene) := of_same fun _ => ⟨rfl, rfl⟩

theorem writing (x : Disk.Writing α) : (Job.writing x).Quiet := by
  refine of_same fun s => ?_
  rcases h : x.run s.disk with ⟨o, d⟩
  rw [run_writing h]
  exact ⟨rfl, rfl⟩

theorem give {notices : List Notice} (h : ∀ n ∈ notices, n.subject? = none) : (Job.give notices).Quiet := by
  intro s
  have hdue := Watch.due_of_unwatched s.memory.watch h
  refine ⟨notices, h, ?_, ?_⟩
  · show s.journal ++ (s.memory.watch.due notices).1.map .notice = _
    rw [hdue]
  · show (s.memory.watch.due notices).2 = _
    rw [hdue]

theorem bind {x : Job α} {f : α → Job β} (hx : x.Quiet) (hf : ∀ a, (f a).Quiet) : (x >>= f).Quiet := by
  intro s
  obtain ⟨l, hl, hjournal, hwatch⟩ := hx s
  rcases hrun : x.run s with ⟨_ | a, s₁⟩
  · rw [hrun] at hjournal hwatch
    rw [run_bind_error hrun]
    exact ⟨l, hl, hjournal, hwatch⟩
  · rw [hrun] at hjournal hwatch
    obtain ⟨m, hm, hjournal', hwatch'⟩ := hf a s₁
    rw [run_bind_ok hrun]
    refine ⟨l ++ m, fun n hn => (List.mem_append.1 hn).elim (hl n) (hm n), ?_, hwatch'.trans hwatch⟩
    rw [hjournal', hjournal, List.map_append, List.append_assoc]

theorem mapM {f : α → Job β} (h : ∀ a, (f a).Quiet) : ∀ l : List α, (l.mapM f).Quiet
  | [] => pure []
  | a :: l => by
    rw [List.mapM_cons]
    exact (h a).bind fun _ => (mapM h l).bind fun _ => pure _

end Quiet

/-! ## Files -/

/-- When the job succeeds, these are the files that it has loaded and sorted. -/
def Compiles (x : Job α) (files : List String) : Prop :=
  ∀ s a s', x.run s = (.ok a, s') → s'.compiled = s.compiled ++ files

/-- A quiet job sorts no file. -/
theorem Quiet.compiles {x : Job α} (h : x.Quiet) : x.Compiles [] := by
  intro s a s' hrun
  obtain ⟨notices, -, hjournal, -⟩ := h s
  rw [hrun] at hjournal
  rw [Scene.compiled_of_journal hjournal, List.append_nil]

namespace Compiles

theorem pure (a : α) : Compiles (pure a) [] := (Quiet.pure a).compiles

theorem lift (o : Outcome α) : (Job.lift o).Compiles [] := (Quiet.lift o).compiles

theorem record (file : String) : (Job.record (.compiled file)).Compiles [file] := by
  rintro s _ s' hrun
  cases hrun
  simp [Scene.compiled]

theorem give (notices : List Notice) : (Job.give notices).Compiles [] := by
  rintro s _ s' hrun
  cases hrun
  rw [Scene.compiled_of_journal rfl, List.append_nil]

theorem bind {x : Job α} {f : α → Job β} {files files' : List String} (hx : x.Compiles files)
    (hf : ∀ a, (f a).Compiles files') : (x >>= f).Compiles (files ++ files') := by
  intro s b s' hrun
  obtain ⟨a, s₁, hrun, hrun'⟩ := exists_of_run_bind hrun
  rw [hf a s₁ b s' hrun', hx s a s₁ hrun, List.append_assoc]

/-- What comes after sorts no file. -/
theorem bind_quiet {x : Job α} {f : α → Job β} {files : List String} (hx : x.Compiles files)
    (hf : ∀ a, (f a).Compiles []) :
    (x >>= f).Compiles files := by
  have h := hx.bind hf
  rwa [List.append_nil] at h

theorem noted (x : Noted α) : (Job.noted x).Compiles [] := (give x.notices).bind fun _ => lift x.outcome

/-- The files of one step after those of the other. -/
theorem mapM {f : α → Job β} {files : α → List String} (h : ∀ a, (f a).Compiles (files a)) :
    ∀ l : List α, (l.mapM f).Compiles (l.flatMap files)
  | [] => pure []
  | a :: l => by
    rw [List.mapM_cons, List.flatMap_cons]
    exact (h a).bind fun _ => (mapM h l).bind_quiet fun _ => pure _

theorem mapM_files {f : String → Job β} (h : ∀ name, (f name).Compiles [name]) (files : List String) :
    (files.mapM f).Compiles files := by
  have hall := mapM h files
  rwa [List.flatMap_singleton'] at hall

end Compiles
end Job

/-- What is wrong with an artifact has no subject. -/
theorem Shelf.load_unwatched {β : Type} [Binary β] (shelf : Shelf) (d : Disk) (operation key : String) :
    ∀ n ∈ (shelf.load d operation key : Option (Artifact β) × List Notice).2, n.subject? = none := by
  unfold Shelf.load
  dsimp only
  split
  · simp
  · split
    · simp [Notice.subject?]
    · split <;> simp [Notice.subject?]

namespace Run

open Job (Quiet Compiles)

variable {α : Type} [Scalar α] [Binary α] (r : Run) (plan : ReadingPlan) (q : Query) (rules : List Rule.Predicate)

omit [Scalar α] [Binary α] in
theorem quiet_lookUp {β : Type} [Binary β] (operation : Cache.Operation) (key : String) :
    (r.lookUp operation key : Job (Option β)).Quiet := by
  unfold lookUp
  cases r.shelf with
  | none => exact .pure _
  | some shelf =>
    exact Quiet.disk.bind fun d =>
      (Quiet.give (shelf.load_unwatched (β := β) d operation.name key)).bind fun _ => .pure _

omit [Scalar α] [Binary α] in
theorem quiet_found {β : Type} [Binary β] (useCache : Bool) (operation : Cache.Operation) (key : String) :
    (if useCache then r.lookUp operation key else pure none : Job (Option β)).Quiet := by
  split
  · exact quiet_lookUp r operation key
  · exact .pure _

omit [Scalar α] in
theorem quiet_recallBlock (opts : AverageOptions) (totalKey : String) (block : Cache.Block) :
    (r.recallBlock q opts totalKey block : Job (Piece α)).Quiet := by
  unfold recallBlock
  split
  · dsimp only
    split
    · exact (quiet_lookUp r .average _).bind fun _ => .pure _
    · exact .pure _
  · exact .pure _

/-- Making the plan is quiet, whether or not the offset has to be found. -/
theorem quiet_plan (splits : Splits) : (r.plan splits).Quiet := by
  have hoffset : r.modulatorOffset.Quiet := by
    refine Quiet.of_same fun s => ?_
    rw [run_modulatorOffset]
    cases r.knownOffset s.memory.offset with
    | some o => exact ⟨rfl, rfl⟩
    | none => cases r.detectOffsetIn s.disk r.files <;> exact ⟨rfl, rfl⟩
  unfold Run.plan
  split
  · exact hoffset.bind fun _ => .pure _
  · exact .pure _

omit [Binary α] in
theorem compiles_compileFile (name : String) :
    (r.compileFile plan q rules name : Job (Option (FileBuckets α))).Compiles [name] :=
  (Compiles.record name).bind fun _ => Quiet.disk.compiles.bind fun _ => (Compiles.lift _).bind fun _ => .noted _

/-- The files of the block, unless its average was recalled. -/
def unrecalled (p : Piece α) : List String := if p.found.isSome then [] else p.block.files

omit [Binary α] in
/-- The files of a block are sorted unless its average was recalled. -/
theorem compiles_freshAverages (p : Piece α) : (r.freshAverages plan q rules p).Compiles (unrecalled p) := by
  unfold freshAverages unrecalled
  cases p.found with
  | some v => exact .pure _
  | none =>
    refine Compiles.mapM_files (fun name => (compiles_compileFile r plan q rules name).bind_quiet fun buckets => ?_) _
    cases buckets with
    | none => exact .pure _
    | some buckets => exact (Compiles.lift _).bind_quiet fun _ => .pure _

/-! ## Keeping -/

omit [Scalar α] [Binary α] in
theorem quiet_keep {β : Type} [Binary β] (operation : Cache.Operation) (key : String) (files : List String)
    (value : β) :
    (r.keep operation key files value).Quiet := by
  unfold keep
  cases r.shelf with
  | none => exact .pure _
  | some shelf => exact Quiet.scene.bind fun s => (Quiet.writing _).bind fun _ => .pure _

/-- Settling a block sorts no file. -/
theorem quiet_settleBlock (opts : AverageOptions) (p : Piece α) (averages : List (Option (WeightedAverage α))) :
    (r.settleBlock opts p averages).Quiet := by
  unfold settleBlock
  cases p.found with
  | some v => exact .pure _
  | none =>
    refine (Quiet.lift _).bind fun o => ?_
    cases o with
    | none => exact .pure _
    | some v =>
      dsimp only
      split
      · exact (quiet_keep r .average _ _ v).bind fun _ => .pure _
      · exact .pure _

theorem quiet_averagePieces (opts : AverageOptions) (totalKey : String) (keepsTotal : Bool) (pieces : List (Piece α))
    (fresh : List (List (Option (WeightedAverage α)))) :
    (r.averagePieces q opts totalKey keepsTotal pieces fresh).Quiet := by
  have hsettle := Quiet.mapM (fun pair => quiet_settleBlock (α := α) r opts pair.1 pair.2) (pieces.zip fresh)
  refine hsettle.bind fun settled => (Quiet.lift _).bind fun o => ?_
  cases o with
  | none => exact .lift _
  | some total =>
    dsimp only
    split
    · exact (quiet_keep r .average _ _ total).bind fun _ => .pure _
    · exact .pure _

end Run
end ShotTally
