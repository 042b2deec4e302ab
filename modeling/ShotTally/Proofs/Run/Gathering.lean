/-
How an average comes about that is not recalled as a whole: the blocks that the shelf holds are
recalled, the files of the others are sorted, and what is wanted of their averages is saved in order.
-/
import ShotTally.Proofs.Cache.Deposits
import ShotTally.Proofs.Run.SideBySide
import ShotTally.Proofs.Run.Tracing
import ShotTally.Proofs.Run.Transparency

namespace ShotTally

open Binary (Fits)

/-- A job that computes an outcome ends with it. -/
theorem Job.Computes.of_run {β : Type} {d : Disk} {offset : Option Int} {x : Job β} {o : Outcome β}
    {s s' : Scene} {b : β}
    (h : x.Computes d offset o) (hd : s.disk = d) (ho : s.memory.offset = offset) (hrun : x.run s = (.ok b, s')) :
    o = .ok b ∧ s'.disk = d ∧ s'.memory.offset = offset ∧ s'.now = s.now := by
  obtain ⟨s₁, hrun₁, hd₁, ho₁, hn₁⟩ := h s hd ho
  obtain ⟨rfl, rfl⟩ := Prod.mk.inj (hrun₁.symm.trans hrun)
  exact ⟨rfl, hd₁, ho₁, hn₁⟩

theorem flatMap_ite_singleton {β γ : Type} (p : β → Bool) (f : β → γ) (l : List β) :
    (l.flatMap fun b => if p b then [f b] else []) = (l.filter p).map f := by
  induction l with
  | nil => rfl
  | cons b l ih => cases hb : p b <;> simp [hb, ih]

theorem flatMap_ite_nil {β : Type} (p : List β → Bool) (l : List (List β)) :
    (l.flatMap fun b => if p b then [] else b) = (l.filter fun b => !p b).flatten := by
  induction l with
  | nil => rfl
  | cons b l ih => cases hb : p b <;> simp [hb, ih]

variable {α : Type} [Scalar α]

/-! ## Files that hold data -/

namespace Run

/-- Whether a file can be read and holds data for the query. -/
def holdsData (r : Run) (d : Disk) (q : Query) (name : String) : Bool :=
  match r.store.load d name with
  | .ok file => (file.dataset? (r.aliases.resolve q.quantity)).isSome
  | .error _ => false

variable {r : Run} {d : Disk} {q : Query} {rules : List Rule.Predicate} {plan : ReadingPlan}

omit [Scalar α] in
theorem holdsData_congr {d' : Disk} {name : String} (h : r.store.load d' name = r.store.load d name) :
    r.holdsData d' q name = r.holdsData d q name := by
  unfold holdsData
  rw [h]

theorem isSome_averageOf (hp : plan.aliases = r.aliases) {name : String} {o : Option (WeightedAverage α)}
    (h : plan.averageOf (r.store.load d) q rules name = .ok o) : o.isSome = r.holdsData d q name := by
  obtain ⟨b, hb, h⟩ := bind_eq_ok.1 h
  obtain ⟨file, hfile, hb⟩ := bind_eq_ok.1 hb
  obtain ⟨-, shots, -, ⟨hnone, rfl⟩ | ⟨array, _, _, _, _, _, hsorts, rfl⟩⟩ :=
    ReadingPlan.sorted_eq_ok.1 (Outcome.within_eq_ok.1 hb)
  · cases h
    simp [holdsData, hfile, ← hp, hnone]
  · obtain ⟨v, -, h⟩ := bind_eq_ok.1 h
    cases h
    simp [holdsData, hfile, ← hp, hsorts.quantity]

theorem isSome_foldPresent {averages : List (Option (WeightedAverage α))} {o : Option (WeightedAverage α)}
    (h : ReadingPlan.foldPresent averages = .ok o) : o.isSome = averages.any (·.isSome) := by
  induction averages with
  | nil =>
    cases h
    rfl
  | cons average averages ih =>
    cases average with
    | none => exact ih h
    | some v =>
      obtain ⟨total, -, rfl⟩ := map_eq_ok.1 h
      simp

/-- A block has an average when one of its files holds data. -/
theorem isSome_blockAverage (hp : plan.aliases = r.aliases) {files : List String} {o : Option (WeightedAverage α)}
    (h : plan.blockAverage (r.store.load d) q rules files = .ok o) : o.isSome = files.any (r.holdsData d q) := by
  obtain ⟨averages, haverages, h⟩ := bind_eq_ok.1 h
  have hall : ∀ {files : List String} {averages : List (Option (WeightedAverage α))},
      List.Forall₂ (fun name o => plan.averageOf (r.store.load d) q rules name = .ok o) files averages →
        averages.any (·.isSome) = files.any (r.holdsData d q) := by
    intro files averages h
    induction h with
    | nil => rfl
    | cons ho _ ih => rw [List.any_cons, List.any_cons, isSome_averageOf hp ho, ih]
  rw [isSome_foldPresent h, hall (mapM_eq_ok.1 haverages)]

/-! ## What is recalled and what is wanted -/

/-- Whether the average over all files is kept. -/
def keepsTotal {β : Type} (opts : AverageOptions) (blocks : List β) : Bool :=
  opts.makeCache && opts.saveTotal && (opts.blockSize.isNone || decide (1 < blocks.length))

/-- Whether the average of these files is wanted on the shelf when they are a block. -/
def wantsBlock (opts : AverageOptions) (files : List String) : Bool :=
  opts.makeCache && opts.blockSize.any fun size => files.length == size || opts.saveIncomplete

theorem keepsBlock_of_mem {opts : AverageOptions} {files : List String} {blocks : List Cache.Block}
    (hcut : Cache.planBlocks files opts.blockSize = .ok blocks) {block : Cache.Block} (hb : block ∈ blocks) :
    keepsBlock opts block = wantsBlock opts block.files := by
  unfold keepsBlock wantsBlock
  rcases hsize : opts.blockSize with _ | size
  · simp
  · rw [hsize] at hcut
    rcases Nat.eq_zero_or_pos size with rfl | hpos
    · cases hcut
    rw [Cache.planBlocks_of_pos hpos] at hcut
    cases hcut
    obtain ⟨part, -, rfl⟩ := List.mem_map.1 hb
    simp

variable [Binary α]

/-- Whether the average of these files is recalled when they are a block. -/
def recallsBlock (α : Type) [Binary α] (r : Run) (d : Disk) (q : Query) (opts : AverageOptions)
    (files : List String) : Bool :=
  opts.useCache && opts.blockSize.isSome &&
    (r.held d .average (r.keyFor .average files q) : Option (WeightedAverage α)).isSome

omit [Scalar α] in
theorem isSome_found_pieceOn (opts : AverageOptions) (totalKey : String) (block : Cache.Block) :
    (r.pieceOn d q opts totalKey block : Piece α).found.isSome = r.recallsBlock α d q opts block.files := by
  unfold pieceOn recallsBlock
  cases opts.blockSize <;> cases opts.useCache <;> simp

omit [Scalar α] in
theorem found_pieceOn {opts : AverageOptions} {totalKey : String} {block : Cache.Block} {v : WeightedAverage α}
    (h : (r.pieceOn d q opts totalKey block).found = some v) : r.recallsBlock α d q opts block.files = true ∧
      r.held d .average (r.keyFor .average block.files q) = some v := by
  rw [← isSome_found_pieceOn opts totalKey, h]
  refine ⟨rfl, ?_⟩
  unfold pieceOn at h
  split at h
  · dsimp only at h
    split at h
    · exact h
    · cases h
  · cases h

omit [Scalar α] in
theorem key_pieceOn {opts : AverageOptions} (h : opts.blockSize.isSome = true) (totalKey : String)
    (block : Cache.Block) :
    (r.pieceOn d q opts totalKey block : Piece α).key = r.keyFor .average block.files q := by
  unfold pieceOn
  rw [if_pos h]

omit [Scalar α] in
/-- The blocks that are recalled are listed. -/
theorem recalledPieces_pieceOn {shelf : Shelf} (hshelf : r.shelf = some shelf) (opts : AverageOptions)
    (totalKey : String) (blocks : List Cache.Block) :
    r.recalledPieces (blocks.map (r.pieceOn d q opts totalKey : Cache.Block → Piece α)) =
      ((blocks.map (·.files)).filter (r.recallsBlock α d q opts)).map
        fun files => recordOf shelf .average (r.keyFor .average files q) files := by
  rw [recalledPieces, List.flatMap_map, List.filter_map, List.map_map, ← flatMap_ite_singleton]
  refine congrArg (List.flatMap · blocks) (funext fun block => ?_)
  rw [isSome_found_pieceOn, Function.comp_apply, Function.comp_apply]
  split
  · rename_i hrecalls
    have hsome : opts.blockSize.isSome = true := (Bool.and_eq_true_iff.1 (Bool.and_eq_true_iff.1 hrecalls).1).2
    rw [recalled, hshelf, pieceOn_block, key_pieceOn hsome]
  · rfl

/-! ## Gathering -/

/-- How an average comes about that is not recalled as a whole: the files of the blocks that are not recalled are
read, and with them the blocks are to be settled. -/
structure Gathers (r : Run) (q : Query) (opts : AverageOptions) (s : Scene) (rules : List Rule.Predicate)
    (blocks : List Cache.Block) (plan : ReadingPlan) (pieces : List (Piece α))
    (fresh : List (List (Option (WeightedAverage α)))) (s' : Scene) : Prop where
  compile : Rule.Predicate.compileAll q.rules = .ok rules
  cut : Cache.planBlocks r.files opts.blockSize = .ok blocks
  lookedUp : pieces = blocks.map (r.pieceOn s.disk q opts (r.keyFor .average r.files q))
  planned : r.planOn s.disk s.memory.offset q.splits = .ok plan
  read : pieces.mapM (plan.freshOf (r.store.load s.disk) q rules) = .ok fresh
  disk : s'.disk = s.disk
  now : s'.now = s.now
  settled : r.settledPlan s'.memory.offset q.splits = some plan
  compiled : s'.compiled = s.compiled ++ pieces.flatMap unrecalled

variable {opts : AverageOptions} {s s' : Scene} {a : RunAverage α}

theorem exists_gathers
    (hmiss : opts.useCache = true →
      (r.held s.disk .average (r.keyFor .average r.files q) : Option (WeightedAverage α)) = none)
    (h : (r.average q opts).run s = (.ok a, s')) :
    ∃ rules blocks plan pieces fresh s₁, r.Gathers (α := α) q opts s rules blocks plan pieces fresh s₁ ∧
      (r.averagePieces q opts (r.keyFor .average r.files q) (keepsTotal opts blocks) pieces fresh).run s₁ =
        (.ok a, s') := by
  -- every step of the run is taken apart in order; none of them changes the disk
  rw [average_eq] at h
  split at h
  · cases h
  obtain ⟨rules, _, hrun, h⟩ := exists_of_run_bind h
  obtain ⟨hrules, rfl⟩ := Job.of_run_lift hrun
  obtain ⟨found, s₁, hfound, h⟩ := exists_of_run_bind h
  have hs₁ := (quiet_found r opts.useCache .average _).compiles s found s₁ hfound
  obtain ⟨hvalue, hd₁, ho₁, hn₁⟩ := (computes_found opts.useCache .average _).of_run rfl rfl hfound
  obtain rfl : found = none := by
    split at hvalue
    · rename_i huse
      rw [hmiss huse] at hvalue
      exact (Except.ok.inj hvalue).symm
    · exact (Except.ok.inj hvalue).symm
  obtain ⟨blocks, _, hrun₁, h⟩ := exists_of_run_bind h
  obtain ⟨hblocks, rfl⟩ := Job.of_run_lift hrun₁
  obtain ⟨pieces, s₂, hpieces, h⟩ := exists_of_run_bind h
  obtain ⟨hfound₂, hd₂, ho₂, hn₂⟩ := (computes_recallBlocks q opts _ blocks).of_run hd₁ ho₁ hpieces
  cases hfound₂
  -- only here the memory changes: the offset is looked for and remembered
  obtain ⟨plan, s₃, hplan, h⟩ := exists_of_run_bind h
  obtain ⟨s₃', hplan', hd₃, -, hn₃, hsettled⟩ := r.run_plan q.splits hd₂ ho₂
  obtain ⟨hplanOn, rfl⟩ := Prod.mk.inj (hplan'.symm.trans hplan)
  obtain ⟨fresh, s₄, hfresh, h⟩ := exists_of_run_bind h
  obtain ⟨hfreshOf, hd₄, ho₄, hn₄⟩ := (Job.Computes.mapM fun p _ =>
    computes_freshAverages plan q rules p).of_run hd₃ rfl hfresh
  refine ⟨rules, blocks, plan, _, fresh, s₄, ⟨hrules, hblocks, rfl, hplanOn, hfreshOf, hd₄,
    hn₄.trans (hn₃.trans (hn₂.trans hn₁)), ?_, ?_⟩, h⟩
  · rw [ho₄]
    exact hsettled plan hplanOn
  · have hrecall := (Job.Quiet.mapM (quiet_recallBlock (α := α) r q opts (r.keyFor .average r.files q)) blocks).compiles
    have hread := Job.Compiles.mapM (compiles_freshAverages (α := α) r plan q rules)
    rw [hread _ _ _ _ hfresh, (quiet_plan r q.splits).compiles _ _ _ hplan, hrecall _ _ _ hpieces, hs₁]
    simp

/-! ## Saving -/

variable {shelf : Shelf}

omit [Scalar α] [Binary α] in
/-- A value that is kept is saved. -/
theorem saves_keep {β : Type} [Binary β] (hshelf : r.shelf = some shelf) {operation : Cache.Operation} {key : String}
    {files : List String} {value : β} {records : List CacheRecord}
    (h : (r.keep operation key files value).run s = (.ok records, s')) :
    records = [recordOf shelf operation key files] ∧ ∃ d, s' = { s with disk := d } ∧
      shelf.Saves operation s.now s.disk [⟨key, files, value⟩] d := by
  unfold keep at h
  rw [hshelf] at h
  obtain ⟨_, _, hget, h⟩ := exists_of_run_bind h
  cases hget
  obtain ⟨_, s₁, hsave, h⟩ := exists_of_run_bind h
  cases h
  rcases hrun : (shelf.save operation.name key files s.now value).run s.disk with ⟨o, d⟩
  rw [Job.run_writing hrun] at hsave
  cases hsave
  exact ⟨rfl, d, rfl, .cons hrun (.nil d)⟩

/-- The average of a block as it is saved: when it was not recalled, is wanted and there is one. -/
def partOf (opts : AverageOptions) (p : Piece α) (o : Option (WeightedAverage α)) :
    List (Deposit (WeightedAverage α)) :=
  if p.found.isNone && keepsBlock opts p.block then o.toList.map fun v => ⟨p.key, p.block.files, v⟩ else []

theorem saves_settleBlock (hshelf : r.shelf = some shelf) {p : Piece α} {averages : List (Option (WeightedAverage α))}
    {result : Option (WeightedAverage α) × List CacheRecord}
    (h : (r.settleBlock opts p averages).run s = (.ok result, s')) :
    ReadingPlan.settledOf p averages = .ok result.1 ∧
    result.2 = (partOf opts p result.1).map (·.record shelf .average) ∧
      ∃ d, s' = { s with disk := d } ∧ shelf.Saves .average s.now s.disk (partOf opts p result.1) d := by
  unfold settleBlock at h
  unfold ReadingPlan.settledOf partOf
  cases hfound : p.found with
  | some v =>
    rw [hfound] at h
    cases h
    exact ⟨rfl, rfl, s.disk, rfl, .nil _⟩
  | none =>
    rw [hfound] at h
    obtain ⟨o, _, hrun, h⟩ := exists_of_run_bind h
    obtain ⟨hfold, rfl⟩ := Job.of_run_lift hrun
    cases o with
    | none =>
      cases h
      exact ⟨hfold, by simp, s.disk, rfl, by simpa using .nil _⟩
    | some v =>
      -- a new average is returned in any case, and written down if the block is one to keep
      cases hkeeps : keepsBlock opts p.block with
      | false =>
        dsimp only at h
        rw [hkeeps] at h
        cases h
        exact ⟨hfold, rfl, s.disk, rfl, .nil _⟩
      | true =>
        dsimp only at h
        rw [hkeeps, if_pos rfl] at h
        obtain ⟨records, s₁, hkeep, h⟩ := exists_of_run_bind h
        cases h
        obtain ⟨rfl, hd⟩ := saves_keep hshelf hkeep
        exact ⟨hfold, rfl, hd⟩

/-- The averages of the blocks as they are saved. -/
def partsOf (opts : AverageOptions) (pieces : List (Piece α)) (values : List (Option (WeightedAverage α))) :
    List (Deposit (WeightedAverage α)) :=
  (pieces.zip values).flatMap fun x => partOf opts x.1 x.2

/-- The blocks are settled one after the other. -/
theorem saves_settleBlocks (hshelf : r.shelf = some shelf) :
    ∀ {pairs : List (Piece α × List (Option (WeightedAverage α)))} {s s' : Scene}
      {results : List (Option (WeightedAverage α) × List CacheRecord)},
      (pairs.mapM fun pair => r.settleBlock opts pair.1 pair.2).run s = (.ok results, s') →
      (pairs.mapM fun pair => ReadingPlan.settledOf pair.1 pair.2) = .ok (results.map (·.1)) ∧
        results.flatMap (·.2) = (partsOf opts (pairs.map (·.1)) (results.map (·.1))).map (·.record shelf .average) ∧
        ∃ d, s' = { s with disk := d } ∧
          shelf.Saves .average s.now s.disk (partsOf opts (pairs.map (·.1)) (results.map (·.1))) d
  | [], s, s', results, h => by
    cases h
    exact ⟨rfl, rfl, s.disk, rfl, .nil _⟩
  | pair :: pairs, s, s', results, h => by
    rw [List.mapM_cons] at h
    obtain ⟨result, s₁, hfirst, h⟩ := exists_of_run_bind h
    obtain ⟨others, s₂, hrest, h⟩ := exists_of_run_bind h
    cases h
    obtain ⟨hvalue, hrecords, d₁, rfl, hsaves₁⟩ := saves_settleBlock hshelf hfirst
    obtain ⟨hvalues, hothers, d₂, rfl, hsaves₂⟩ := saves_settleBlocks hshelf hrest
    refine ⟨?_, ?_, d₂, rfl, hsaves₁.append hsaves₂⟩
    · rw [List.mapM_cons, hvalue, ok_bind, hvalues]
      rfl
    · rw [List.flatMap_cons, hrecords, hothers, ← List.map_append]
      rfl

/-- The averages of blocks, and behind them the average over all files if that is saved. -/
def withWhole (parts : List (Deposit (WeightedAverage α))) (keeps : Bool) (key : String) (files : List String)
    (v : WeightedAverage α) : List (Deposit (WeightedAverage α)) :=
  parts ++ if keeps then [⟨key, files, v⟩] else []

/-- The blocks are settled, and then the average over all of them. -/
theorem saves_averagePieces (hshelf : r.shelf = some shelf) {pieces : List (Piece α)}
    {fresh : List (List (Option (WeightedAverage α)))} {totalKey : String} {keeps : Bool}
    (hlength : pieces.length = fresh.length)
    (h : (r.averagePieces q opts totalKey keeps pieces fresh).run s = (.ok a, s')) :
    ∃ values, ((pieces.zip fresh).mapM fun pair => ReadingPlan.settledOf pair.1 pair.2) = .ok values ∧
      ReadingPlan.foldPresent values = .ok (some a.average) ∧
      a.cache.saved = (withWhole (partsOf opts pieces values) keeps totalKey r.files a.average).map
        (·.record shelf .average) ∧
      a.cache.loaded = r.recalledPieces pieces ∧ ∃ d, s' = { s with disk := d } ∧
        shelf.Saves .average s.now s.disk
          (withWhole (partsOf opts pieces values) keeps totalKey r.files a.average) d := by
  obtain ⟨results, s₁, hsettle, h⟩ := exists_of_run_bind h
  obtain ⟨hvalues, hrecords, d₁, rfl, hsaves⟩ := saves_settleBlocks hshelf hsettle
  rw [List.map_fst_zip (Nat.le_of_eq hlength)] at hrecords hsaves
  obtain ⟨o, _, hrun, h⟩ := exists_of_run_bind h
  obtain ⟨hfold, rfl⟩ := Job.of_run_lift hrun
  have htotal : ReadingPlan.foldPresent (results.map (·.1)) = .ok o := by
    rw [ReadingPlan.foldPresent, List.filterMap_map]
    exact hfold
  refine ⟨_, hvalues, ?_⟩
  rw [htotal, withWhole, List.map_append, ← hrecords]
  cases o with
  | none => cases h
  | some total =>
    -- the disk after the blocks, and after the whole if that is kept too
    cases keeps with
    | false =>
      cases h
      exact ⟨rfl, rfl, rfl, d₁, rfl, by simpa [withWhole] using hsaves⟩
    | true =>
      obtain ⟨records, s₂, hkeep, h⟩ := exists_of_run_bind h
      cases h
      obtain ⟨rfl, d₂, rfl, hsaves₂⟩ := saves_keep (s := { s with disk := d₁ }) hshelf hkeep
      exact ⟨rfl, rfl, rfl, d₂, rfl, hsaves.append hsaves₂⟩

/-! ## What is saved and what is recalled -/

omit [Binary α] in
/-- The blocks that were not recalled were settled with the averages of their files. -/
theorem forall₂_settled {load : String → Outcome ShotFile} {pieces : List (Piece α)}
    {fresh : List (List (Option (WeightedAverage α)))} {values : List (Option (WeightedAverage α))}
    (hread : pieces.mapM (plan.freshOf load q rules) = .ok fresh)
    (hvalues : ((pieces.zip fresh).mapM fun pair => ReadingPlan.settledOf pair.1 pair.2) = .ok values) :
    List.Forall₂ (fun p o => p.found = none → plan.blockAverage load q rules p.block.files = .ok o) pieces values := by
  have hfresh := mapM_eq_ok.1 hread
  clear hread
  induction hfresh generalizing values with
  | nil =>
    cases hvalues
    exact .nil
  | @cons p averages _ _ hp _ ih =>
    rw [List.zip_cons_cons, List.mapM_cons] at hvalues
    obtain ⟨o, ho, hvalues⟩ := bind_eq_ok.1 hvalues
    obtain ⟨others, hothers, hvalues⟩ := bind_eq_ok.1 hvalues
    cases hvalues
    refine .cons (fun hfound => ?_) (ih hothers)
    rw [ReadingPlan.freshOf, hfound] at hp
    rw [ReadingPlan.settledOf, hfound] at ho
    exact bind_eq_ok.2 ⟨averages, hp, ho⟩

omit [Binary α] in
/-- Of the blocks that were not recalled those are saved that are wanted and hold data. -/
theorem map_files_partsOf (hp : plan.aliases = r.aliases) {pieces : List (Piece α)}
    {values : List (Option (WeightedAverage α))} (h : List.Forall₂ (fun p o => p.found = none →
      plan.blockAverage (r.store.load d) q rules p.block.files = .ok o) pieces values) :
    (partsOf opts pieces values).map (·.files) = (pieces.filter fun p =>
      p.found.isNone && keepsBlock opts p.block && p.block.files.any (r.holdsData d q)).map (·.block.files) := by
  induction h with
  | nil => rfl
  | @cons p o pieces values hblock _ ih =>
    have hcons : partsOf opts (p :: pieces) (o :: values) = partOf opts p o ++ partsOf opts pieces values := rfl
    rw [hcons, List.map_append, ih, List.filter_cons]
    unfold partOf
    cases hkept : p.found.isNone && keepsBlock opts p.block with
    | false => simp
    | true =>
      have hfound : p.found = none := Option.isNone_iff_eq_none.1 (Bool.and_eq_true_iff.1 hkept).1
      have hholds := isSome_blockAverage hp (hblock hfound)
      cases o <;> simp [← hholds]

omit [Binary α] in
/-- A value that is saved for a block is the average of its files. -/
theorem of_mem_partsOf {load : String → Outcome ShotFile} {pieces : List (Piece α)}
    {values : List (Option (WeightedAverage α))} (h : List.Forall₂ (fun p o => p.found = none →
      plan.blockAverage load q rules p.block.files = .ok o) pieces values) {x : Deposit (WeightedAverage α)}
    (hx : x ∈ partsOf opts pieces values) : plan.blockAverage load q rules x.files = .ok (some x.value) ∧
      ∃ p ∈ pieces, keepsBlock opts p.block = true ∧ x.key = p.key ∧ x.files = p.block.files := by
  obtain ⟨⟨p, o⟩, hpair, hx⟩ := List.mem_flatMap.1 hx
  have hblock := List.forall₂_zip h hpair
  unfold partOf at hx
  split at hx
  · rename_i hkept
    obtain ⟨hfound, hkeeps⟩ := Bool.and_eq_true_iff.1 hkept
    obtain ⟨v, hv, rfl⟩ := List.mem_map.1 hx
    obtain rfl := Option.mem_toList.1 hv
    exact ⟨hblock (Option.isNone_iff_eq_none.1 hfound), p, (List.of_mem_zip hpair).1, hkeeps, rfl, rfl⟩
  · cases hx

/-- What is saved along with these averages of blocks. -/
def deposits (r : Run) (q : Query) (opts : AverageOptions) (parts : List (Deposit (WeightedAverage α)))
    (v : WeightedAverage α) : List (Deposit (WeightedAverage α)) :=
  withWhole parts (keepsTotal opts (Cache.blocksOf opts.blockSize r.files)) (r.keyFor .average r.files q) r.files v

/-- What an average does that is not recalled as a whole: the averages of blocks that it saves, and what it saves
and recalls in all. -/
structure Fills (r : Run) (shelf : Shelf) (q : Query) (opts : AverageOptions) (s s' : Scene) (a : RunAverage α)
    (rules : List Rule.Predicate) (plan : ReadingPlan) (parts : List (Deposit (WeightedAverage α))) : Prop where
  compile : Rule.Predicate.compileAll q.rules = .ok rules
  planned : r.planOn s.disk s.memory.offset q.splits = .ok plan
  settled : r.settledPlan s'.memory.offset q.splits = some plan
  files : parts.map (·.files) = (Cache.blocksOf opts.blockSize r.files).filter fun files =>
    !r.recallsBlock α s.disk q opts files && wantsBlock opts files && files.any (r.holdsData s.disk q)
  key : ∀ x ∈ parts, x.key = r.keyFor .average x.files q
  value : ∀ x ∈ parts, plan.blockAverage (r.store.load s.disk) q rules x.files = .ok (some x.value)
  /-- The average is that of the files if those of the blocks that were recalled are. -/
  total : (∀ files ∈ Cache.blocksOf opts.blockSize r.files, r.recallsBlock α s.disk q opts files = true →
      ∀ v : WeightedAverage α, r.held s.disk .average (r.keyFor .average files q) = some v →
        plan.blockAverage (r.store.load s.disk) q rules files = .ok (some v)) →
    plan.totalOf (r.store.load s.disk) q rules (Cache.blocksOf opts.blockSize r.files) = .ok (some a.average)
  saves : shelf.Saves .average s.now s.disk (r.deposits q opts parts a.average) s'.disk
  saved : a.cache.saved = (r.deposits q opts parts a.average).map (·.record shelf .average)
  loaded : a.cache.loaded = ((Cache.blocksOf opts.blockSize r.files).filter (r.recallsBlock α s.disk q opts)).map
    fun files => recordOf shelf .average (r.keyFor .average files q) files
  compiled : s'.compiled = s.compiled ++ ((Cache.blocksOf opts.blockSize r.files).filter fun files =>
    !r.recallsBlock α s.disk q opts files).flatten

theorem exists_fills (hshelf : r.shelf = some shelf) (hsize : opts.blockSize ≠ some 0)
    (hmiss : opts.useCache = true →
      (r.held s.disk .average (r.keyFor .average r.files q) : Option (WeightedAverage α)) = none)
    (h : (r.average q opts).run s = (.ok a, s')) :
    ∃ rules plan parts, r.Fills shelf q opts s s' a rules plan parts := by
  obtain ⟨rules, blocks, plan, pieces, fresh, s₁, hg, hrun⟩ := exists_gathers hmiss h
  obtain ⟨hcompile, hcut, hpieces, hplanned, hread, hdisk, hnow, hsettled, hcompiled⟩ := hg
  obtain ⟨blocks', hcut', hfiles⟩ := Cache.planBlocks_eq_ok hsize r.files
  obtain rfl : blocks = blocks' := Except.ok.inj (hcut.symm.trans hcut')
  obtain ⟨values, hvalues, htotal, hsaved, hloaded, d, rfl, hsaves⟩ :=
    saves_averagePieces hshelf (mapM_eq_ok.1 hread).length_eq hrun
  have hblocks := forall₂_settled hread hvalues
  have hp : plan.aliases = r.aliases := by
    obtain ⟨o, rfl⟩ := exists_planWith hplanned
    rfl
  have hkeeps : keepsTotal opts blocks = keepsTotal opts (Cache.blocksOf opts.blockSize r.files) := by
    rw [← hfiles, keepsTotal, keepsTotal, List.length_map]
  rw [hkeeps] at hsaved hsaves
  rw [hdisk, hnow] at hsaves
  -- what is kept is the average of a block that was not recalled, under the key of its files
  have hpart : ∀ x ∈ partsOf opts pieces values,
    plan.blockAverage (r.store.load s.disk) q rules x.files = .ok (some x.value) ∧
      x.key = r.keyFor .average x.files q := by
    intro x hx
    obtain ⟨hvalue, p, hp, hkeep, hkey, hxfiles⟩ := of_mem_partsOf hblocks hx
    rw [hpieces] at hp
    obtain ⟨block, -, rfl⟩ := List.mem_map.1 hp
    rw [pieceOn_block] at hkeep hxfiles
    exact ⟨hvalue, by rw [hkey, hxfiles, key_pieceOn (Ground.makes_of_keepsBlock hkeep).2]⟩
  refine ⟨rules, plan, partsOf opts pieces values, hcompile, hplanned, hsettled, ?_, fun x hx => (hpart x hx).2,
    fun x hx => (hpart x hx).1, fun hright => ?_, hsaves, hsaved, ?_, ?_⟩
  · rw [map_files_partsOf hp hblocks, hpieces, List.filter_map, List.map_map, ← hfiles, List.filter_map]
    refine (List.map_congr_left fun block _ => congrArg Cache.Block.files (pieceOn_block q opts _ block)).trans ?_
    refine congrArg (List.map Cache.Block.files) (List.filter_congr fun block hb => ?_)
    rw [Function.comp_apply, Function.comp_apply, pieceOn_block, ← keepsBlock_of_mem hcut hb, ← isSome_found_pieceOn,
      Option.not_isSome]
  -- with true recollections the pieces fold to the total of all blocks
  · have htruth : ∀ p ∈ pieces, ReadingPlan.Truthful plan (r.store.load s.disk) q rules p := by
      intro p hp v hv
      rw [hpieces] at hp
      obtain ⟨block, hb, rfl⟩ := List.mem_map.1 hp
      obtain ⟨hrecalls, hheld⟩ := found_pieceOn hv
      rw [pieceOn_block]
      exact hright _ (hfiles ▸ List.mem_map_of_mem hb) hrecalls v hheld
    have hall : pieces.map (fun p => p.block.files) = Cache.blocksOf opts.blockSize r.files := by
      rw [hpieces, List.map_map, ← hfiles]
      exact List.map_congr_left fun block _ => by rw [Function.comp_apply, pieceOn_block]
    rw [← hall, ReadingPlan.totalOf_pieces htruth, hread, ok_bind, hvalues]
    exact htotal
  · rw [hloaded, hpieces, recalledPieces_pieceOn hshelf, hfiles]
  · rw [(quiet_averagePieces r q _ _ _ _ _).compiles _ _ _ hrun, hcompiled, List.append_nil, hpieces, List.flatMap_map,
      ← flatMap_ite_nil, ← hfiles, List.flatMap_map]
    refine congrArg (s.compiled ++ List.flatMap · blocks) (funext fun block => ?_)
    rw [unrecalled, isSome_found_pieceOn, pieceOn_block]

namespace Fills

variable {parts : List (Deposit (WeightedAverage α))}

/-- What is saved has the keys of its files, those of a block or all files. -/
theorem of_mem (hf : r.Fills shelf q opts s s' a rules plan parts) {x : Deposit (WeightedAverage α)}
    (hx : x ∈ r.deposits q opts parts a.average) :
    x.key = r.keyFor .average x.files q ∧
      (x.files ∈ Cache.blocksOf opts.blockSize r.files ∧
          plan.blockAverage (r.store.load s.disk) q rules x.files = .ok (some x.value) ∨
        x.files = r.files ∧ x.value = a.average) := by
  rcases List.mem_append.1 hx with hx | hx
  · have hmem : x.files ∈ parts.map (·.files) := List.mem_map_of_mem hx
    rw [hf.files] at hmem
    exact ⟨hf.key x hx, .inl ⟨(List.mem_filter.1 hmem).1, hf.value x hx⟩⟩
  · split at hx
    · obtain rfl := List.mem_singleton.1 hx
      exact ⟨rfl, .inr ⟨rfl, rfl⟩⟩
    · cases hx

/-- What is saved was asked for. -/
theorem asked (hf : r.Fills shelf q opts s s' a rules plan parts) {x : Deposit (WeightedAverage α)}
    (hx : x ∈ r.deposits q opts parts a.average) : x.files ∈ r.files :: Cache.blocksOf opts.blockSize r.files := by
  obtain ⟨-, ⟨hblock, -⟩ | ⟨hall, -⟩⟩ := hf.of_mem hx
  · exact List.mem_cons_of_mem _ hblock
  · rw [hall]
    exact List.mem_cons_self

/-- What is saved has digests for keys. -/
theorem keyed (hf : r.Fills shelf q opts s s' a rules plan parts) :
    ∀ x ∈ r.deposits q opts parts a.average, x.Keyed :=
  fun _ hx => ⟨_, (hf.of_mem hx).1⟩

variable [Binary.Lawful α]

/-- What is saved fits the form it is written in when the averages of the blocks do and the average does. -/
theorem fits (hf : r.Fills shelf q opts s s' a rules plan parts) (hsize : opts.blockSize ≠ some 0) (hnow : Fits s.now)
    (hwrite : ∀ x ∈ r.averageQuestions q opts.blockSize, x.Writable α (r.store.load s.disk) plan opts.blockSize)
    (ha : Fits a.average) : ∀ x ∈ r.deposits q opts parts a.average, Fits (x.artifact s.now) := by
  intro x hx
  obtain ⟨hkey, ⟨hblock, hvalue⟩ | ⟨hfiles, hvalue⟩⟩ := hf.of_mem hx
  · have hasked := hwrite _ (List.mem_cons_of_mem _ (List.mem_map_of_mem hblock))
    have htotal : plan.totalOf (r.store.load s.disk) q rules (Cache.blocksOf opts.blockSize x.files) =
        .ok (some x.value) := by
      rw [Cache.blocksOf_block hsize hblock, ReadingPlan.totalOf_single]
      exact hvalue
    unfold Deposit.artifact
    rw [hkey]
    exact Artifact.fits_make hasked.files hnow (hasked.average rfl rules x.value hf.compile htotal)
  · have hasked := hwrite _ List.mem_cons_self
    unfold Deposit.artifact
    rw [hkey, hfiles, hvalue]
    exact Artifact.fits_make hasked.files hnow ha

end Fills

end Run
end ShotTally
