/-
Averages and collections with and without the shelf. On sound ground a call ends with the outcome
that it has when nothing is recalled and nothing is kept, and leaves the ground sound.
-/
import ShotTally.Proofs.Run.Keeping
import ShotTally.Proofs.Run.Pieces

namespace ShotTally

open Binary (Fits)

namespace Run

variable {α : Type} [Scalar α] [Binary α] {r : Run} {d : Disk} {offset : Option Int}

/-! ## Looking up -/

/-- The value kept under a key. -/
def held {β : Type} [Binary β] (r : Run) (d : Disk) (operation : Cache.Operation) (key : String) : Option β :=
  match r.shelf with
  | none => none
  | some shelf => (shelf.load d operation.name key : Option (Artifact β) × List Notice).1.map (·.value)

theorem computes_lookUp {β : Type} [Binary β] (operation : Cache.Operation) (key : String) :
    Job.Computes d offset (r.lookUp operation key : Job (Option β)) (.ok (r.held d operation key)) := by
  unfold lookUp held
  cases r.shelf with
  | none => exact .pure _
  | some shelf =>
    refine Job.Computes.disk.bind (g := fun d => .ok ((shelf.load d operation.name key :
      Option (Artifact β) × List Notice).1.map (·.value))) fun d' hd => ?_
    cases hd
    exact (Job.Computes.give _).bind (g := fun _ => _) fun _ _ => .pure _

omit [Scalar α] [Binary α] in
/-- A value that is kept stands in an artifact on the shelf. -/
theorem exists_of_held {β : Type} [Binary β] {operation : Cache.Operation} {key : String} {v : β}
    (h : r.held d operation key = some v) :
    ∃ shelf ∈ r.shelf, ∃ a : Artifact β, (shelf.load d operation.name key).1 = some a ∧ a.value = v := by
  unfold held at h
  rcases hr : r.shelf with _ | shelf
  · rw [hr] at h
    cases h
  · rw [hr] at h
    exact ⟨shelf, rfl, Option.map_eq_some_iff.1 h⟩

/-- Looking up a key or not. -/
theorem computes_found {β : Type} [Binary β] (useCache : Bool) (operation : Cache.Operation) (key : String) :
    Job.Computes d offset (if useCache then r.lookUp operation key else pure none : Job (Option β))
      (.ok (if useCache then r.held d operation key else none)) := by
  cases useCache
  · exact .pure _
  · exact computes_lookUp operation key

/-- A block with what is recalled for it. -/
def pieceOn (r : Run) (d : Disk) (q : Query) (opts : AverageOptions) (totalKey : String)
    (block : Cache.Block) : Piece α :=
  if opts.blockSize.isSome then
    ⟨block, r.keyFor .average block.files q,
      if opts.useCache then r.held d .average (r.keyFor .average block.files q) else none⟩
  else ⟨block, totalKey, none⟩

omit [Scalar α] in
theorem computes_recallBlock (q : Query) (opts : AverageOptions) (totalKey : String) (block : Cache.Block) :
    Job.Computes d offset (r.recallBlock q opts totalKey block : Job (Piece α))
      (.ok (r.pieceOn d q opts totalKey block)) := by
  unfold recallBlock pieceOn
  generalize r.keyFor .average block.files q = key
  split
  · dsimp only
    split
    · exact (computes_lookUp .average key).bind (g := fun found => .ok (⟨block, key, found⟩ : Piece α)) fun found _ =>
        .pure (⟨block, key, found⟩ : Piece α)
    · exact .pure _
  · exact .pure _

theorem mapM_ok_map {ι κ : Type} (f : ι → κ) (l : List ι) :
    l.mapM (fun i => (.ok (f i) : Outcome κ)) = .ok (l.map f) := by
  induction l with
  | nil => rfl
  | cons i l ih => rw [List.mapM_cons, ih]; rfl

omit [Scalar α] in
theorem computes_recallBlocks (q : Query) (opts : AverageOptions) (totalKey : String) (blocks : List Cache.Block) :
    Job.Computes d offset (blocks.mapM (r.recallBlock q opts totalKey) : Job (List (Piece α)))
      (.ok (blocks.map (r.pieceOn d q opts totalKey))) := by
  rw [← mapM_ok_map]
  exact .mapM fun block _ => computes_recallBlock q opts totalKey block

omit [Binary α] in
theorem computes_freshAverages (plan : ReadingPlan) (q : Query) (rules : List Rule.Predicate) (p : Piece α) :
    Job.Computes d offset (r.freshAverages plan q rules p) (plan.freshOf (r.store.load d) q rules p) := by
  unfold freshAverages ReadingPlan.freshOf
  cases p.found with
  | some v => exact .pure _
  | none => exact .mapM fun name _ => computes_fileAverage plan q rules name

omit [Scalar α] in
theorem pieceOn_block (q : Query) (opts : AverageOptions) (totalKey : String) (block : Cache.Block) :
    (r.pieceOn d q opts totalKey block : Piece α).block = block := by
  unfold pieceOn
  split <;> rfl

/-- An average looks for that of all files first. -/
theorem average_eq (q : Query) (opts : AverageOptions) : (r.average q opts : Job (RunAverage α)) =
    if r.files.isEmpty then Job.lift (fail (noData q r.files))
    else Job.lift (Rule.Predicate.compileAll q.rules) >>= fun rules =>
      (if opts.useCache then r.lookUp .average (r.keyFor .average r.files q) else pure none : Job (Option _)) >>=
        fun found => match found with
        | some average => pure ⟨average, ⟨[], r.recalled .average (r.keyFor .average r.files q) r.files⟩⟩
        | none => r.averageByBlocks q opts rules (r.keyFor .average r.files q) := by
  unfold average
  dsimp only
  by_cases hempty : r.files.isEmpty = true
  · rw [if_pos hempty, if_pos hempty]
    rfl
  · rw [if_neg hempty, if_neg hempty]
    refine congrArg (Job.lift (Rule.Predicate.compileAll q.rules) >>= ·) (funext fun rules => ?_)
    cases opts.useCache <;> rfl

/-- The rows of every bucket when those of the whole run were not recalled. -/
def collectFiles (r : Run) (q : Query) (opts : AverageOptions) (rules : List Rule.Predicate) (key : String) :
    Job (RunCollection α) := do
  let plan ← r.plan q.splits
  let compiled ← r.files.mapM (r.compileFile plan q rules)
  match compiled.filterMap id with
  | [] => Job.lift (fail (noData q r.files))
  | present =>
    let buckets : CollectedBuckets α := ⟨q.bucketShape, ← Job.lift (joinBuckets present)⟩
    let saved ← if opts.makeCache && opts.saveTotal then r.keep .collect key r.files buckets else pure []
    return ⟨buckets, ⟨saved, []⟩⟩

/-- The rows of every bucket over files that have been sorted. -/
def collected (r : Run) (q : Query) (opts : AverageOptions) (key : String)
    (compiled : List (Option (FileBuckets α))) : Job (RunCollection α) := do
  match compiled.filterMap id with
  | [] => Job.lift (fail (noData q r.files))
  | present =>
    let buckets : CollectedBuckets α := ⟨q.bucketShape, ← Job.lift (joinBuckets present)⟩
    let saved ← if opts.makeCache && opts.saveTotal then r.keep .collect key r.files buckets else pure []
    return ⟨buckets, ⟨saved, []⟩⟩

/-- The rows are joined after the files have been sorted by one plan. -/
theorem collectFiles_eq (q : Query) (opts : AverageOptions) (rules : List Rule.Predicate) (key : String) :
    (r.collectFiles q opts rules key : Job (RunCollection α)) =
      r.plan q.splits >>= fun plan => r.files.mapM (r.compileFile plan q rules) >>= r.collected q opts key := rfl

/-- A collection looks for that of all files first. -/
theorem collect_eq (q : Query) (opts : AverageOptions) : (r.collect q opts : Job (RunCollection α)) =
    Job.lift (Rule.Predicate.compileAll q.rules) >>= fun rules =>
      (if opts.useCache then r.lookUp .collect (r.keyFor .collect r.files q) else pure none : Job (Option _)) >>=
        fun found => match found with
        | some buckets => pure ⟨buckets, ⟨[], r.recalled .collect (r.keyFor .collect r.files q) r.files⟩⟩
        | none => r.collectFiles q opts rules (r.keyFor .collect r.files q) := by
  refine congrArg (Job.lift (Rule.Predicate.compileAll q.rules) >>= ·) (funext fun rules => ?_)
  dsimp only
  cases opts.useCache <;> rfl

/-- The average over blocks whose files have been read. -/
def averagePieces (r : Run) (q : Query) (opts : AverageOptions) (totalKey : String) (keepsTotal : Bool)
    (pieces : List (Piece α)) (fresh : List (List (Option (WeightedAverage α)))) : Job (RunAverage α) := do
  let settled ← (pieces.zip fresh).mapM fun pair => r.settleBlock opts pair.1 pair.2
  match ← Job.lift (WeightedAverage.fold (settled.filterMap (·.1))) with
  | none => Job.lift (fail (noData q r.files))
  | some total =>
    let saved ← if keepsTotal then r.keep .average totalKey r.files total else pure []
    return ⟨total, ⟨settled.flatMap (·.2) ++ saved, r.recalledPieces pieces⟩⟩

/-- What an average asks the shelf for: all files, and each block. -/
def averageQuestions (r : Run) (q : Query) (blockSize : Option Nat) : List Question :=
  ⟨.average, r.files, q⟩ :: (Cache.blocksOf blockSize r.files).map fun files => ⟨.average, files, q⟩

end Run

namespace Ground

variable {α : Type} [Scalar α] [Binary α] [Binary.Lawful α] {g : Ground} {r : Run}
  {settled : Splits → Option ReadingPlan}

/-! ## Settling blocks -/

omit [Binary.Lawful α] in
/-- What is found for a question is right. -/
theorem Sound.average_of_held {d : Disk} (hs : g.Sound α settled d) (hr : r.store = g.store) (hsh : r.shelf = g.shelf)
    {files : List String} {q : Query} (hx : g.involved ⟨.average, files, q⟩) {v : WeightedAverage α}
    (h : r.held d .average (r.keyFor .average files q) = some v) : g.RightAverage settled files q v := by
  obtain ⟨shelf, hm, a, ha, rfl⟩ := Run.exists_of_held h
  rw [Run.keyFor, hr] at ha
  exact hs.averages shelf (by rw [← hsh]; exact hm) files q hx a ha

omit [Binary.Lawful α] in
theorem Sound.collection_of_held {d : Disk} (hs : g.Sound α settled d) (hr : r.store = g.store)
    (hsh : r.shelf = g.shelf)
    {files : List String} {q : Query} (hx : g.involved ⟨.collect, files, q⟩) {c : CollectedBuckets α}
    (h : r.held d .collect (r.keyFor .collect files q) = some c) : g.RightCollection settled files q c := by
  obtain ⟨shelf, hm, a, ha, rfl⟩ := Run.exists_of_held h
  rw [Run.keyFor, hr] at ha
  exact hs.collections shelf (by rw [← hsh]; exact hm) files q hx a ha

omit [Scalar α] [Binary α] [Binary.Lawful α] in
/-- Blocks are kept only by calls that keep. -/
theorem makes_of_keepsBlock {opts : AverageOptions} {block : Cache.Block} (h : Run.keepsBlock opts block = true) :
    opts.makeCache = true ∧ opts.blockSize.isSome = true := by
  unfold Run.keepsBlock at h
  rw [Bool.and_eq_true, Bool.and_eq_true] at h
  exact h.1

/-- A block with the averages of its files, ready to be settled. -/
structure Ready (g : Ground) (r : Run) (plan : ReadingPlan) (q : Query) (rules : List Rule.Predicate)
    (opts : AverageOptions) (now : String) (p : Run.Piece α) (averages : List (Option (WeightedAverage α))) : Prop where
  fresh : p.found = none → p.block.files.mapM (plan.averageOf g.load q rules) = .ok averages
  block : Cache.blocksOf opts.blockSize p.block.files = [p.block.files]
  keeps : Run.keepsBlock opts p.block = true → g.Keepable r .average p.key p.block.files q now

section

variable {plan : ReadingPlan} {q : Query} {rules : List Rule.Predicate} {opts : AverageOptions}

omit [Binary α] [Binary.Lawful α] in
/-- With any of the block sizes a block comes to its average. -/
theorem isAverage_of_block [Binary α] [Binary.Lawful α] (ht : g.Trusted α) (hk : g.sizes opts.blockSize)
    (hrules : Rule.Predicate.compileAll q.rules = .ok rules) {files : List String}
    (hb : Cache.blocksOf opts.blockSize files = [files]) {v : WeightedAverage α}
    (h : plan.blockAverage g.load q rules files = .ok (some v)) : g.IsAverage plan files q v := by
  refine ⟨rules, hrules, fun size hsize => ht.uniform plan q rules files v _ size hk hsize ?_⟩
  rw [hb, ReadingPlan.totalOf_single]
  exact h

theorem run_settleBlock (ht : g.Trusted α) (hr : r.store = g.store) (hk : g.sizes opts.blockSize)
    (hrules : Rule.Predicate.compileAll q.rules = .ok rules) (hp : settled q.splits = some plan) (hpl : g.plans plan)
    {p : Run.Piece α} {averages : List (Option (WeightedAverage α))} {s : Scene}
    (hready : g.Ready r plan q rules opts s.now p averages) (hs : g.Sound α settled s.disk) :
    ∃ o d, (r.settleBlock opts p averages).run s = (o, { s with disk := d }) ∧
      o.map (·.1) = ReadingPlan.settledOf p averages ∧ g.Sound α settled d := by
  unfold Run.settleBlock ReadingPlan.settledOf
  cases hfound : p.found with
  | some v => exact ⟨_, s.disk, rfl, rfl, hs⟩
  | none =>
    have hfold : (Job.lift (WeightedAverage.fold (averages.filterMap id))).run s =
        (ReadingPlan.foldPresent averages, s) := rfl
    rcases hv : ReadingPlan.foldPresent averages with e | _ | v
    · rw [hv] at hfold
      exact ⟨_, s.disk, Job.run_bind_error hfold, rfl, hs⟩
    · rw [hv] at hfold
      exact ⟨_, s.disk, (Job.run_bind_ok hfold).trans rfl, rfl, hs⟩
    · rw [hv] at hfold
      -- the average is that of the block, so keeping it leaves the ground sound
      have hb : plan.blockAverage g.load q rules p.block.files = .ok (some v) := by
        rw [ReadingPlan.blockAverage, hready.fresh hfound]
        exact hv
      obtain ⟨records, d, hrun, hsound⟩ := run_keep_average ht hr hready.keeps
        ⟨plan, hp, hpl, isAverage_of_block ht hk hrules hready.block hb⟩ hs
      exact ⟨.ok (some v, records), d, (Job.run_bind_ok hfold).trans (Job.run_either_bind_ok hrun), rfl, hsound⟩

/-- Blocks are settled one after the other. -/
theorem run_settleBlocks (ht : g.Trusted α) (hr : r.store = g.store) (hk : g.sizes opts.blockSize)
    (hrules : Rule.Predicate.compileAll q.rules = .ok rules) (hp : settled q.splits = some plan) (hpl : g.plans plan) :
    ∀ {pairs : List (Run.Piece α × List (Option (WeightedAverage α)))} {s : Scene},
      (∀ pair ∈ pairs, g.Ready r plan q rules opts s.now pair.1 pair.2) → g.Sound α settled s.disk →
      ∃ o d, (pairs.mapM fun pair => r.settleBlock opts pair.1 pair.2).run s = (o, { s with disk := d }) ∧
        o.map (List.map (·.1)) = (pairs.mapM fun pair => ReadingPlan.settledOf pair.1 pair.2) ∧ g.Sound α settled d
  | [], s, _, hs => ⟨_, s.disk, rfl, rfl, hs⟩
  | pair :: pairs, s, hready, hs => by
    rw [List.mapM_cons, List.mapM_cons]
    obtain ⟨o, d, hrun, ho, hd⟩ := run_settleBlock ht hr hk hrules hp hpl (hready pair (by simp)) hs
    rw [← ho]
    rcases o with e | x
    · exact ⟨_, d, Job.run_bind_error hrun, rfl, hd⟩
    · have hrest : ∀ pair' ∈ pairs, g.Ready r plan q rules opts ({ s with disk := d } : Scene).now pair'.1 pair'.2 :=
        fun pair' hm => hready pair' (List.mem_cons_of_mem pair hm)
      -- the disk after the first block is sound, so the others go on from there
      obtain ⟨o', d', hrun', ho', hd'⟩ := run_settleBlocks ht hr hk hrules hp hpl hrest hd
      rw [← ho']
      rcases o' with e | xs
      · exact ⟨_, d', (Job.run_bind_ok hrun).trans (Job.run_bind_error hrun'), rfl, hd'⟩
      · exact ⟨_, d', (Job.run_bind_ok hrun).trans (Job.run_bind_ok hrun'), rfl, hd'⟩

/-- The blocks are settled, and their average may be kept. -/
theorem run_averagePieces (ht : g.Trusted α) (hr : r.store = g.store) (hk : g.sizes opts.blockSize)
    (hrules : Rule.Predicate.compileAll q.rules = .ok rules) (hp : settled q.splits = some plan) (hpl : g.plans plan)
    {pieces : List (Run.Piece α)} {fresh : List (List (Option (WeightedAverage α)))} {totalKey : String}
    {keepsTotal : Bool}
    {s : Scene} (hready : ∀ pair ∈ pieces.zip fresh, g.Ready r plan q rules opts s.now pair.1 pair.2)
    (hkeep : keepsTotal = true → g.Keepable r .average totalKey r.files q s.now)
    (hright : ∀ total, ((pieces.zip fresh).mapM fun pair => ReadingPlan.settledOf pair.1 pair.2) >>=
      ReadingPlan.foldPresent = .ok (some total) → g.RightAverage settled r.files q total)
    (hs : g.Sound α settled s.disk) :
    ∃ o d, (r.averagePieces q opts totalKey keepsTotal pieces fresh).run s = (o, { s with disk := d }) ∧
      o.map (·.average) = (do
        match ← ((pieces.zip fresh).mapM fun pair => ReadingPlan.settledOf pair.1 pair.2) >>= ReadingPlan.foldPresent with
        | none => fail (Run.noData q r.files)
        | some total => return total) ∧
      g.Sound α settled d := by
  unfold Run.averagePieces
  obtain ⟨o, d, hrun, ho, hd⟩ := run_settleBlocks ht hr hk hrules hp hpl hready hs
  rw [← ho] at hright ⊢
  rcases o with e | results
  · exact ⟨.error e, d, Job.run_bind_error hrun, rfl, hd⟩
  rw [map_ok, ok_bind] at hright ⊢
  have hfold : WeightedAverage.fold (results.filterMap (·.1)) = ReadingPlan.foldPresent (results.map (·.1)) := by
    rw [ReadingPlan.foldPresent, List.filterMap_map]; rfl
  have hlift : (Job.lift (WeightedAverage.fold (results.filterMap (·.1)))).run { s with disk := d } =
      (ReadingPlan.foldPresent (results.map (·.1)), { s with disk := d }) := by rw [hfold]; rfl
  rcases hv : ReadingPlan.foldPresent (results.map (·.1)) with e | _ | total
  · rw [hv] at hlift ⊢
    exact ⟨_, d, (Job.run_bind_ok hrun).trans (Job.run_bind_error hlift), rfl, hd⟩
  · rw [hv] at hlift ⊢
    exact ⟨_, d, (Job.run_bind_ok hrun).trans ((Job.run_bind_ok hlift).trans rfl), rfl, hd⟩
  · rw [hv] at hlift ⊢
    -- the total may be kept as well, after the blocks
    have hkeep' : keepsTotal = true →
      g.Keepable r .average totalKey r.files q ({ s with disk := d } : Scene).now := hkeep
    obtain ⟨records, d', hrun', hd'⟩ := run_keep_average ht hr hkeep' (hright total hv) hd
    exact ⟨.ok ⟨total, ⟨results.flatMap (·.2) ++ records, r.recalledPieces pieces⟩⟩, d',
      (Job.run_bind_ok hrun).trans ((Job.run_bind_ok hlift).trans (Job.run_either_bind_ok hrun')), rfl, hd'⟩

end

/-! ## Averages -/

section

variable {q : Query} {opts : AverageOptions} {rules : List Rule.Predicate}

/-- Once a plan is settled, what was recalled for a block is what it comes to. -/
theorem truthful_pieceOn (hr : r.store = g.store) (hk : g.sizes opts.blockSize) (ht : g.Trusted α) {d : Disk}
    {totalKey : String}
    (hsh : opts.useCache = true → g.Shares r (r.averageQuestions q opts.blockSize)) (hs : g.Sound α settled d)
    (hrules : Rule.Predicate.compileAll q.rules = .ok rules) {plan : ReadingPlan}
    (hp : ∀ plan', settled q.splits = some plan' → plan' = plan) {block : Cache.Block}
    (hb : block.files ∈ Cache.blocksOf opts.blockSize r.files) :
    ReadingPlan.Truthful plan g.load q rules (r.pieceOn d q opts totalKey block : Run.Piece α) := by
  intro v hv
  rw [Run.pieceOn_block]
  unfold Run.pieceOn at hv
  split at hv
  · dsimp only at hv
    split at hv
    · rename_i hu
      have hx := (hsh hu).involved ⟨.average, block.files, q⟩
        (List.mem_cons_of_mem _ (List.mem_map.2 ⟨block.files, hb, rfl⟩))
      -- a block that was held is right for the settled plan
      obtain ⟨plan', hp', -, rules', hrules', hv⟩ := hs.average_of_held hr (hsh hu).shelf hx hv
      obtain rfl := hp plan' hp'
      rw [hrules] at hrules'
      cases hrules'
      have htotal := hv _ hk
      rwa [Cache.blocksOf_block (ht.positive _ hk) hb, ReadingPlan.totalOf_single] at htotal
    · cases hv
  · cases hv

/-- Blocks with what was recalled and computed for them are ready to be settled. -/
theorem ready_of_fresh (hk : g.sizes opts.blockSize) (ht : g.Trusted α) {d : Disk} {totalKey : String}
    (hsh : opts.makeCache = true → g.Shares r (r.averageQuestions q opts.blockSize)) {now : String}
    (hn : opts.makeCache = true → Fits now) {plan : ReadingPlan} {block : Cache.Block}
    (hb : block.files ∈ Cache.blocksOf opts.blockSize r.files) {averages : List (Option (WeightedAverage α))}
    (hf : plan.freshOf g.load q rules (r.pieceOn d q opts totalKey block) = .ok averages) :
    g.Ready r plan q rules opts now (r.pieceOn d q opts totalKey block) averages where
  fresh h := by rwa [ReadingPlan.freshOf, h] at hf
  block := by
    rw [Run.pieceOn_block]
    exact Cache.blocksOf_block (ht.positive _ hk) hb
  keeps h := by
    rw [Run.pieceOn_block] at h ⊢
    obtain ⟨hmake, hsome⟩ := makes_of_keepsBlock h
    -- a block is kept only with a block size, and then its key is that of its files
    have hkey : (r.pieceOn d q opts totalKey block : Run.Piece α).key = r.keyFor .average block.files q := by
      unfold Run.pieceOn
      rw [if_pos hsome]
    exact ⟨(hsh hmake).shelf,
      (hsh hmake).involved _ (List.mem_cons_of_mem _ (List.mem_map.2 ⟨block.files, hb, rfl⟩)), hkey, hn hmake⟩

/-- Plans that are settled after a call on the query: those that were settled before it, and that of the query. -/
def SettledBy (r : Run) (q : Query) (s s' : Scene) (settled settled' : Splits → Option ReadingPlan) : Prop :=
  ∀ splits plan, settled' splits = some plan → settled splits = some plan ∨
    splits = q.splits ∧ r.planOn s.disk s.memory.offset q.splits = .ok plan ∧
      r.settledPlan s'.memory.offset q.splits = some plan

omit [Scalar α] [Binary α] [Binary.Lawful α] in
theorem SettledBy.refl {s s' : Scene} (settled : Splits → Option ReadingPlan) : SettledBy r q s s' settled settled :=
  fun _ _ h => .inl h

/-- One more plan is settled. -/
def settling (settled : Splits → Option ReadingPlan) (splits : Splits) (plan : ReadingPlan) :
    Splits → Option ReadingPlan :=
  fun splits' => if splits' = splits then some plan else settled splits'

omit [Scalar α] [Binary α] [Binary.Lawful α] in
theorem settling_self {splits : Splits} {plan : ReadingPlan} :
    settling settled splits plan splits = some plan := if_pos rfl

omit [Binary.Lawful α] in
/-- When what was settled for the splits is this plan, the ground stays sound. -/
theorem Sound.settling {d : Disk} (h : g.Sound α settled d) {splits : Splits} {plan : ReadingPlan}
    (hp : ∀ plan', settled splits = some plan' → plan' = plan) : g.Sound α (Ground.settling settled splits plan) d := by
  refine h.mono fun splits' plan' hs => ?_
  unfold Ground.settling
  split
  · rename_i he
    subst he
    rw [hp plan' hs]
  · exact hs

omit [Scalar α] [Binary α] [Binary.Lawful α] in
theorem settledBy_settling {s s' : Scene} {plan : ReadingPlan}
    (hplan : r.planOn s.disk s.memory.offset q.splits = .ok plan)
    (hsettled : r.settledPlan s'.memory.offset q.splits = some plan) :
    SettledBy r q s s' settled (settling settled q.splits plan) := by
  intro splits plan' h
  unfold settling at h
  split at h
  · cases h
    exact .inr ⟨‹_›, hplan, hsettled⟩
  · exact .inl h

omit [Binary.Lawful α] in
/-- Where only plans that are known count as settled, they are known after the call. -/
theorem Sound.remembered {s s' : Scene} {settled' : Splits → Option ReadingPlan} {d : Disk}
    (h : g.Sound α settled' d) (hm : Run.Remembers s.memory.offset s'.memory.offset)
    (hby : SettledBy r q s s' (r.settledPlan s.memory.offset) settled') :
    g.Sound α (r.settledPlan s'.memory.offset) d := by
  refine h.mono fun splits plan hs => ?_
  rcases hby splits plan hs with hbefore | ⟨rfl, -, hafter⟩
  · exact Run.settledPlan_mono hm hbefore
  · exact hafter

/-- A plan that a run comes to is one of the ground. -/
theorem Serves.plans_planOn (hr : g.Serves r) {s : Scene} {splits : Splits} {plan : ReadingPlan}
    (h : r.planOn s.disk s.memory.offset splits = .ok plan) : g.plans plan := by
  obtain ⟨s', -, -, -, -, hsettled⟩ := r.run_plan splits (s := s) rfl rfl
  exact hr.plans _ _ _ (hsettled plan h)

/-! ### Blocks with what was recalled for them -/

section

variable {d : Disk} {totalKey : String} {blocks : List Cache.Block}

omit [Scalar α] [Binary.Lawful α] in
theorem files_pieces (r : Run) (q : Query) (opts : AverageOptions) (totalKey : String) (blocks : List Cache.Block) :
    (blocks.map (r.pieceOn d q opts totalKey : Cache.Block → Run.Piece α)).map (fun p => p.block.files) =
      blocks.map (·.files) := by
  rw [List.map_map]
  exact List.map_congr_left fun block _ => by rw [Function.comp_apply, Run.pieceOn_block]

variable (hblocks : blocks.map (·.files) = Cache.blocksOf opts.blockSize r.files)

include hblocks

theorem truthful_pieces (hr : r.store = g.store) (hk : g.sizes opts.blockSize) (ht : g.Trusted α)
    (hsh : opts.useCache = true → g.Shares r (r.averageQuestions q opts.blockSize)) (hs : g.Sound α settled d)
    (hrules : Rule.Predicate.compileAll q.rules = .ok rules) {plan : ReadingPlan}
    (hp : ∀ plan', settled q.splits = some plan' → plan' = plan) :
    ∀ p ∈ blocks.map (r.pieceOn d q opts totalKey : Cache.Block → Run.Piece α),
      ReadingPlan.Truthful plan g.load q rules p := by
  intro p hmem
  obtain ⟨block, hb, rfl⟩ := List.mem_map.1 hmem
  exact truthful_pieceOn hr hk ht hsh hs hrules hp (hblocks ▸ List.mem_map_of_mem hb)

theorem ready_pieces (hk : g.sizes opts.blockSize) (ht : g.Trusted α)
    (hsh : opts.makeCache = true → g.Shares r (r.averageQuestions q opts.blockSize)) {now : String}
    (hn : opts.makeCache = true → Fits now) {plan : ReadingPlan} {fresh : List (List (Option (WeightedAverage α)))}
    (hfresh : (blocks.map (r.pieceOn d q opts totalKey)).mapM (plan.freshOf g.load q rules) = .ok fresh) :
    ∀ pair ∈ (blocks.map (r.pieceOn d q opts totalKey)).zip fresh, g.Ready r plan q rules opts now pair.1 pair.2 := by
  intro pair hpair
  have hf := List.forall₂_zip (mapM_eq_ok.1 hfresh) hpair
  obtain ⟨block, hb, hbp⟩ := List.mem_map.1 (List.of_mem_zip hpair).1
  rw [← hbp] at hf ⊢
  exact ready_of_fresh hk ht hsh hn (hblocks ▸ List.mem_map_of_mem hb) hf

end

omit [Binary.Lawful α] in
/-- The average over all files is that of the data known. -/
theorem totalOf_load (hr : g.Reads r) {d : Disk} (hs : g.Sound α settled d)
    {plan : ReadingPlan} : (plan.totalOf (r.store.load d) q rules (Cache.blocksOf opts.blockSize r.files) :
      Outcome (Option (WeightedAverage α))) = plan.totalOf g.load q rules (Cache.blocksOf opts.blockSize r.files) :=
  ReadingPlan.totalOf_congr fun _ hfiles name hname =>
    hs.load_eq hr name (Cache.subset_of_mem_blocksOf hfiles hname)

/-- With the plan settled: the files of the blocks that were not recalled are read, the blocks are averaged, and their
average is the one over all files. -/
theorem run_pieces (ht : g.Trusted α) (hr : g.Reads r) (hk : g.sizes opts.blockSize)
    (hrules : Rule.Predicate.compileAll q.rules = .ok rules) {plan : ReadingPlan} (hp : settled q.splits = some plan)
    (hpl : g.plans plan) {pieces : List (Run.Piece α)}
    (hblocks : pieces.map (fun p => p.block.files) = Cache.blocksOf opts.blockSize r.files)
    (htruth : ∀ p ∈ pieces, ReadingPlan.Truthful plan g.load q rules p) {totalKey : String}
    {keepsTotal : Bool} {s : Scene} (hready : ∀ fresh, pieces.mapM (plan.freshOf g.load q rules) = .ok fresh →
      ∀ pair ∈ pieces.zip fresh, g.Ready r plan q rules opts s.now pair.1 pair.2)
    (hkeep : keepsTotal = true → g.Keepable r .average totalKey r.files q s.now) (hs : g.Sound α settled s.disk) :
    ∃ (o : Outcome (RunAverage α)) (s' : Scene),
      (pieces.mapM (r.freshAverages plan q rules) >>= r.averagePieces q opts totalKey keepsTotal pieces).run
        s = (o, s') ∧
      o.map (·.average) = (do
        match ← plan.totalOf (r.store.load s.disk) q rules (Cache.blocksOf opts.blockSize r.files) with
        | none => fail (Run.noData q r.files)
        | some total => return total) ∧
      s'.memory.offset = s.memory.offset ∧ g.Sound α settled s'.disk := by
  rw [totalOf_load hr hs, ← hblocks, ReadingPlan.totalOf_pieces htruth]
  -- the files are read as they are known to be
  obtain ⟨s₁, hrun, hd, ho, hn⟩ := Job.Computes.mapM (fun p (_ : p ∈ pieces) =>
    Run.computes_freshAverages (r := r) (d := s.disk) plan q rules p) s rfl rfl
  rw [mapM_congr_left fun p hmem => ReadingPlan.freshOf_congr fun name hname => hs.load_eq hr name
    (Cache.subset_of_mem_blocksOf (hblocks ▸ List.mem_map_of_mem hmem) hname)] at hrun
  have hs₁ : g.Sound α settled s₁.disk := by rwa [hd]
  rcases hfresh : pieces.mapM (plan.freshOf g.load q rules) with e | fresh
  · rw [hfresh] at hrun
    exact ⟨_, s₁, Job.run_bind_error hrun, rfl, ho, hs₁⟩
  rw [hfresh] at hrun
  rw [Job.run_bind_ok hrun, ok_bind]
  have hright : ∀ total, ((pieces.zip fresh).mapM fun pair => ReadingPlan.settledOf pair.1 pair.2) >>=
      ReadingPlan.foldPresent = .ok (some total) → g.RightAverage settled r.files q total := fun total h => by
    have htotalOf : plan.totalOf g.load q rules (Cache.blocksOf opts.blockSize r.files) = .ok (some total) := by
      rw [← hblocks, ReadingPlan.totalOf_pieces htruth, hfresh, ok_bind]
      exact h
    exact ⟨plan, hp, hpl, rules, hrules, fun size hsize => ht.uniform plan q rules _ _ _ size hk hsize htotalOf⟩
  obtain ⟨o, d, hrun', ho', hd'⟩ :=
    run_averagePieces ht hr.store hk hrules hp hpl (by rw [hn]; exact hready fresh hfresh)
    (by rwa [hn]) hright hs₁
  exact ⟨o, { s₁ with disk := d }, hrun', ho', ho, hd'⟩

/-- The average block by block: the outcome without the shelf, on ground that stays sound. -/
theorem run_averageByBlocks (ht : g.Trusted α) (hr : g.Reads r) (hk : g.sizes opts.blockSize)
    (hsh : opts.useCache = true ∨ opts.makeCache = true → g.Shares r (r.averageQuestions q opts.blockSize))
    (hrules : Rule.Predicate.compileAll q.rules = .ok rules) {s : Scene} (hn : opts.makeCache = true → Fits s.now)
    (hplans : ∀ plan, r.planOn s.disk s.memory.offset q.splits = .ok plan → g.plans plan)
    (hset : ∀ plan, settled q.splits = some plan → r.planOn s.disk s.memory.offset q.splits = .ok plan)
    (hs : g.Sound α settled s.disk) :
    ∃ (o : Outcome (RunAverage α)) (s' : Scene),
      (r.averageByBlocks q opts rules (r.keyFor .average r.files q)).run s = (o, s') ∧
      o.map (·.average) = r.averageOfBlocks s.disk s.memory.offset q opts.blockSize rules ∧
      Run.Remembers s.memory.offset s'.memory.offset ∧
      ∃ settled', g.Sound α settled' s'.disk ∧ SettledBy r q s s' settled settled' := by
  obtain ⟨blocks, hblocks, hfiles⟩ := Cache.planBlocks_eq_ok (ht.positive _ hk) r.files
  unfold Run.averageByBlocks Run.averageOfBlocks
  rw [hblocks, ok_bind, hfiles]
  generalize htotal : r.keyFor .average r.files q = totalKey
  rw [Job.run_bind_ok (x := Job.lift (.ok blocks)) (s := s) rfl]
  -- what is recalled
  obtain ⟨s₁, hrun₁, hd₁, ho₁, hn₁⟩ := Run.computes_recallBlocks (r := r) (α := α) q opts totalKey blocks s rfl rfl
  rw [Job.run_bind_ok hrun₁]
  -- the plan
  obtain ⟨s₂, hrun₂, hd₂, hm₂, hn₂, hplan⟩ := r.run_plan q.splits hd₁ ho₁
  rcases hp : r.planOn s.disk s.memory.offset q.splits with e | plan
  · rw [hp] at hrun₂
    exact ⟨_, s₂, Job.run_bind_error hrun₂, rfl, hm₂, settled, by rwa [hd₂], .refl _⟩
  rw [hp] at hrun₂
  rw [Job.run_bind_ok hrun₂, ok_bind]
  have hsame : ∀ plan', settled q.splits = some plan' → plan' = plan := fun plan' hp' =>
    (Except.ok.inj ((hset plan' hp').symm.trans hp))
  have hs₂ : g.Sound α (settling settled q.splits plan) s₂.disk := by
    rw [hd₂]
    exact hs.settling hsame
  have hnow : opts.makeCache = true → Fits s₂.now := by rw [hn₂, hn₁]; exact hn
  -- the blocks
  have hkeep : (opts.makeCache && opts.saveTotal && (opts.blockSize.isNone || decide (1 < blocks.length))) = true →
      g.Keepable r .average totalKey r.files q s₂.now := fun h => by
    rw [Bool.and_eq_true, Bool.and_eq_true] at h
    have hshares := hsh (.inr h.1.1)
    exact ⟨hshares.shelf, hshares.involved _ (List.mem_cons_self ..), htotal.symm, hnow h.1.1⟩
  obtain ⟨o, s', hrun, ho, hm, hs'⟩ := run_pieces ht hr hk hrules settling_self (hplans plan hp)
    ((files_pieces r q opts totalKey blocks).trans hfiles)
    (truthful_pieces hfiles hr.store hk ht (fun hu => hsh (.inl hu)) hs hrules hsame)
    (fun fresh hfresh => ready_pieces hfiles hk ht (fun h => hsh (.inr h)) hnow hfresh) hkeep hs₂
  rw [hd₂] at ho
  exact ⟨o, s', hrun, ho, by rwa [hm], _, hs', settledBy_settling hp (by rw [hm]; exact hplan plan hp)⟩

/-- With or without the shelf an average ends with the outcome that it has without, and the ground
stays sound, whether the plan of the query was settled before or not. -/
theorem run_average_settled (ht : g.Trusted α) (hr : g.Reads r) (hk : g.sizes opts.blockSize)
    (hsh : opts.useCache = true ∨ opts.makeCache = true → g.Shares r (r.averageQuestions q opts.blockSize)) {s : Scene}
    (hn : opts.makeCache = true → Fits s.now)
    (hplans : ∀ plan, r.planOn s.disk s.memory.offset q.splits = .ok plan → g.plans plan)
    (hset : ∀ plan, settled q.splits = some plan → r.planOn s.disk s.memory.offset q.splits = .ok plan)
    (hs : g.Sound α settled s.disk) :
    ∃ (o : Outcome (RunAverage α)) (s' : Scene), (r.average q opts).run s = (o, s') ∧
      o.map (·.average) = r.averageOn s.disk s.memory.offset q opts.blockSize ∧
      Run.Remembers s.memory.offset s'.memory.offset ∧
      ∃ settled', g.Sound α settled' s'.disk ∧ SettledBy r q s s' settled settled' := by
  rw [Run.average_eq]
  unfold Run.averageOn
  by_cases hempty : r.files.isEmpty = true
  · rw [if_pos hempty, if_pos hempty]
    exact ⟨_, s, rfl, rfl, .refl _, settled, hs, .refl _⟩
  rw [if_neg hempty, if_neg hempty]
  dsimp only
  rcases hrules : Rule.Predicate.compileAll q.rules with e | rules
  · exact ⟨.error e, s, rfl, rfl, .refl _, settled, hs, .refl _⟩
  -- looking on the shelf changes neither disk nor offset
  obtain ⟨s₁, hrun, hd, ho, hn₁⟩ := Run.computes_found (β := WeightedAverage α) (r := r) opts.useCache .average
    (r.keyFor .average r.files q) s rfl rfl
  have hs₁ : g.Sound α settled s₁.disk := by rwa [hd]
  rw [Job.run_bind_ok (x := Job.lift (.ok rules)) (s := s) rfl, Job.run_bind_ok hrun, ok_bind]
  rcases hfound : (if opts.useCache then r.held s.disk .average (r.keyFor .average r.files q) else none :
      Option (WeightedAverage α)) with _ | v
  · obtain ⟨o, s', hrun', ho', hm', settled', hs', hby⟩ := run_averageByBlocks ht hr hk hsh hrules (s := s₁)
      (by rwa [hn₁]) (by rwa [hd, ho]) (by rwa [hd, ho]) hs₁
    rw [hd, ho] at ho'
    rw [ho] at hm'
    unfold SettledBy at hby
    rw [hd, ho] at hby
    exact ⟨o, s', hrun', ho', hm', settled', hs', hby⟩
  · refine ⟨_, s₁, rfl, ?_, .inr ho, settled, hs₁, .refl _⟩
    split at hfound
    · rename_i hu
      have hshares := hsh (.inl hu)
      -- what a sound shelf holds is the right average for a settled plan, which is the plan of this call
      obtain ⟨plan, hp, -, rules', hrules', hv⟩ := hs.average_of_held hr.store hshares.shelf
        (hshares.involved _ (List.mem_cons_self ..)) hfound
      rw [hrules] at hrules'
      cases hrules'
      obtain ⟨blocks, hblocks, hfiles⟩ := Cache.planBlocks_eq_ok (ht.positive _ hk) r.files
      have htotal : plan.totalOf (r.store.load s.disk) q rules (Cache.blocksOf opts.blockSize r.files) =
          .ok (some v) := by
        rw [totalOf_load hr hs, hv _ hk]
      rw [Run.averageOfBlocks, hblocks, ok_bind, hset plan hp, ok_bind, hfiles, htotal]
      rfl
    · cases hfound

/-- With or without the shelf an average ends with the outcome that it has without, and the ground
stays sound. -/
theorem run_average (ht : g.Trusted α) (hr : g.Serves r) (hk : g.sizes opts.blockSize)
    (hsh : opts.useCache = true ∨ opts.makeCache = true → g.Shares r (r.averageQuestions q opts.blockSize)) {s : Scene}
    (hn : opts.makeCache = true → Fits s.now) (hs : g.Sound α (r.settledPlan s.memory.offset) s.disk) :
    ∃ (o : Outcome (RunAverage α)) (s' : Scene), (r.average q opts).run s = (o, s') ∧
      o.map (·.average) = r.averageOn s.disk s.memory.offset q opts.blockSize ∧
      g.Sound α (r.settledPlan s'.memory.offset) s'.disk ∧ Run.Remembers s.memory.offset s'.memory.offset := by
  obtain ⟨o, s', hrun, ho, hm, settled', hs', hby⟩ := run_average_settled ht hr.toReads hk hsh hn
    (fun _ hp => hr.plans_planOn hp) (fun _ hp => Run.planOn_of_settled hp) hs
  exact ⟨o, s', hrun, ho, hs'.remembered hm hby, hm⟩

omit [Binary.Lawful α] in
/-- With a block size of zero nothing is ever kept. -/
theorem run_average_refused (h : opts.blockSize = some 0) (s : Scene) :
    ∃ (o : Outcome (RunAverage α)) (s' : Scene), (r.average q opts).run s = (o, s') ∧ s'.disk = s.disk ∧
      s'.memory.offset = s.memory.offset := by
  rw [Run.average_eq]
  split
  · exact ⟨_, s, rfl, rfl, rfl⟩
  rcases Rule.Predicate.compileAll q.rules with e | rules
  · exact ⟨_, s, rfl, rfl, rfl⟩
  obtain ⟨s₁, hrun, hd, ho, -⟩ := Run.computes_found (β := WeightedAverage α) (r := r) opts.useCache .average
    (r.keyFor .average r.files q) s rfl rfl
  rw [Job.run_bind_ok (x := Job.lift (.ok rules)) (s := s) rfl, Job.run_bind_ok hrun]
  split
  · exact ⟨_, s₁, rfl, hd, ho⟩
  -- blocks of no files are refused, but only after the whole was looked up
  · obtain ⟨e, he⟩ : ∃ e, Cache.planBlocks r.files (some 0) = .error e := ⟨_, rfl⟩
    refine ⟨.error e, s₁, ?_, hd, ho⟩
    unfold Run.averageByBlocks
    rw [h, he]
    rfl

/-! ## Collections -/

/-- The rows of the sorted files are joined, and the collection may be kept. -/
theorem run_collected (ht : g.Trusted α) (hr : r.store = g.store)
    (hrules : Rule.Predicate.compileAll q.rules = .ok rules) {plan : ReadingPlan} (hp : settled q.splits = some plan)
    (hpl : g.plans plan) {compiled : List (Option (FileBuckets α))}
    (hc : r.files.mapM (plan.bucketsOf g.load q rules) = .ok compiled) {key : String} {s : Scene}
    (hkeep : (opts.makeCache && opts.saveTotal) = true → g.Keepable r .collect key r.files q s.now)
    (hs : g.Sound α settled s.disk) :
    ∃ (o : Outcome (RunCollection α)) (d : Disk),
      (r.collected q opts key compiled).run s = (o, { s with disk := d }) ∧
      o.map (·.buckets) = (do
        match ← plan.collectionOf g.load q rules r.files with
        | none => fail (Run.noData q r.files)
        | some buckets => return buckets) ∧
      g.Sound α settled d := by
  have hcollection : plan.collectionOf g.load q rules r.files = (match compiled.filterMap id with
      | [] => .ok none
      | present => do return some ⟨q.bucketShape, ← Run.joinBuckets present⟩ : Outcome (Option (CollectedBuckets α))) := by
    rw [ReadingPlan.collectionOf, hc]
    rfl
  unfold Run.collected
  rw [hcollection]
  rcases hpresent : compiled.filterMap id with _ | ⟨first, others⟩
  · exact ⟨_, s.disk, rfl, rfl, hs⟩
  rw [hpresent] at hcollection
  dsimp only at hcollection ⊢
  rcases hj : Run.joinBuckets (first :: others) with e | rows
  · exact ⟨.error e, s.disk, rfl, rfl, hs⟩
  rw [hj] at hcollection
  rw [Job.run_bind_ok (x := Job.lift (.ok rows)) (s := s) rfl]
  obtain ⟨records, d, hrun, hd⟩ := run_keep_collection ht hr hkeep ⟨plan, hp, hpl, rules, hrules, hcollection⟩ hs
  exact ⟨.ok ⟨⟨q.bucketShape, rows⟩, ⟨records, []⟩⟩, d, Job.run_either_bind_ok hrun, rfl, hd⟩

/-- With the plan settled: the files are read and sorted, and their rows are joined. -/
theorem run_sorted (ht : g.Trusted α) (hr : g.Reads r) (hrules : Rule.Predicate.compileAll q.rules = .ok rules)
    {plan : ReadingPlan} (hp : settled q.splits = some plan) (hpl : g.plans plan) {key : String} {s : Scene}
    (hkeep : (opts.makeCache && opts.saveTotal) = true → g.Keepable r .collect key r.files q s.now)
    (hs : g.Sound α settled s.disk) :
    ∃ (o : Outcome (RunCollection α)) (s' : Scene),
      (r.files.mapM (r.compileFile plan q rules) >>= r.collected q opts key).run s = (o, s') ∧
      o.map (·.buckets) = (do
        match ← plan.collectionOf (r.store.load s.disk) q rules r.files with
        | none => fail (Run.noData q r.files)
        | some buckets => return buckets) ∧
      s'.memory.offset = s.memory.offset ∧ g.Sound α settled s'.disk := by
  rw [ReadingPlan.collectionOf_congr (hs.load_eq hr)]
  -- the files are read as they are known to be
  obtain ⟨s₁, hrun, hd, ho, hn⟩ := Job.Computes.mapM (fun name (_ : name ∈ r.files) =>
    Run.computes_compileFile (α := α) (r := r) (d := s.disk) plan q rules name) s rfl rfl
  rw [mapM_congr_left fun name hname => ReadingPlan.bucketsOf_congr (hs.load_eq hr name hname)] at hrun
  have hs₁ : g.Sound α settled s₁.disk := by rwa [hd]
  rcases hc : (r.files.mapM (plan.bucketsOf g.load q rules) : Outcome (List (Option (FileBuckets α)))) with e | compiled
  · rw [hc] at hrun
    rw [ReadingPlan.collectionOf, hc]
    exact ⟨_, s₁, Job.run_bind_error hrun, rfl, ho, hs₁⟩
  rw [hc] at hrun
  rw [Job.run_bind_ok hrun]
  obtain ⟨o, d, hrun', ho', hd'⟩ := run_collected ht hr.store hrules hp hpl hc (by rw [hn]; exact hkeep) hs₁
  exact ⟨o, { s₁ with disk := d }, hrun', ho', ho, hd'⟩

/-- The collection over the files: the outcome without the shelf, on ground that stays sound. -/
theorem run_collectFiles (ht : g.Trusted α) (hr : g.Reads r)
    (hsh : opts.makeCache = true → g.Shares r [⟨.collect, r.files, q⟩])
    (hrules : Rule.Predicate.compileAll q.rules = .ok rules) {s : Scene} (hn : opts.makeCache = true → Fits s.now)
    (hplans : ∀ plan, r.planOn s.disk s.memory.offset q.splits = .ok plan → g.plans plan)
    (hset : ∀ plan, settled q.splits = some plan → r.planOn s.disk s.memory.offset q.splits = .ok plan)
    (hs : g.Sound α settled s.disk) :
    ∃ (o : Outcome (RunCollection α)) (s' : Scene),
      (r.collectFiles q opts rules (r.keyFor .collect r.files q)).run s = (o, s') ∧
      o.map (·.buckets) = (do
        match ← (← r.planOn s.disk s.memory.offset q.splits).collectionOf (r.store.load s.disk) q rules r.files with
        | none => fail (Run.noData q r.files)
        | some buckets => return buckets) ∧
      Run.Remembers s.memory.offset s'.memory.offset ∧
      ∃ settled', g.Sound α settled' s'.disk ∧ SettledBy r q s s' settled settled' := by
  rw [Run.collectFiles_eq]
  generalize hkey : r.keyFor .collect r.files q = key
  obtain ⟨s₁, hrun₁, hd₁, hm₁, hn₁, hplan⟩ := r.run_plan q.splits (s := s) rfl rfl
  rcases hp : r.planOn s.disk s.memory.offset q.splits with e | plan
  · rw [hp] at hrun₁
    exact ⟨_, s₁, Job.run_bind_error hrun₁, rfl, hm₁, settled, by rwa [hd₁], .refl _⟩
  rw [hp] at hrun₁
  rw [Job.run_bind_ok hrun₁, ok_bind]
  have hs₁ : g.Sound α (settling settled q.splits plan) s₁.disk := by
    rw [hd₁]
    exact hs.settling fun plan' hp' => Except.ok.inj ((hset plan' hp').symm.trans hp)
  have hkeep : (opts.makeCache && opts.saveTotal) = true → g.Keepable r .collect key r.files q s₁.now := fun h => by
    rw [Bool.and_eq_true] at h
    have hshares := hsh h.1
    exact ⟨hshares.shelf, hshares.involved _ (List.mem_cons_self ..), hkey.symm, by rw [hn₁]; exact hn h.1⟩
  obtain ⟨o, s', hrun, ho, hm, hs'⟩ := run_sorted ht hr hrules settling_self (hplans plan hp) hkeep hs₁
  rw [hd₁] at ho
  exact ⟨o, s', hrun, ho, by rwa [hm], _, hs', settledBy_settling hp (by rw [hm]; exact hplan plan hp)⟩

/-- With or without the shelf a collection ends with the outcome that it has without, and the ground
stays sound, whether the plan of the query was settled before or not. -/
theorem run_collect_settled (ht : g.Trusted α) (hr : g.Reads r)
    (hsh : opts.useCache = true ∨ opts.makeCache = true → g.Shares r [⟨.collect, r.files, q⟩]) {s : Scene}
    (hn : opts.makeCache = true → Fits s.now)
    (hplans : ∀ plan, r.planOn s.disk s.memory.offset q.splits = .ok plan → g.plans plan)
    (hset : ∀ plan, settled q.splits = some plan → r.planOn s.disk s.memory.offset q.splits = .ok plan)
    (hs : g.Sound α settled s.disk) :
    ∃ (o : Outcome (RunCollection α)) (s' : Scene), (r.collect q opts).run s = (o, s') ∧
      o.map (·.buckets) = r.collectionOn s.disk s.memory.offset q ∧
      Run.Remembers s.memory.offset s'.memory.offset ∧
      ∃ settled', g.Sound α settled' s'.disk ∧ SettledBy r q s s' settled settled' := by
  rw [Run.collect_eq, Run.collectionOn]
  rcases hrules : Rule.Predicate.compileAll q.rules with e | rules
  · exact ⟨.error e, s, rfl, rfl, .refl _, settled, hs, .refl _⟩
  obtain ⟨s₁, hrun, hd, ho, hn₁⟩ := Run.computes_found (β := CollectedBuckets α) (r := r) opts.useCache .collect
    (r.keyFor .collect r.files q) s rfl rfl
  have hs₁ : g.Sound α settled s₁.disk := by rwa [hd]
  rw [Job.run_bind_ok (x := Job.lift (.ok rules)) (s := s) rfl, Job.run_bind_ok hrun, ok_bind]
  rcases hfound : (if opts.useCache then r.held s.disk .collect (r.keyFor .collect r.files q) else none :
      Option (CollectedBuckets α)) with _ | c
  · obtain ⟨o, s', hrun', ho', hm', settled', hs', hby⟩ :=
      run_collectFiles ht hr (fun h => hsh (.inr h)) hrules (s := s₁)
      (by rwa [hn₁]) (by rwa [hd, ho]) (by rwa [hd, ho]) hs₁
    rw [hd, ho] at ho'
    rw [ho] at hm'
    unfold SettledBy at hby
    rw [hd, ho] at hby
    exact ⟨o, s', hrun', ho', hm', settled', hs', hby⟩
  · refine ⟨_, s₁, rfl, ?_, .inr ho, settled, hs₁, .refl _⟩
    split at hfound
    · rename_i hu
      have hshares := hsh (.inl hu)
      -- what a sound shelf holds are the right rows for a settled plan, which is the plan of this call
      obtain ⟨plan, hp, -, rules', hrules', hc⟩ := hs.collection_of_held hr.store hshares.shelf
        (hshares.involved _ (List.mem_cons_self ..)) hfound
      rw [hrules] at hrules'
      cases hrules'
      rw [hset plan hp, ok_bind, ReadingPlan.collectionOf_congr (hs.load_eq hr), hc]
      rfl
    · cases hfound

/-- With or without the shelf a collection ends with the outcome that it has without, and the ground
stays sound. -/
theorem run_collect (ht : g.Trusted α) (hr : g.Serves r)
    (hsh : opts.useCache = true ∨ opts.makeCache = true → g.Shares r [⟨.collect, r.files, q⟩]) {s : Scene}
    (hn : opts.makeCache = true → Fits s.now) (hs : g.Sound α (r.settledPlan s.memory.offset) s.disk) :
    ∃ (o : Outcome (RunCollection α)) (s' : Scene), (r.collect q opts).run s = (o, s') ∧
      o.map (·.buckets) = r.collectionOn s.disk s.memory.offset q ∧
      g.Sound α (r.settledPlan s'.memory.offset) s'.disk ∧ Run.Remembers s.memory.offset s'.memory.offset := by
  obtain ⟨o, s', hrun, ho, hm, settled', hs', hby⟩ := run_collect_settled ht hr.toReads hsh hn
    (fun _ hp => hr.plans_planOn hp) (fun _ hp => Run.planOn_of_settled hp) hs
  exact ⟨o, s', hrun, ho, hs'.remembered hm hby, hm⟩

end

end Ground
end ShotTally
