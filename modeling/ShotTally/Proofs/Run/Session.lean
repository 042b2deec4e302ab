/-
Sessions: calls made one after the other on the runs of a roster that share a shelf. On common
ground every answer is the one that the call has without the shelf, and the ground stays sound for
the next call, whether or not the call succeeds.
-/
import ShotTally.Proofs.Run.Recalling
import ShotTally.Run.Set

namespace ShotTally

open Binary (Fits)
open RunSet (Stage)

/-! ## Calls -/

/-- A call on a run. -/
inductive Call where
  | average (q : Query) (opts : AverageOptions)
  | collect (q : Query) (opts : AverageOptions)
  | addFiles (files : List String)

/-- A call on the run at a place of the roster, with the time at which it is made. -/
structure Request where
  place : Nat
  now : String
  call : Call

/-- What a call returns, apart from what it read from the shelf and put on it. -/
inductive Answer (α : Type) where
  | average (outcome : Outcome (WeightedAverage α))
  | collection (outcome : Outcome (CollectedBuckets α))
  | added (notices : List Notice)
  | nobody

namespace AverageOptions

/-- The same options with the shelf left alone. -/
def withoutShelf (opts : AverageOptions) : AverageOptions := { opts with useCache := false, makeCache := false }

end AverageOptions

namespace Call

def withoutShelf : Call → Call
  | .average q opts => .average q opts.withoutShelf
  | .collect q opts => .collect q opts.withoutShelf
  | .addFiles files => .addFiles files

/-- What a call asks the shelf for. -/
def questions (r : Run) : Call → List Question
  | .average q opts => if opts.useCache || opts.makeCache then r.averageQuestions q opts.blockSize else []
  | .collect q opts => if opts.useCache || opts.makeCache then [⟨.collect, r.files, q⟩] else []
  | .addFiles _ => []

/-- The files that a call adds. -/
def files : Call → List String
  | .addFiles files => files
  | _ => []

/-- The run after a call. -/
def grow (r : Run) : Call → Run
  | .addFiles files => (r.addFiles files).1
  | _ => r

/-- The answer without the shelf. -/
def plainAnswer {α : Type} [Scalar α] (m : Member) (d : Disk) : Call → Answer α
  | .average q opts => .average (m.run.averageOn d m.memory.offset q opts.blockSize)
  | .collect q _ => .collection (m.run.collectionOn d m.memory.offset q)
  | .addFiles files => .added (m.run.addFiles files).2

end Call

def Request.withoutShelf (x : Request) : Request := { x with call := x.call.withoutShelf }

/-! ## Sessions -/

namespace Session

variable {α : Type} [Scalar α] [Binary α]

/-- One call: its answer, and the stage afterwards. -/
def serve (stage : Stage) (x : Request) : Answer α × Stage :=
  match stage.roster[x.place]? with
  | none => (.nobody, stage)
  | some m =>
    match x.call with
    | .average q opts =>
      let (result, roster, scene) :=
        stage.roster.work x.place m.run m.memory stage.disk x.now fun r => r.average q opts
      (.average (result.map (·.average)), ⟨roster, scene.disk, stage.journal ++ scene.journal, x.now⟩)
    | .collect q opts =>
      let (result, roster, scene) :=
        stage.roster.work x.place m.run m.memory stage.disk x.now fun r => r.collect q opts
      (.collection (result.map (·.buckets)), ⟨roster, scene.disk, stage.journal ++ scene.journal, x.now⟩)
    | .addFiles files =>
      let (run, notices) := m.run.addFiles files
      (.added notices,
        ⟨stage.roster.set x.place ⟨run, m.memory⟩, stage.disk, stage.journal ++ notices.map .notice, x.now⟩)

variable (α) in
/-- The stage after some calls. -/
def stageAfter (stage : Stage) (requests : List Request) : Stage :=
  requests.foldl (fun stage x => (serve (α := α) stage x).2) stage

/-- The answers to calls made one after the other. -/
def answers : Stage → List Request → List (Answer α)
  | _, [] => []
  | stage, x :: rest => (serve stage x).1 :: answers (serve (α := α) stage x).2 rest

/-- What some calls ask the shelf for. -/
def questions : List Run → List Request → List Question
  | _, [] => []
  | runs, x :: rest =>
    match runs[x.place]? with
    | none => questions runs rest
    | some r => x.call.questions r ++ questions (runs.set x.place (x.call.grow r)) rest

/-- The files of some runs, and those that calls add to them. -/
def filesOf (runs : List Run) (requests : List Request) : List String :=
  runs.flatMap (·.files) ++ requests.flatMap (·.call.files)

/-- The runs of a stage. -/
def runsOn (stage : Stage) : List Run := stage.roster.map (·.run)

end Session

/-! ## Adding files -/

namespace Run

/-- Adding files changes nothing but the files. -/
theorem addFiles_eq (r : Run) (files : List String) : ∃ files', (r.addFiles files).1 = { r with files := files' } ∧
    files' ⊆ r.files ++ files := by
  induction files generalizing r with
  | nil => exact ⟨r.files, rfl, List.subset_append_left _ _⟩
  | cons file rest ih =>
    unfold addFiles
    split
    · obtain ⟨files', hgrown, hsub⟩ := ih r
      exact ⟨files', hgrown, List.Subset.trans hsub ((List.sublist_cons_self file rest).append_left _).subset⟩
    · obtain ⟨files', hgrown, hsub⟩ := ih { r with files := r.files ++ [file] }
      exact ⟨files', hgrown, by simpa using hsub⟩

end Run

theorem Call.grow_eq (r : Run) (call : Call) : ∃ files, call.grow r = { r with files := files } ∧
    files ⊆ r.files ++ call.files := by
  cases call with
  | addFiles files => exact r.addFiles_eq files
  | _ => exact ⟨r.files, rfl, List.subset_append_left _ _⟩

/-- A call asks about files of its run only. -/
theorem Call.subset_of_mem_questions {r : Run} {call : Call} {y : Question} (hy : y ∈ call.questions r) :
    y.files ⊆ r.files := by
  cases call with
  | average q opts =>
    rw [questions] at hy
    split at hy
    · rcases List.mem_cons.1 hy with rfl | hy
      · exact List.Subset.refl _
      · obtain ⟨files, hfiles, rfl⟩ := List.mem_map.1 hy
        exact Cache.subset_of_mem_blocksOf hfiles
    · cases hy
  | collect q opts =>
    rw [questions] at hy
    split at hy
    · rw [List.mem_singleton.1 hy]
      exact List.Subset.refl _
    · cases hy
  | addFiles files => cases hy

/-! ## Stages on common ground -/

namespace Ground

variable {α : Type} [Scalar α] [Binary α]

/-- The runs of the stage are on the ground, which is sound for the plans each of them has settled;
different members settle the same plans. -/
structure Stands (α : Type) [Scalar α] [Binary α] (g : Ground) (stage : Stage) : Prop where
  serves : ∀ (i : Nat) (m : Member), stage.roster[i]? = some m → g.Serves m.run ∧ m.run.shelf = g.shelf
  sound : ∀ (i : Nat) (m : Member), stage.roster[i]? = some m → g.Sound α (m.run.settledPlan m.memory.offset) stage.disk
  agree : ∀ (i j : Nat) (m m' : Member), stage.roster[i]? = some m → stage.roster[j]? = some m' → i ≠ j →
    ∀ offset offset', m.run.settledPlan offset = m'.run.settledPlan offset'

/-- A call that may be made on the ground. -/
structure Admits (g : Ground) (r : Run) (call : Call) : Prop where
  sizes : ∀ q opts, call = .average q opts → g.sizes opts.blockSize ∨ opts.blockSize = some 0
  involved : ∀ x ∈ call.questions r, g.involved x
  files : call.files ⊆ g.files

variable {g : Ground} {stage : Stage}

/-- The stage when a member has changed its memory, its files and the disk. -/
theorem Stands.renew (h : g.Stands α stage) {place : Nat} {m : Member} (hm : stage.roster[place]? = some m)
    {files : List String} (hfiles : files ⊆ g.files) {memory : Memory} {d : Disk} {journal : List Event} {now : String}
    (hs : g.Sound α (m.run.settledPlan memory.offset) d) :
    g.Stands α ⟨stage.roster.set place ⟨{ m.run with files := files }, memory⟩, d, journal, now⟩ := by
  -- a member is the one that has changed, or one that was there before at another place
  have hget : ∀ i m', (stage.roster.set place ⟨{ m.run with files := files }, memory⟩)[i]? = some m' →
      (i = place ∧ m' = ⟨{ m.run with files := files }, memory⟩) ∨ (i ≠ place ∧ stage.roster[i]? = some m') := by
    intro i m' hi
    rw [List.getElem?_set] at hi
    split at hi
    · rename_i hip
      split at hi
      · exact .inl ⟨hip.symm, (Option.some.inj hi).symm⟩
      · cases hi
    · rename_i hip
      exact .inr ⟨fun h => hip h.symm, hi⟩
  constructor
  · intro i m' hi
    rcases hget i m' hi with ⟨-, rfl⟩ | ⟨-, hi⟩
    · obtain ⟨hr, hshelf⟩ := h.serves place m hm
      exact ⟨⟨⟨hr.store, hfiles⟩, hr.plans⟩, hshelf⟩
    · exact h.serves i m' hi
  · intro i m' hi
    rcases hget i m' hi with ⟨-, rfl⟩ | ⟨hne, hi⟩
    · exact hs
    · refine hs.mono fun splits plan hp => ?_
      rw [h.agree i place m' m hi hm hne m'.memory.offset memory.offset]
      exact hp
  · intro i j mi mj hi hj hij offset offset'
    rcases hget i mi hi with ⟨rfl, rfl⟩ | ⟨-, hi'⟩ <;> rcases hget j mj hj with ⟨rfl, rfl⟩ | ⟨-, hj'⟩
    · exact absurd rfl hij
    · exact h.agree i j m mj hm hj' hij offset offset'
    · exact h.agree i j mi m hi' hm hij offset offset'
    · exact h.agree i j mi mj hi' hj' hij offset offset'

variable [Binary.Lawful α]

/-- A call on sound ground leaves the ground sound, and its answer is the one without the shelf. -/
theorem Stands.serve (ht : g.Trusted α) (h : g.Stands α stage) {x : Request} (hn : Fits x.now)
    (hx : ∀ m : Member, stage.roster[x.place]? = some m → g.Admits m.run x.call) :
    g.Stands α (Session.serve (α := α) stage x).2 ∧
      ((∀ q opts, x.call = .average q opts → g.sizes opts.blockSize) →
        (Session.serve stage x).1 = (stage.roster[x.place]?.elim .nobody fun m => x.call.plainAnswer m stage.disk :
          Answer α)) := by
  unfold Session.serve
  rcases hm : stage.roster[x.place]? with _ | m
  · exact ⟨h, fun _ => rfl⟩
  dsimp only
  obtain ⟨hr, hshelf⟩ := h.serves _ m hm
  have hadm := hx m hm
  have hs := h.sound _ m hm
  rcases hc : x.call with ⟨q, opts⟩ | ⟨q, opts⟩ | files
  · have hshares : opts.useCache = true ∨ opts.makeCache = true →
        g.Shares m.run (m.run.averageQuestions q opts.blockSize) := fun hu =>
      ⟨hshelf, fun y hy => hadm.involved y (by rw [hc, Call.questions, if_pos (by rwa [Bool.or_eq_true])]; exact hy)⟩
    -- a block size of zero is refused, whatever the shelf holds
    rcases hadm.sizes q opts hc with hk | hk
    · obtain ⟨o, s', hrun, ho, hs', -⟩ := run_average ht hr hk hshares (s := ⟨stage.disk, m.memory, [], x.now⟩)
        (fun _ => hn) hs
      dsimp only [Roster.work]
      rw [hrun]
      exact ⟨h.renew hm hr.files hs', fun _ => congrArg Answer.average ho⟩
    · obtain ⟨o, s', hrun, hd, ho⟩ := run_average_refused (α := α) (r := m.run) (q := q) hk
        ⟨stage.disk, m.memory, [], x.now⟩
      dsimp only [Roster.work]
      rw [hrun]
      exact ⟨h.renew hm hr.files (by rw [ho, hd]; exact hs), fun hk' => absurd hk (ht.positive _ (hk' q opts rfl))⟩
  · have hshares : opts.useCache = true ∨ opts.makeCache = true →
        g.Shares m.run [⟨.collect, m.run.files, q⟩] := fun hu =>
      ⟨hshelf, fun y hy => hadm.involved y (by rw [hc, Call.questions, if_pos (by rwa [Bool.or_eq_true])]; exact hy)⟩
    obtain ⟨o, s', hrun, ho, hs', -⟩ := run_collect ht hr hshares (s := ⟨stage.disk, m.memory, [], x.now⟩)
      (fun _ => hn) hs
    dsimp only [Roster.work]
    rw [hrun]
    exact ⟨h.renew hm hr.files hs', fun _ => congrArg Answer.collection ho⟩
  · obtain ⟨files', hgrown, hsub⟩ := m.run.addFiles_eq files
    have hadded := hadm.files
    rw [hc] at hadded
    refine ⟨?_, fun _ => rfl⟩
    dsimp only
    rw [hgrown]
    exact h.renew hm (List.Subset.trans hsub (List.append_subset.2 ⟨hr.files, hadded⟩)) hs

end Ground

/-! ## Sessions on common ground -/

namespace Session

variable {α : Type} [Scalar α] [Binary α]

/-- A call changes the files of its run at most. -/
theorem runsOn_serve (stage : Stage) (x : Request) : runsOn (serve (α := α) stage x).2 =
    ((runsOn stage)[x.place]?.elim (runsOn stage) fun r => (runsOn stage).set x.place (x.call.grow r)) := by
  unfold serve runsOn
  rw [List.getElem?_map]
  rcases hm : stage.roster[x.place]? with _ | m
  · rfl
  · rcases x.call with ⟨q, opts⟩ | ⟨q, opts⟩ | files <;> exact List.map_set

/-- What is asked by a call, and what is asked after it. -/
theorem mem_questions {stage : Stage} {x : Request} {rest : List Request} {y : Question} :
    y ∈ questions (runsOn stage) (x :: rest) ↔
      (∃ m : Member, stage.roster[x.place]? = some m ∧ y ∈ x.call.questions m.run) ∨
        y ∈ questions (runsOn (serve (α := α) stage x).2) rest := by
  rw [runsOn_serve, questions, runsOn, List.getElem?_map]
  rcases hm : stage.roster[x.place]? with _ | m
  · simp
  · simp

/-- Further calls ask on behalf of the runs as they are by then. -/
theorem questions_append (rest : List Request) : ∀ (requests : List Request) (stage : Stage),
    questions (runsOn stage) (requests ++ rest) =
      questions (runsOn stage) requests ++ questions (runsOn (stageAfter α stage requests)) rest
  | [], _ => rfl
  | x :: requests, stage => by
    have ih := questions_append rest requests (serve (α := α) stage x).2
    rw [runsOn_serve] at ih
    rw [List.cons_append, questions, questions]
    rcases hr : (runsOn stage)[x.place]? with _ | r
    · rw [hr] at ih
      exact ih
    · rw [hr] at ih
      rw [List.append_assoc]
      exact congrArg _ ih

theorem subset_filesOf_of_run {runs : List Run} {requests : List Request} {r : Run} (h : r ∈ runs) :
    r.files ⊆ filesOf runs requests :=
  fun _ hfile => List.mem_append_left _ (List.mem_flatMap.2 ⟨r, h, hfile⟩)

theorem subset_filesOf_of_request {runs : List Run} {requests : List Request} {x : Request} (h : x ∈ requests) :
    x.call.files ⊆ filesOf runs requests :=
  fun _ hfile => List.mem_append_right _ (List.mem_flatMap.2 ⟨x, h, hfile⟩)

/-- Calls ask about the files of the runs and those that were added. -/
theorem subset_filesOf_of_mem_questions : ∀ {requests : List Request} {runs : List Run} {y : Question},
    y ∈ questions runs requests → y.files ⊆ filesOf runs requests
  | [], _, _, hy => by cases hy
  | x :: rest, runs, y, hy => by
    rw [questions] at hy
    rcases hr : runs[x.place]? with _ | r
    · rw [hr] at hy
      refine List.Subset.trans (subset_filesOf_of_mem_questions hy) ?_
      exact ((List.sublist_append_right _ _).append_left _).subset
    · rw [hr] at hy
      have hheld : r.files ⊆ filesOf runs (x :: rest) := subset_filesOf_of_run (List.mem_of_getElem? hr)
      have hadded : x.call.files ⊆ filesOf runs (x :: rest) := subset_filesOf_of_request List.mem_cons_self
      rcases List.mem_append.1 hy with hy | hy
      · exact List.Subset.trans (Call.subset_of_mem_questions hy) hheld
      · refine List.Subset.trans (subset_filesOf_of_mem_questions hy)
          (List.append_subset.2 ⟨fun file hfile => ?_, fun file hfile => ?_⟩)
        -- the run after the call holds its own files and those it was given
        · obtain ⟨r', hr', hfile⟩ := List.mem_flatMap.1 hfile
          rcases List.mem_or_eq_of_mem_set hr' with hr' | rfl
          · exact subset_filesOf_of_run hr' hfile
          · obtain ⟨files, hgrown, hsub⟩ := x.call.grow_eq r
            rw [hgrown] at hfile
            exact List.append_subset.2 ⟨hheld, hadded⟩ (hsub hfile)
        · obtain ⟨x', hx', hfile⟩ := List.mem_flatMap.1 hfile
          exact subset_filesOf_of_request (List.mem_cons_of_mem _ hx') hfile

/-- No run comes or goes. -/
theorem length_stageAfter : ∀ (requests : List Request) (stage : Stage),
    (stageAfter α stage requests).roster.length = stage.roster.length
  | [], _ => rfl
  | x :: requests, stage => by
    have hserve : (runsOn (serve (α := α) stage x).2).length = (runsOn stage).length := by
      rw [runsOn_serve]
      cases (runsOn stage)[x.place]? with
      | none => rfl
      | some r => exact List.length_set
    unfold runsOn at hserve
    rw [List.length_map, List.length_map] at hserve
    exact (length_stageAfter requests (serve (α := α) stage x).2).trans hserve

variable [Binary.Lawful α] {g : Ground}

/-- The ground stays sound through a session. -/
theorem stands_stageAfter (ht : g.Trusted α) : ∀ {requests : List Request} {stage : Stage}, g.Stands α stage →
    (∀ x ∈ requests, Fits x.now) →
    (∀ x ∈ requests, ∀ q opts, x.call = .average q opts → g.sizes opts.blockSize ∨ opts.blockSize = some 0) →
    (∀ y ∈ questions (runsOn stage) requests, g.involved y) → (∀ x ∈ requests, x.call.files ⊆ g.files) →
    g.Stands α (stageAfter α stage requests)
  | [], _, h, _, _, _, _ => h
  | x :: rest, stage, h, hn, hk, hq, hf => by
    have hserve := (h.serve ht (hn x (by simp)) fun m hm => ⟨hk x (by simp), fun y hy =>
      hq y ((mem_questions (α := α)).2 (.inl ⟨m, hm, hy⟩)), hf x (by simp)⟩).1
    show g.Stands α (stageAfter α (serve (α := α) stage x).2 rest)
    exact stands_stageAfter ht hserve (fun y hy => hn y (by simp [hy]))
      (fun y hy => hk y (by simp [hy])) (fun y hy => hq y ((mem_questions (α := α)).2 (.inr hy)))
      fun y hy => hf y (by simp [hy])

/-! ## The offset configured -/

end Session

namespace Run

variable {r : Run} {d d' : Disk} {offset offset' : Option Int} {o : Int}

theorem settledPlan_of_configured (h : r.classifier.modulatorOffset = some o) (splits : Splits) :
    r.settledPlan offset splits = some (r.planWith o) := by
  unfold settledPlan knownOffset
  rw [h]
  split <;> rfl

/-- With the offset configured there is one plan, whatever is on the disk. -/
theorem planOn_of_configured (h : r.classifier.modulatorOffset = some o) (splits : Splits) :
    r.planOn d offset splits = r.planOn d' offset' splits := by
  rw [planOn_of_settled (settledPlan_of_configured h splits), planOn_of_settled (settledPlan_of_configured h splits)]

end Run

namespace Call

theorem questions_withoutShelf (r : Run) (call : Call) : call.withoutShelf.questions r = [] := by
  cases call <;> rfl

theorem files_withoutShelf (call : Call) : call.withoutShelf.files = call.files := by
  cases call <;> rfl

theorem grow_withoutShelf (r : Run) (call : Call) : call.withoutShelf.grow r = call.grow r := by
  cases call <;> rfl

theorem plainAnswer_congr {α : Type} [Scalar α] {m m' : Member} {d d' : Disk} {o : Int} (hm : m.run = m'.run)
    (ho : m.run.classifier.modulatorOffset = some o)
    (hd : ∀ file ∈ m.run.files, m.run.store.load d file = m.run.store.load d' file) (call : Call) :
    (call.plainAnswer m d : Answer α) = call.withoutShelf.plainAnswer m' d' := by
  cases call with
  | average q opts =>
    refine congrArg Answer.average ?_
    rw [← hm]
    exact Run.averageOn_congr (Run.planOn_of_configured ho _) hd _
  | collect q opts =>
    refine congrArg Answer.collection ?_
    rw [← hm]
    exact Run.collectionOn_congr (Run.planOn_of_configured ho _) hd
  | addFiles files => exact congrArg (fun r => Answer.added (Run.addFiles r files).2) hm

end Call

namespace Session

variable {α : Type} [Scalar α] [Binary α] [Binary.Lawful α] {g : Ground}

omit [Scalar α] [Binary α] [Binary.Lawful α] in
theorem elim_eq_elim {a b : Option Member} {f f' : Member → Answer α} (h : a.map (·.run) = b.map (·.run))
    (hf : ∀ m ∈ a, ∀ m' ∈ b, m.run = m'.run → f m = f' m') : a.elim .nobody f = b.elim .nobody f' := by
  rcases a with _ | m <;> rcases b with _ | m'
  · rfl
  · cases h
  · cases h
  · exact hf m rfl m' rfl (Option.some.inj h)

omit [Binary.Lawful α] in
/-- The runs grow alike with and without the shelf. -/
theorem runsOn_serve_withoutShelf {stage stage' : Stage} (h : runsOn stage = runsOn stage') (x : Request) :
    runsOn (serve (α := α) stage x).2 = runsOn (serve (α := α) stage' x.withoutShelf).2 := by
  rw [runsOn_serve, runsOn_serve, ← h, Request.withoutShelf]
  congr 1
  exact funext fun r => congrArg _ (Call.grow_withoutShelf r x.call).symm

omit [Binary.Lawful α] in
/-- The offset stays configured. -/
theorem configured_serve {stage : Stage} {o : Int} (h : ∀ r ∈ runsOn stage, r.classifier.modulatorOffset = some o)
    (x : Request) : ∀ r ∈ runsOn (serve (α := α) stage x).2, r.classifier.modulatorOffset = some o := by
  rw [runsOn_serve]
  rcases hr : (runsOn stage)[x.place]? with _ | r
  · exact h
  · intro r' hr'
    rcases List.mem_or_eq_of_mem_set hr' with hr' | rfl
    · exact h r' hr'
    · obtain ⟨files, hgrown, -⟩ := x.call.grow_eq r
      rw [hgrown]
      exact h r (List.mem_of_getElem? hr)

/-- On common ground, from stages with the same runs, a call has the same answer with and without
the shelf. -/
theorem serve_of_stands (ht : g.Trusted α) {o : Int} {stage stage' : Stage} (h : g.Stands α stage)
    (h' : g.Stands α stage')
    (hruns : runsOn stage = runsOn stage') (ho : ∀ r ∈ runsOn stage, r.classifier.modulatorOffset = some o)
    {x : Request} (hn : Fits x.now) (hk : ∀ q opts, x.call = .average q opts → g.sizes opts.blockSize)
    (hq : ∀ m : Member, stage.roster[x.place]? = some m → ∀ y ∈ x.call.questions m.run, g.involved y)
    (hf : x.call.files ⊆ g.files) :
    (serve stage x).1 = ((serve stage' x.withoutShelf).1 : Answer α) ∧ g.Stands α (serve (α := α) stage x).2 ∧
      g.Stands α (serve (α := α) stage' x.withoutShelf).2 := by
  have hk' : ∀ q opts, x.withoutShelf.call = .average q opts → g.sizes opts.blockSize := by
    intro q opts hc
    rcases hx : x.call with ⟨q', opts'⟩ | ⟨q', opts'⟩ | files <;> rw [Request.withoutShelf, hx] at hc <;> cases hc
    exact hk q opts' hx
  obtain ⟨hst, ha⟩ := h.serve ht hn fun m hm => ⟨fun q opts hc => .inl (hk q opts hc), hq m hm, hf⟩
  obtain ⟨hst', ha'⟩ := h'.serve ht (x := x.withoutShelf) hn fun m _ => ⟨fun q opts hc => .inl (hk' q opts hc),
    fun y hy => (by rw [Request.withoutShelf, Call.questions_withoutShelf] at hy; cases hy),
    (by rw [Request.withoutShelf, Call.files_withoutShelf]; exact hf)⟩
  refine ⟨?_, hst, hst'⟩
  rw [ha hk, ha' hk', Request.withoutShelf]
  have hsame : (runsOn stage)[x.place]? = (runsOn stage')[x.place]? := by rw [hruns]
  unfold runsOn at hsame
  rw [List.getElem?_map, List.getElem?_map] at hsame
  refine elim_eq_elim hsame fun m hm m' hm' he => ?_
  -- both disks hold the data of the ground, so the same files are read
  have hload : ∀ file ∈ m.run.files, m.run.store.load stage.disk file = m.run.store.load stage'.disk file :=
    fun file hfile => by
      have hreads := (h.serves _ m hm).1
      rw [hreads.store, (h.sound _ m hm).loads file (hreads.files hfile),
        (h'.sound _ m' hm').loads file (hreads.files hfile)]
  exact Call.plainAnswer_congr he (ho _ (List.mem_map.2 ⟨m, List.mem_of_getElem? hm, rfl⟩)) hload x.call

/-- On common ground, from stages with the same runs, a session has the same answers with and
without the shelf. -/
theorem answers_of_stands (ht : g.Trusted α) {o : Int} : ∀ {requests : List Request} {stage stage' : Stage},
    g.Stands α stage → g.Stands α stage' → runsOn stage = runsOn stage' →
    (∀ r ∈ runsOn stage, r.classifier.modulatorOffset = some o) → (∀ x ∈ requests, Fits x.now) →
    (∀ x ∈ requests, ∀ q opts, x.call = .average q opts → g.sizes opts.blockSize) →
    (∀ y ∈ questions (runsOn stage) requests, g.involved y) → (∀ x ∈ requests, x.call.files ⊆ g.files) →
    (answers stage requests : List (Answer α)) = answers stage' (requests.map Request.withoutShelf)
  | [], _, _, _, _, _, _, _, _, _, _ => rfl
  | x :: rest, stage, stage', h, h', hruns, ho, hn, hk, hq, hf => by
    obtain ⟨ha, hst, hst'⟩ := serve_of_stands ht h h' hruns ho (hn x (by simp)) (hk x (by simp))
      (fun m hm y hy => hq y ((mem_questions (α := α)).2 (.inl ⟨m, hm, hy⟩))) (hf x (by simp))
    rw [List.map_cons, answers, answers, ha]
    exact congrArg _ (answers_of_stands ht hst hst' (runsOn_serve_withoutShelf hruns x) (configured_serve ho x)
      (fun y hy => hn y (by simp [hy])) (fun y hy => hk y (by simp [hy]))
      (fun y hy => hq y ((mem_questions (α := α)).2 (.inr hy))) fun y hy => hf y (by simp [hy]))

end Session
end ShotTally
