/-
Sorting a file into buckets as an outcome: what compiling ends with, and the notices that it gives whether or
not it succeeds. The name of the file only shows in faults, on the buckets and in notices.
-/
import ShotTally.Bucket.Compile
import ShotTally.Proofs.Notice
import ShotTally.Proofs.Outcome

namespace ShotTally

/-! ## Outcomes of computations with notices -/

theorem Outcome.within_eq_ok {α : Type} {x : Outcome α} {name value : String} {a : α} :
    x.within name value = .ok a ↔ x = .ok a := by
  unfold Outcome.within
  split <;> simp_all

/-- The notices of what follows a step; nothing follows a step that fails. -/
def Outcome.following {α : Type} (o : Outcome α) (notices : α → List Notice) : List Notice :=
  match o with
  | .ok a => notices a
  | .error _ => []

theorem Outcome.following_within {α : Type} (o : Outcome α) (name value : String) (notices : α → List Notice) :
    (o.within name value).following notices = o.following notices := by
  unfold Outcome.within
  split <;> rfl

theorem Outcome.mem_following {α : Type} {o : Outcome α} {notices : α → List Notice} {n : Notice} :
    n ∈ o.following notices ↔ ∃ a, o = .ok a ∧ n ∈ notices a := by
  unfold Outcome.following
  cases o <;> simp

namespace Noted

variable {α β : Type}

/-- The computation ends with this outcome and gives these notices, whatever notices were given before. -/
def Gives (x : Noted α) (o : Outcome α) (notices : List Notice) : Prop := ∀ given, x.run given = (o, given ++ notices)

namespace Gives

variable {o : Outcome α} {notices : List Notice}

theorem outcome_eq {x : Noted α} (h : Gives x o notices) : x.outcome = o := congrArg Prod.fst (h [])

theorem notices_eq {x : Noted α} (h : Gives x o notices) : x.notices = notices := congrArg Prod.snd (h [])

theorem pure (a : α) : Gives (pure a) (.ok a) [] := fun given => congrArg (Prod.mk _) (List.append_nil given).symm

theorem lift (o : Outcome α) : Gives (Noted.lift o) o [] :=
  fun given => congrArg (Prod.mk _) (List.append_nil given).symm

theorem give (n : Notice) : Gives (Noted.give n) (.ok ()) [n] := fun _ => rfl

theorem bind {x : Noted α} {f : α → Noted β} {g : α → Outcome β} {more : α → List Notice} (hx : Gives x o notices)
    (hf : ∀ a, o = .ok a → Gives (f a) (g a) (more a)) : Gives (x >>= f) (o >>= g) (notices ++ o.following more) := by
  intro given
  have hrun : (x >>= f).run given = ExceptT.bindCont f (x.run given).1 (x.run given).2 := rfl
  rw [hrun, hx]
  cases o with
  | error e => exact congrArg (Prod.mk _) (congrArg (given ++ ·) (List.append_nil notices).symm)
  | ok a => exact (hf a rfl _).trans (congrArg (Prod.mk _) (List.append_assoc _ _ _))

/-- An outcome, and what follows it. -/
theorem lift_bind {f : α → Noted β} {g : α → Outcome β} {more : α → List Notice}
    (hf : ∀ a, o = .ok a → Gives (f a) (g a) (more a)) : Gives (Noted.lift o >>= f) (o >>= g) (o.following more) :=
  (lift o).bind hf

/-- What follows gives no notice. -/
theorem bind_quiet {x : Noted α} {f : α → Noted β} {g : α → Outcome β} (hx : Gives x o notices)
    (hf : ∀ a, o = .ok a → Gives (f a) (g a) []) : Gives (x >>= f) (o >>= g) notices := by
  have h := hx.bind hf
  have hnone : o.following (fun _ => []) = [] := by cases o <;> rfl
  rwa [hnone, List.append_nil] at h

theorem within {x : Noted α} (h : Gives x o notices) (name value : String) :
    Gives (x.within name value) (o.within name value) notices := by
  intro given
  show (Outcome.within (x.run given).1 name value, (x.run given).2) = _
  rw [h]

end Gives
end Noted

/-! ## Sorting -/

namespace ReadingPlan

variable (plan : ReadingPlan) (file : ShotFile) (name : String)

/-- The period of the source, unknown as minus one. -/
def sourcePeriodIn : Int :=
  match plan.sourcePeriod with
  | some period => period
  | none => match (file.numeric? plan.sourcePeriodDataset).bind (·.data.head?) with
    | some value => value.toInt64
    | none => -1

/-- The quantity of a file that has it. -/
def quantityOf (quantity : String) : Outcome (Option (Tensor Double)) :=
  match file.dataset? (plan.aliases.resolve quantity) with
  | none => .ok none
  | some (.text _) => fail (Report.new .compile "quantity_not_numeric" "aggregated quantity must be numeric"
      |>.note "file" name
      |>.note "quantity" quantity)
  | some (.numeric array) => .ok (some array)

/-- The selections among the shots of a file. -/
def shotSelections (splits : Splits) (rules : List Rule.Predicate) (shots : List Int) : Outcome Selections := do
  let flags := ShotFlags.classify ⟨plan.sourcePeriodIn file, plan.sourceOffset⟩ plan.modulator shots
  let masks ← rules.mapM fun r => r.mask (file.accessor plan.aliases shots.length) shots.length
  return ⟨flags.masks splits, masks⟩

/-- The buckets of a file, or none when it lacks the quantity. -/
def sorted {α : Type} [Scalar α] (query : Query) (rules : List Rule.Predicate) : Outcome (Option (FileBuckets α)) := do
  if rules.length ≠ query.rules.length then
    fail (Report.new .compile "rule_count" "compiled rules do not match the query's rules"
      |>.note "file" name
      |>.note "query_rules" (Text.natText query.rules.length)
      |>.note "compiled_rules" (Text.natText rules.length))
  let shots ← (file.shotIndices plan.shotIndexDataset).within "file" name
  match ← plan.quantityOf file name query.quantity with
  | none => return none
  | some array =>
    let (layout, perShot) ← arrange array shots.length
    let data ← ((query.slices.apply layout).within "file" name).within "quantity" query.quantity
    let selections ← if perShot then plan.shotSelections file query.splits rules shots else pure (selectSingle rules)
    let rows ← bucketRows selections (data.map Scalar.ofDouble)
    return some ⟨name, query.bucketShape, rows⟩

variable {plan file name}

variable (plan file name) in
/-- The notice that the period is neither configured nor stored. -/
def periodNotices : List Notice :=
  match plan.sourcePeriod with
  | some _ => []
  | none => match (file.numeric? plan.sourcePeriodDataset).bind (·.data.head?) with
    | some _ => []
    | none => [.sourcePeriodMissing plan.sourcePeriodDataset name]

variable (plan file name) in
/-- The notice that a file lacks the quantity. -/
def quantityNotices (quantity : String) : List Notice :=
  match file.dataset? (plan.aliases.resolve quantity) with
  | none => [.quantityMissing quantity (plan.aliases.resolve quantity) name]
  | some _ => []

variable (plan file name) in
/-- The notices of sorting a file: that it lacks the quantity, or, once the quantity is sliced, that the period
is missing by which its shots are sorted or that it cannot be split. -/
def sortingNotices (query : Query) : List Notice :=
  (file.shotIndices plan.shotIndexDataset).following fun shots =>
    plan.quantityNotices file name query.quantity ++ (plan.quantityOf file name query.quantity).following fun
      | none => []
      | some array => (arrange array shots.length).following fun (layout, perShot) =>
        (query.slices.apply layout).following fun _ =>
          if perShot then plan.periodNotices file name
          else if query.splits.any then [.notPerShot query.quantity name array.shape shots.length] else []

theorem gives_periodOf :
    Noted.Gives (plan.periodOf file name) (.ok (plan.sourcePeriodIn file)) (plan.periodNotices file name) := by
  unfold periodOf sourcePeriodIn periodNotices
  cases plan.sourcePeriod with
  | some period => exact .pure _
  | none =>
    cases (file.numeric? plan.sourcePeriodDataset).bind (·.data.head?) with
    | some value => exact .pure _
    | none => exact (Noted.Gives.give _).bind_quiet (g := fun _ => .ok (-1)) fun _ _ => .pure _

theorem gives_quantityIn (quantity : String) :
    Noted.Gives (plan.quantityIn file name quantity) (plan.quantityOf file name quantity)
      (plan.quantityNotices file name quantity) := by
  unfold quantityIn quantityOf quantityNotices
  dsimp only
  rcases file.dataset? (plan.aliases.resolve quantity) with _ | array | values
  · exact (Noted.Gives.give _).bind_quiet (g := fun _ => .ok none) fun _ _ => .pure _
  · exact .pure _
  · exact .lift _

theorem gives_selectShots (splits : Splits) (rules : List Rule.Predicate) (shots : List Int) :
    Noted.Gives (plan.selectShots file name splits rules shots) (plan.shotSelections file splits rules shots)
      (plan.periodNotices file name) := by
  refine gives_periodOf.bind_quiet (g := fun _ => plan.shotSelections file splits rules shots) fun _ h => ?_
  cases h
  exact (Noted.Gives.lift _).bind_quiet fun masks _ => .pure _

variable {α : Type} [Scalar α]

/-- The buckets of the selected rows, once the notices have been given. -/
theorem gives_bucketRows (query : Query) (selections : Selections) (data : Tensor Double) :
    Noted.Gives (do
        let rows ← Noted.lift (bucketRows selections (data.map Scalar.ofDouble))
        return some (⟨name, query.bucketShape, rows⟩ : FileBuckets α))
      (bucketRows selections (data.map Scalar.ofDouble) >>= fun rows =>
        .ok (some ⟨name, query.bucketShape, rows⟩)) [] :=
  (Noted.Gives.lift _).bind_quiet fun _ _ => .pure _

/-- Compiling a file ends with sorting it. -/
theorem gives_compile (query : Query) (rules : List Rule.Predicate) :
    Noted.Gives (plan.compile file name query rules : Noted (Option (FileBuckets α)))
      (plan.sorted file name query rules)
      (if rules.length ≠ query.rules.length then [] else plan.sortingNotices file name query) := by
  unfold ReadingPlan.compile sorted sortingNotices
  dsimp only
  by_cases hlen : rules.length ≠ query.rules.length
  · rw [if_pos hlen, if_pos hlen, if_pos hlen]
    exact (Noted.Gives.lift _).bind_quiet fun _ h => by cases h
  rw [if_neg hlen, if_neg hlen, if_neg hlen, ← Outcome.following_within _ "file" name]
  refine Noted.Gives.lift_bind fun shots _ => (gives_quantityIn _).bind fun found _ => ?_
  cases found with
  | none => exact .pure _
  | some array =>
    refine Noted.Gives.lift_bind fun arranged _ => ?_
    obtain ⟨layout, perShot⟩ := arranged
    dsimp only
    rw [← Outcome.following_within _ "file" name, ← Outcome.following_within _ "quantity" query.quantity]
    refine Noted.Gives.lift_bind fun data _ => ?_
    -- the notices depend on the layout: of the period with a row for each shot, else of the splits
    by_cases hper : perShot = true
    · rw [if_pos hper, if_pos hper, if_pos hper]
      exact (gives_selectShots _ _ _).bind_quiet fun _ _ => gives_bucketRows _ _ _
    rw [if_neg hper, if_neg hper, if_neg hper]
    by_cases hsplits : query.splits.any = true
    · rw [if_pos hsplits, if_pos hsplits]
      exact (Noted.Gives.give _).bind_quiet (g := fun _ => _) fun _ _ => gives_bucketRows _ _ _
    · rw [if_neg hsplits, if_neg hsplits]
      exact gives_bucketRows _ _ _

theorem outcome_compile (query : Query) (rules : List Rule.Predicate) :
    ((plan.compile file name query rules : Noted (Option (FileBuckets α))).within "file" name).outcome =
      (plan.sorted file name query rules).within "file" name :=
  ((gives_compile query rules).within _ _).outcome_eq

theorem notices_compile {query : Query} {rules : List Rule.Predicate} (hlen : rules.length = query.rules.length) :
    ((plan.compile file name query rules : Noted (Option (FileBuckets α))).within "file" name).notices =
      plan.sortingNotices file name query := by
  have h : Noted.Gives (plan.compile file name query rules : Noted (Option (FileBuckets α))) _ _ :=
    gives_compile query rules
  have hnotices := (h.within "file" name).notices_eq
  rwa [if_neg (not_not.2 hlen)] at hnotices

/-! ## When sorting succeeds -/

/-- The steps of sorting a file that has the quantity. -/
structure Sorts (plan : ReadingPlan) (file : ShotFile) (query : Query) (rules : List Rule.Predicate) (shots : List Int)
    (array layout data : Tensor Double) (perShot : Bool) (selections : Selections) (rows : List (Tensor α)) : Prop where
  indices : file.shotIndices plan.shotIndexDataset = .ok shots
  quantity : file.dataset? (plan.aliases.resolve query.quantity) = some (.numeric array)
  arranged : arrange array shots.length = .ok (layout, perShot)
  sliced : query.slices.apply layout = .ok data
  selected : (if perShot then plan.shotSelections file query.splits rules shots else .ok (selectSingle rules)) =
    .ok selections
  bucketed : bucketRows selections (data.map Scalar.ofDouble) = .ok rows

theorem quantityOf_eq_ok {quantity : String} {a : Option (Tensor Double)} :
    plan.quantityOf file name quantity = .ok a ↔
      file.dataset? (plan.aliases.resolve quantity) = a.map .numeric := by
  unfold quantityOf
  rcases file.dataset? (plan.aliases.resolve quantity) with _ | array | values <;> cases a <;> simp [fail]

/-- What sorting ends with, once the rules and the shot numbers are there. -/
theorem sorted_eq_ok {query : Query} {rules : List Rule.Predicate} {b : Option (FileBuckets α)} :
    plan.sorted file name query rules = .ok b ↔ rules.length = query.rules.length ∧
      ∃ shots, file.shotIndices plan.shotIndexDataset = .ok shots ∧
        ((file.dataset? (plan.aliases.resolve query.quantity) = none ∧ b = none) ∨
          ∃ array layout data perShot selections rows,
            Sorts plan file query rules shots array layout data perShot selections rows ∧
            b = some ⟨name, query.bucketShape, rows⟩) := by
  unfold sorted
  dsimp only
  by_cases hlen : rules.length ≠ query.rules.length
  · rw [if_pos hlen]
    exact ⟨fun h => (by cases h), fun h => absurd h.1 hlen⟩
  rw [if_neg hlen, bind_eq_ok]
  simp only [Outcome.within_eq_ok, bind_eq_ok]
  refine ⟨?_, ?_⟩
  · rintro ⟨shots, hs, a, ha, h⟩
    rw [quantityOf_eq_ok] at ha
    refine ⟨not_not.1 hlen, shots, hs, ?_⟩
    cases a with
    | none => cases h; exact .inl ⟨ha, rfl⟩
    | some array =>
      obtain ⟨⟨layout, perShot⟩, hl, h⟩ := bind_eq_ok.1 h
      obtain ⟨data, hd, h⟩ := bind_eq_ok.1 h
      rw [Outcome.within_eq_ok, Outcome.within_eq_ok] at hd
      dsimp only at h
      -- both layouts end in a selection and its buckets
      have hsel : ∃ selections, (if perShot then plan.shotSelections file query.splits rules shots
          else .ok (selectSingle rules)) = .ok selections ∧ ∃ rows,
          bucketRows selections (data.map Scalar.ofDouble) = .ok rows ∧ b = some ⟨name, query.bucketShape, rows⟩ := by
        cases perShot <;>
          (obtain ⟨selections, hsel, h⟩ := bind_eq_ok.1 h
           obtain ⟨rows, hr, h⟩ := bind_eq_ok.1 h
           cases h
           exact ⟨selections, hsel, rows, hr, rfl⟩)
      obtain ⟨selections, hsel, rows, hr, hb⟩ := hsel
      exact .inr ⟨array, layout, data, perShot, selections, rows, ⟨hs, ha, hl, hd, hsel, hr⟩, hb⟩
  · rintro ⟨-, shots, hs, ⟨hq, rfl⟩ | ⟨array, layout, data, perShot, selections, rows, h, rfl⟩⟩
    · exact ⟨shots, hs, none, quantityOf_eq_ok.2 hq, rfl⟩
    · refine ⟨shots, hs, some array, quantityOf_eq_ok.2 h.quantity, ?_⟩
      refine bind_eq_ok.2 ⟨(layout, perShot), h.arranged, bind_eq_ok.2 ⟨data, ?_, ?_⟩⟩
      · rw [Outcome.within_eq_ok, Outcome.within_eq_ok]; exact h.sliced
      · have hsel := h.selected
        dsimp only
        cases perShot <;> exact bind_eq_ok.2 ⟨selections, hsel, bind_eq_ok.2 ⟨rows, h.bucketed, rfl⟩⟩

/-- Under another name a file is sorted into the same buckets. -/
theorem sorted_renamed {query : Query} {rules : List Rule.Predicate} {b : Option (FileBuckets α)} (other : String)
    (h : plan.sorted file name query rules = .ok b) :
    plan.sorted file other query rules = .ok (b.map fun b => { b with file := other }) := by
  rw [sorted_eq_ok] at h ⊢
  obtain ⟨hlen, shots, hs, ⟨hq, rfl⟩ | ⟨array, layout, data, perShot, selections, rows, h, rfl⟩⟩ := h
  · exact ⟨hlen, shots, hs, .inl ⟨hq, rfl⟩⟩
  · exact ⟨hlen, shots, hs, .inr ⟨array, layout, data, perShot, selections, rows, h, rfl⟩⟩

/-! ## Notices given once -/

/-- Sorting the file gets past slicing the quantity, which has a row for each shot or has not. -/
def GetsPastSlicing (plan : ReadingPlan) (file : ShotFile) (query : Query) (perShot : Bool) : Prop :=
  ∃ shots array layout data, file.shotIndices plan.shotIndexDataset = .ok shots ∧
    file.dataset? (plan.aliases.resolve query.quantity) = some (.numeric array) ∧
    arrange array shots.length = .ok (layout, perShot) ∧ query.slices.apply layout = .ok data

/-- The period of the source is neither configured nor stored in the file. -/
def LacksPeriod (plan : ReadingPlan) (file : ShotFile) : Prop :=
  plan.sourcePeriod = none ∧ (file.numeric? plan.sourcePeriodDataset).bind (·.data.head?) = none

theorem mem_periodNotices {n : Notice} : n ∈ plan.periodNotices file name ↔
    plan.LacksPeriod file ∧ n = .sourcePeriodMissing plan.sourcePeriodDataset name := by
  unfold periodNotices LacksPeriod
  cases plan.sourcePeriod with
  | some period => simp
  | none => cases (file.numeric? plan.sourcePeriodDataset).bind (·.data.head?) <;> simp

/-- A notice that is given once is given past slicing. -/
theorem mem_sortingNotices {query : Query} {n : Notice} (hn : n.isWatched = true) :
    n ∈ plan.sortingNotices file name query ↔ ∃ shots array layout data perShot,
      (file.shotIndices plan.shotIndexDataset = .ok shots ∧
        file.dataset? (plan.aliases.resolve query.quantity) = some (.numeric array) ∧
        arrange array shots.length = .ok (layout, perShot) ∧ query.slices.apply layout = .ok data) ∧
      n ∈ if perShot then plan.periodNotices file name
        else if query.splits.any then [.notPerShot query.quantity name array.shape shots.length] else [] := by
  -- a missing quantity is noticed every time, so it is none of the watched notices
  have hmissing : n ∉ plan.quantityNotices file name query.quantity := by
    unfold quantityNotices
    split
    · intro h
      rw [List.mem_singleton.1 h] at hn
      cases hn
    · exact List.not_mem_nil
  unfold sortingNotices
  simp only [Outcome.mem_following, List.mem_append, hmissing, false_or, quantityOf_eq_ok]
  constructor
  · rintro ⟨shots, hs, array, ha, h⟩
    cases array with
    | none => cases h
    | some array =>
      obtain ⟨⟨layout, perShot⟩, hl, h⟩ := Outcome.mem_following.1 h
      obtain ⟨data, hd, h⟩ := Outcome.mem_following.1 h
      exact ⟨shots, array, layout, data, perShot, ⟨hs, ha, hl, hd⟩, h⟩
  · rintro ⟨shots, array, layout, data, perShot, ⟨hs, ha, hl, hd⟩, h⟩
    exact ⟨shots, hs, some array, ha,
      Outcome.mem_following.2 ⟨(layout, perShot), hl, Outcome.mem_following.2 ⟨data, hd, h⟩⟩⟩

/-- That a quantity has no row for each shot is noticed when splits are asked for. -/
theorem exists_notPerShot {query : Query} {quantity other : String} :
    (∃ n ∈ plan.sortingNotices file name query, n.isNotPerShot quantity other = true) ↔
      name = other ∧ query.quantity = quantity ∧ query.splits.any = true ∧ plan.GetsPastSlicing file query false := by
  constructor
  · rintro ⟨n, hn, hkind⟩
    obtain ⟨q, f, shape, count, rfl⟩ : ∃ q f shape count, n = .notPerShot q f shape count := by
      cases n <;> first | exact ⟨_, _, _, _, rfl⟩ | cases hkind
    obtain ⟨shots, array, layout, data, perShot, hsteps, h⟩ := (mem_sortingNotices rfl).1 hn
    -- such a notice is none of those about the period, so the file is not read shot by shot
    have hnot : Notice.notPerShot q f shape count ∉ plan.periodNotices file name := fun h => by
      cases (mem_periodNotices.1 h).2
    cases perShot with
    | true => exact absurd h hnot
    | false =>
      rw [if_neg Bool.false_ne_true] at h
      split at h
      · rename_i hsplits
        obtain ⟨rfl, rfl, -, -⟩ := Notice.notPerShot.inj (List.mem_singleton.1 h)
        simp only [Notice.isNotPerShot, Bool.and_eq_true, beq_iff_eq] at hkind
        exact ⟨hkind.2, hkind.1, hsplits, shots, array, layout, data, hsteps⟩
      · cases h
  · rintro ⟨rfl, rfl, hsplits, shots, array, layout, data, hsteps⟩
    refine ⟨.notPerShot query.quantity name array.shape shots.length, (mem_sortingNotices rfl).2
      ⟨shots, array, layout, data, false, hsteps, ?_⟩, by simp [Notice.isNotPerShot]⟩
    rw [if_neg Bool.false_ne_true, if_pos hsplits]
    exact List.mem_singleton_self _

/-- That there is no period is noticed when the shots have to be sorted by it. -/
theorem sourcePeriodMissing_mem {query : Query} {dataset other : String} :
    .sourcePeriodMissing dataset other ∈ plan.sortingNotices file name query ↔
      name = other ∧ plan.sourcePeriodDataset = dataset ∧ plan.LacksPeriod file ∧
      plan.GetsPastSlicing file query true := by
  rw [mem_sortingNotices rfl]
  constructor
  · rintro ⟨shots, array, layout, data, perShot, hsteps, h⟩
    cases perShot with
    | true =>
      obtain ⟨hlacks, heq⟩ := mem_periodNotices.1 h
      obtain ⟨rfl, rfl⟩ := Notice.sourcePeriodMissing.inj heq
      exact ⟨rfl, rfl, hlacks, shots, array, layout, data, hsteps⟩
    | false =>
      rw [if_neg Bool.false_ne_true] at h
      split at h
      · cases List.mem_singleton.1 h
      · cases h
  · rintro ⟨rfl, rfl, hlacks, shots, array, layout, data, hsteps⟩
    exact ⟨shots, array, layout, data, true, hsteps, mem_periodNotices.2 ⟨hlacks, rfl⟩⟩

end ReadingPlan
end ShotTally
