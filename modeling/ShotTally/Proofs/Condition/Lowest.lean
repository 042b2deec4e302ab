/-
The running minimum over the phases of a reference signal. The phases that some shot has come once each and in
increasing order. Comparing numbers is comparing their ranks, and a number without a rank is neither below nor
above any other: so the minimum that starts at a phase with a rank is the lowest of all that have one, and a start
without a rank is never left.
-/
import ShotTally.Proofs.Condition.Tally
import ShotTally.Proofs.Outcome

namespace ShotTally.Modulator

/-! ## Candidates -/

theorem HasPhase.nonneg {period p : Int} {shots : List Int} (h : HasPhase period shots p) (hperiod : 0 < period) :
    0 ≤ p ∧ p < period := by
  obtain ⟨shot, -, rfl⟩ := h
  exact ⟨Int.emod_nonneg shot hperiod.ne', Int.emod_lt_of_pos shot hperiod⟩

variable {period p : Int} {shots : List Int}

theorem mem_phases (hperiod : 0 < period) : p ∈ phases period shots ↔ HasPhase period shots p := by
  unfold phases
  rw [List.mem_filter, decide_eq_true_iff, and_iff_right_iff_imp]
  intro h
  obtain ⟨hnonneg, hlt⟩ := h.nonneg hperiod
  exact List.mem_map.2 ⟨p.toNat, List.mem_range.2 (by omega), Int.toNat_of_nonneg hnonneg⟩

theorem sorted_phases (period : Int) (shots : List Int) : (phases period shots).Pairwise (· < ·) :=
  (List.pairwise_map.2 (List.pairwise_lt_range.imp Int.ofNat_lt.2)).filter _

section

variable {α : Type} [Scalar α] {readings : List (Int × α)}

theorem mem_candidates (hperiod : 0 < period) {c : Int × α} :
    c ∈ candidates period shots readings ↔ HasPhase period shots c.1 ∧ c = candidate period readings c.1 := by
  unfold candidates
  rw [List.mem_map]
  constructor
  · rintro ⟨p, hp, rfl⟩
    exact ⟨(mem_phases hperiod).1 hp, rfl⟩
  · rintro ⟨hp, hc⟩
    exact ⟨c.1, (mem_phases hperiod).2 hp, hc.symm⟩

theorem sorted_candidates (period : Int) (shots : List Int) (readings : List (Int × α)) :
    (candidates period shots readings).Pairwise (·.1 < ·.1) :=
  List.pairwise_map.2 (sorted_phases period shots)

theorem candidates_eq_nil (hperiod : 0 < period) : candidates period shots readings = [] ↔ shots = [] := by
  constructor
  · intro h
    cases shots with
    | nil => rfl
    | cons shot shots =>
      have hmem : shot % period ∈ phases period (shot :: shots) :=
        (mem_phases hperiod).2 ⟨shot, List.mem_cons_self, rfl⟩
      rw [List.map_eq_nil_iff.1 h] at hmem
      cases hmem
  · rintro rfl
    exact List.map_eq_nil_iff.2 (List.filter_eq_nil_iff.2 (by simp [HasPhase]))

end

/-! ## The running minimum -/

section

variable {α β : Type} [LinearOrder β]

/-- The lowest of the candidates that have a rank, and of those of its rank the one of the least phase. -/
structure Lowest (rank : α → Option β) (cs : List (Int × α)) (best : Int × α) (y : β) : Prop where
  mem : best ∈ cs
  ranked : rank best.2 = some y
  le : ∀ c ∈ cs, ∀ z ∈ rank c.2, y ≤ z
  lt : ∀ c ∈ cs, c.1 < best.1 → ∀ z ∈ rank c.2, y < z

variable {rank : α → Option β} {cs : List (Int × α)} {first best next : Int × α} {y : β}

theorem lowest_singleton (h : rank first.2 = some y) : Lowest rank [first] first y := by
  refine ⟨by simp, h, ?_, ?_⟩
  · simp [h]
  · simp

variable [Scalar α]

/-- Numbers compare as their ranks do, and without a rank not at all. -/
def RankedBy (rank : α → Option β) : Prop := ∀ a b, Scalar.lt a b = true ↔ ∃ x ∈ rank a, ∃ y ∈ rank b, x < y

/-- One more candidate, of a later phase. -/
theorem Lowest.better (hr : RankedBy rank) (h : Lowest rank cs best y) (hnext : ∀ c ∈ cs, c.1 < next.1) :
    ∃ y, Lowest rank (cs ++ [next]) (better best next) y := by
  simp only [Modulator.better]
  -- the next phase is lower than all before, or the best so far stays the first of the lowest
  by_cases hlt : Scalar.lt next.2 best.2 = true
  · obtain ⟨x, hx, y', hy', hxy⟩ := (hr _ _).1 hlt
    obtain rfl : y = y' := Option.some.inj (h.ranked.symm.trans hy')
    have hbelow : ∀ c ∈ cs, ∀ z ∈ rank c.2, x < z := fun c hc z hz => hxy.trans_le (h.le c hc z hz)
    rw [if_pos hlt]
    refine ⟨x, by simp, hx, ?_, ?_⟩ <;> intro c hc
    · rcases List.mem_append.1 hc with hc | hc
      · exact fun z hz => (hbelow c hc z hz).le
      · obtain rfl := List.mem_singleton.1 hc
        exact fun z hz => (Option.some.inj (hx.symm.trans hz)).le
    · rcases List.mem_append.1 hc with hc | hc
      · exact fun _ => hbelow c hc
      · obtain rfl := List.mem_singleton.1 hc
        exact fun h => absurd h (lt_irrefl _)
  · rw [if_neg hlt]
    refine ⟨y, List.mem_append_left _ h.mem, h.ranked, ?_, ?_⟩ <;> intro c hc
    · rcases List.mem_append.1 hc with hc | hc
      · exact h.le c hc
      · obtain rfl := List.mem_singleton.1 hc
        exact fun z hz => le_of_not_gt fun hzy => hlt ((hr _ _).2 ⟨z, hz, y, h.ranked, hzy⟩)
    · rcases List.mem_append.1 hc with hc | hc
      · exact h.lt c hc
      · obtain rfl := List.mem_singleton.1 hc
        exact fun hlt => absurd (hnext best h.mem) hlt.not_gt

/-- All further candidates, in the order of their phases. -/
theorem Lowest.foldl (hr : RankedBy rank) : ∀ {others cs : List (Int × α)} {best : Int × α} {y : β},
    Lowest rank cs best y → (cs ++ others).Pairwise (·.1 < ·.1) →
      ∃ y, Lowest rank (cs ++ others) (others.foldl Modulator.better best) y
  | [], cs, best, y, h, _ => ⟨y, by rwa [List.append_nil]⟩
  | next :: others, cs, best, y, h, hsorted => by
    have hnext : ∀ c ∈ cs, c.1 < next.1 := fun c hc => (List.pairwise_append.1 hsorted).2.2 c hc next List.mem_cons_self
    obtain ⟨y, h⟩ := h.better hr hnext
    have hassoc : cs ++ next :: others = cs ++ [next] ++ others := by simp
    rw [hassoc] at hsorted ⊢
    exact Lowest.foldl hr h hsorted

/-- A number without a rank is never left for another. -/
theorem foldl_better_of_unranked (hr : RankedBy rank) (h : rank first.2 = none) :
    ∀ others : List (Int × α), others.foldl better first = first
  | [] => rfl
  | next :: others => by
    have hlt : ¬ Scalar.lt next.2 first.2 = true := fun hlt => by
      obtain ⟨-, -, y, hy, -⟩ := (hr _ _).1 hlt
      rw [h] at hy
      cases hy
    rw [List.foldl_cons, better, if_neg hlt, foldl_better_of_unranked hr h others]

end

/-! ## The detected offset -/

section

variable {α β : Type} [Scalar α] [LinearOrder β] {rank : α → Option β} {values : List α} {p₀ : Int}

/-- Where there is an offset it is that of the running minimum. -/
theorem detectOffset_eq_ok : detectOffset shots values period = .ok p ↔ 0 < period ∧ shots.length = values.length ∧
    ∃ first others, candidates period shots (shots.zip values) = first :: others ∧
      (others.foldl better first).1 = p := by
  by_cases hperiod : 0 < period
  case neg =>
    unfold detectOffset
    rw [if_pos (not_lt.1 hperiod)]
    exact ⟨nofun, fun h => absurd h.1 hperiod⟩
  by_cases hlen : shots.length = values.length
  case neg =>
    unfold detectOffset
    rw [if_neg hperiod.not_ge, if_pos hlen]
    exact ⟨nofun, fun h => absurd h.2.1 hlen⟩
  rw [detectOffset_eq hperiod hlen]
  cases candidates period shots (shots.zip values) with
  | nil => simp [lowestOf, fail]
  | cons first others => simp [lowestOf, hperiod, hlen]

/-- There is no offset exactly without a period, without a reading for each shot, or without a shot. -/
theorem exists_detectOffset : (∃ p, detectOffset shots values period = .ok p) ↔
    0 < period ∧ shots.length = values.length ∧ shots ≠ [] := by
  simp only [detectOffset_eq_ok]
  constructor
  · rintro ⟨-, hperiod, hlen, first, others, hc, -⟩
    refine ⟨hperiod, hlen, fun hnil => ?_⟩
    rw [(candidates_eq_nil hperiod).2 hnil] at hc
    cases hc
  · rintro ⟨hperiod, hlen, hne⟩
    have hcandidates : candidates period shots (shots.zip values) ≠ [] := mt (candidates_eq_nil hperiod).1 hne
    obtain ⟨first, others, hc⟩ := List.exists_cons_of_ne_nil hcandidates
    exact ⟨_, hperiod, hlen, first, others, hc, rfl⟩

/-- The least of the phases that some shot has. -/
structure LeastPhase (period : Int) (shots : List Int) (p₀ : Int) : Prop where
  has : HasPhase period shots p₀
  le : ∀ p, HasPhase period shots p → p₀ ≤ p

/-- The least phase is the first candidate. -/
theorem LeastPhase.exists_others (h : LeastPhase period shots p₀) (hperiod : 0 < period) (readings : List (Int × α)) :
    ∃ others, candidates period shots readings = candidate period readings p₀ :: others := by
  have hmem : candidate period readings p₀ ∈ candidates period shots readings := (mem_candidates hperiod).2 ⟨h.has, rfl⟩
  obtain ⟨first, others, hc⟩ := List.exists_cons_of_ne_nil (List.ne_nil_of_mem hmem)
  obtain ⟨hfirst, -⟩ := (mem_candidates hperiod).1 (hc ▸ List.mem_cons_self : first ∈ candidates period shots readings)
  have hsorted := sorted_candidates period shots readings
  rw [hc] at hmem hsorted
  rcases List.mem_cons.1 hmem with h₀ | h₀
  · exact ⟨others, h₀ ▸ hc⟩
  · exact absurd ((List.pairwise_cons.1 hsorted).1 _ h₀) (h.le first.1 hfirst).not_gt

/-- The offset is the lowest candidate when the least phase has a rank. -/
theorem LeastPhase.exists_lowest (h : LeastPhase period shots p₀) (hr : RankedBy rank) (hperiod : 0 < period)
    (hlen : shots.length = values.length)
    (hrank : (rank (candidate period (shots.zip values) p₀).2).isSome = true) : ∃ p y,
      detectOffset shots values period = .ok p ∧
        Lowest rank (candidates period shots (shots.zip values)) (candidate period (shots.zip values) p) y := by
  obtain ⟨others, hc⟩ := h.exists_others hperiod (shots.zip values)
  obtain ⟨y₀, hy₀⟩ := Option.isSome_iff_exists.1 hrank
  have hsorted := sorted_candidates period shots (shots.zip values)
  rw [hc] at hsorted
  obtain ⟨y, hlowest⟩ := (lowest_singleton hy₀).foldl hr hsorted
  rw [List.singleton_append, ← hc] at hlowest
  refine ⟨_, y, detectOffset_eq_ok.2 ⟨hperiod, hlen, _, _, hc, rfl⟩, ?_⟩
  rw [← ((mem_candidates hperiod).1 hlowest.mem).2]
  exact hlowest

/-- The offset is the least phase when that has no rank. -/
theorem LeastPhase.detectOffset_of_unranked (h : LeastPhase period shots p₀) (hr : RankedBy rank) (hperiod : 0 < period)
    (hlen : shots.length = values.length) (hrank : rank (candidate period (shots.zip values) p₀).2 = none) :
    detectOffset shots values period = .ok p₀ := by
  obtain ⟨others, hc⟩ := h.exists_others hperiod (shots.zip values)
  refine detectOffset_eq_ok.2 ⟨hperiod, hlen, _, _, hc, ?_⟩
  rw [foldl_better_of_unranked hr hrank]
  rfl

/-- Some shot has the least phase, if there is one. -/
theorem exists_leastPhase (hperiod : 0 < period) (hne : shots ≠ []) : ∃ p₀, LeastPhase period shots p₀ := by
  have hphases : phases period shots ≠ [] := by
    obtain ⟨shot, _, rfl⟩ := List.exists_cons_of_ne_nil hne
    exact List.ne_nil_of_mem ((mem_phases hperiod).2 ⟨shot, List.mem_cons_self, rfl⟩)
  obtain ⟨p₀, rest, hp⟩ := List.exists_cons_of_ne_nil hphases
  have hsorted := sorted_phases period shots
  rw [hp] at hsorted
  refine ⟨p₀, (mem_phases hperiod).1 (hp ▸ List.mem_cons_self), fun p h => ?_⟩
  rcases List.mem_cons.1 (hp ▸ (mem_phases hperiod).2 h) with rfl | hmem
  · exact le_rfl
  · exact ((List.pairwise_cons.1 hsorted).1 p hmem).le

end

end ShotTally.Modulator
