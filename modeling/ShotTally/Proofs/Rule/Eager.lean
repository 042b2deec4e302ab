/-
The value of a rule by a machine that leaves nothing for later: each condition is looked up and
compared as soon as it comes, and every operator is applied to the flags of both its operands.
Evaluating with conditions left unlooked, columns remembered and right operands skipped gives the
flags that this machine gives, wherever it gives any.

A skipped operand shows in the shape of a value: one flag for all shots stands where the other
machine has that flag once for each shot. Every operator keeps the two in this relation.
-/
import ShotTally.Proofs.Rule.Asking

namespace ShotTally.Rule

/-! ## The machine that leaves nothing for later -/

namespace Predicate

/-- The mask of a condition: its column is fetched and every entry compared. -/
def conditionMask (p : Predicate) (accessor : Accessor) (index : Nat) : Outcome Mask :=
  match p.atoms[index]? with
  | none => .error malformed
  | some a => do a.onColumn (← accessor a.keyword)

/-- One step on a stack of masks, the latest first. -/
def performNow (p : Predicate) (accessor : Accessor) : List Mask → Step → Outcome (List Mask)
  | stack, .atom i => do return (← p.conditionMask accessor i) :: stack
  | operand :: rest, .apply .not => .ok (operand.not :: rest)
  | [], .apply .not => .error malformed
  | right :: left :: rest, .apply op => do return (← Mask.combine op left right) :: rest
  | _, .apply _ => .error malformed

/-- The value of a rule when every condition is looked up. -/
def evaluateNow (p : Predicate) (accessor : Accessor) : Outcome Mask :=
  if p.isTrivial then .ok (.constant true)
  else do
    match ← p.steps.foldlM (p.performNow accessor) [] with
    | [m] => .ok m
    | _ => .error malformed

/-- The flags of a rule when every condition is looked up, one for each of so many shots. -/
def maskNow (p : Predicate) (accessor : Accessor) (shots : Nat) : Outcome (List Bool) := do
  (← p.evaluateNow accessor).toFlags shots

end Predicate

/-! ## Shapes -/

namespace Mask

/-- One flag for all shots stands for that flag given for each of them, and any mask for itself. -/
inductive StandsFor : Mask → Mask → Prop
  | same (m : Mask) : StandsFor m m
  | once (b : Bool) (shots : Nat) : StandsFor (.constant b) (.flags (List.replicate shots b))

theorem zipWith_replicate_left (f : Bool → Bool → Bool) (b : Bool) : ∀ flags : List Bool,
    List.zipWith f (List.replicate flags.length b) flags = flags.map (f b)
  | [] => rfl
  | c :: rest => by
    rw [List.length_cons, List.replicate_succ, List.zipWith_cons_cons, zipWith_replicate_left f b rest, List.map_cons]

theorem zipWith_replicate_right (f : Bool → Bool → Bool) (b : Bool) : ∀ flags : List Bool,
    List.zipWith f flags (List.replicate flags.length b) = flags.map (f · b)
  | [] => rfl
  | c :: rest => by
    rw [List.length_cons, List.replicate_succ, List.zipWith_cons_cons, zipWith_replicate_right f b rest, List.map_cons]

/-- Two masks with a flag for each shot combine when they are for equally many shots. -/
theorem combine_flags_eq_ok {op : Operator} {as bs : List Bool} {m : Mask} :
    combine op (.flags as) (.flags bs) = .ok m ↔ as.length = bs.length ∧
    Mask.flags (List.zipWith op.onFlags as bs) = m := by
  show (if as.length ≠ bs.length then fail _ else .ok (Mask.flags (as.zipWith op.onFlags bs))) = _ ↔ _
  by_cases hlen : as.length = bs.length
  · rw [if_neg (not_not.2 hlen)]
    constructor
    · intro h
      exact ⟨hlen, Except.ok.inj h⟩
    · rintro ⟨-, rfl⟩
      rfl
  · rw [if_pos hlen]
    constructor
    · intro h
      cases h
    · rintro ⟨h, -⟩
      exact absurd h hlen

namespace StandsFor

variable {op : Operator} {l r e f m : Mask}

theorem not (h : l.StandsFor e) : l.not.StandsFor e.not := by
  cases h with
  | same => exact .same _
  | once b shots =>
    show StandsFor (.constant (!b)) (.flags ((List.replicate shots b).map (!·)))
    rw [List.map_replicate]
    exact .once _ _

/-- An operator on masks that stand for others gives one that stands for what it gives on those. -/
theorem combine (hl : l.StandsFor e) (hr : r.StandsFor f) (h : Mask.combine op e f = .ok m) :
    ∃ k, Mask.combine op l r = .ok k ∧ k.StandsFor m := by
  -- a constant is one flag for all shots, so it weighs the same against every flag of the other side
  cases hl with
  | same =>
    cases hr with
    | same => exact ⟨m, h, .same m⟩
    | once c shots =>
      cases l with
      | constant b =>
        cases h
        refine ⟨_, rfl, ?_⟩
        rw [List.map_replicate]
        exact .once _ _
      | flags as =>
        obtain ⟨hlen, rfl⟩ := combine_flags_eq_ok.1 h
        rw [List.length_replicate] at hlen
        subst hlen
        rw [zipWith_replicate_right]
        exact ⟨_, rfl, .same _⟩
  | once b shots =>
    cases hr with
    | same =>
      cases r with
      | constant c =>
        cases h
        refine ⟨_, rfl, ?_⟩
        rw [List.map_replicate]
        exact .once _ _
      | flags bs =>
        obtain ⟨hlen, rfl⟩ := combine_flags_eq_ok.1 h
        rw [List.length_replicate] at hlen
        subst hlen
        rw [zipWith_replicate_left]
        exact ⟨_, rfl, .same _⟩
    | once c shots' =>
      obtain ⟨hlen, rfl⟩ := combine_flags_eq_ok.1 h
      rw [List.length_replicate, List.length_replicate] at hlen
      subst hlen
      rw [List.zipWith_replicate']
      exact ⟨_, rfl, .once _ _⟩

/-- The flags are the same. -/
theorem toFlags {shots : Nat} {flags : List Bool} (h : l.StandsFor e) (he : e.toFlags shots = .ok flags) :
    l.toFlags shots = .ok flags := by
  cases h with
  | same => exact he
  | once b n =>
    simp only [Mask.toFlags, List.length_replicate] at he ⊢
    split at he
    · rename_i hn
      subst hn
      exact he
    · cases he

end StandsFor

/-- Where a constant left operand settles the result, the right flag does not matter. -/
theorem onFlags_of_settles {op : Operator} {b : Bool} (h : Predicate.settles op (.constant b) = true) (c : Bool) :
    op.onFlags b c = b := by
  cases op <;> cases b <;> first | rfl | cases h

/-- A left operand that settles the result stands for it, whatever the right operand. -/
theorem StandsFor.settled {op : Operator} {l e f m : Mask} (hl : l.StandsFor e) (hs : Predicate.settles op l = true)
    (h : Mask.combine op e f = .ok m) : l.StandsFor m := by
  cases l with
  | flags => cases op <;> cases hs
  | constant b =>
    have hb := onFlags_of_settles hs
    -- whatever the right side is, combining it with `b` gives `b` at every shot
    have hmap : ∀ bs : List Bool, bs.map (op.onFlags b) = List.replicate bs.length b := by
      intro bs
      rw [List.map_congr_left fun c _ => hb c, List.map_const']
    cases hl with
    | same =>
      cases f with
      | constant c =>
        cases h
        rw [hb]
        exact .same _
      | flags bs =>
        cases h
        show StandsFor _ (.flags (bs.map (op.onFlags b)))
        rw [hmap]
        exact .once _ _
    | once b shots =>
      cases f with
      | constant c =>
        cases h
        rw [List.map_replicate, hb]
        exact .once _ _
      | flags bs =>
        obtain ⟨hlen, rfl⟩ := combine_flags_eq_ok.1 h
        rw [List.length_replicate] at hlen
        subst hlen
        rw [zipWith_replicate_left, hmap]
        exact .once _ _

end Mask

/-! ## The two machines side by side -/

namespace Predicate

variable {p : Predicate} {accessor : Accessor}

/-- What waits on the stack against the mask that the other machine has in its place. -/
inductive Awaits (p : Predicate) (accessor : Accessor) : Slot → Mask → Prop
  | pending {i : Nat} {m : Mask} (h : p.conditionMask accessor i = .ok m) : Awaits p accessor (.pending i) m
  | ready {l m : Mask} (h : l.StandsFor m) : Awaits p accessor (.ready l) m

/-- A condition looked up later has the mask that it has at once. -/
theorem answer_resolve_pending (i : Nat) : answer (p.resolve accessor (.pending i)) = p.conditionMask accessor i := by
  unfold conditionMask
  simp only [resolve]
  cases p.atoms[i]? with
  | none => rfl
  | some a =>
    show answer (column accessor a.keyword >>= fun c => ExceptT.mk (pure (a.onColumn c))) = _
    rw [(Asks.column _).answer_bind fun c => .given _, answer_column]
    rfl

theorem Awaits.resolve {s : Slot} {m : Mask} (h : Awaits p accessor s m) :
    ∃ l, answer (p.resolve accessor s) = .ok l ∧ l.StandsFor m := by
  cases h with
  | pending h => exact ⟨m, (answer_resolve_pending _).trans h, .same m⟩
  | ready h => exact ⟨_, rfl, h⟩

/-- An operator on what waits gives a mask that stands for what it gives on the masks. -/
theorem Awaits.join {op : Operator} {left right : Slot} {e f m : Mask} (hl : Awaits p accessor left e)
    (hr : Awaits p accessor right f) (h : Mask.combine op e f = .ok m) :
    ∃ k, answer (p.join accessor op left right) = .ok k ∧ k.StandsFor m := by
  obtain ⟨l, hla, hle⟩ := hl.resolve
  have hasks : ∀ l : Mask, Asks accessor (if settles op l then pure l else do
      let r ← p.resolve accessor right
      ExceptT.mk (pure (Mask.combine op l r)) : Asking Mask) := by
    intro l
    split
    · exact .pure l
    · exact (Asks.resolve p right).bind fun r => .given _
  unfold Predicate.join
  rw [(Asks.resolve p left).answer_bind hasks, hla, ok_bind]
  by_cases hs : settles op l = true
  · -- the right operand is skipped, and the left one stands for the result already
    rw [if_pos hs]
    exact ⟨l, rfl, hle.settled hs h⟩
  · obtain ⟨r, hra, hrf⟩ := hr.resolve
    obtain ⟨k, hk, hkm⟩ := hle.combine hrf h
    rw [if_neg hs, (Asks.resolve p right).answer_bind fun r => .given _, hra]
    exact ⟨k, hk, hkm⟩

theorem performNow_atom_eq_ok {masks masks' : List Mask} {i : Nat} :
    p.performNow accessor masks (.atom i) = .ok masks' ↔
      ∃ m, p.conditionMask accessor i = .ok m ∧ m :: masks = masks' := by
  have h : p.performNow accessor masks (.atom i) = p.conditionMask accessor i >>= fun m => pure (m :: masks) := by
    cases masks <;> rfl
  rw [h, bind_eq_ok]
  simp only [pure_eq_ok, Except.ok.injEq]

theorem performNow_not_eq_ok {masks masks' : List Mask} :
    p.performNow accessor masks (.apply .not) = .ok masks' ↔
      ∃ m rest, masks = m :: rest ∧ m.not :: rest = masks' := by
  cases masks with
  | nil => simp [performNow]
  | cons m rest => simp [performNow]

theorem performNow_binary_eq_ok {op : Operator} (hop : op ≠ .not) {masks masks' : List Mask} :
    p.performNow accessor masks (.apply op) = .ok masks' ↔
      ∃ right left rest m, masks = right :: left :: rest ∧ Mask.combine op left right = .ok m ∧ m :: rest = masks' := by
  match masks with
  | [] => cases op <;> simp_all [performNow]
  | [r] => cases op <;> simp_all [performNow]
  | r :: l :: rest =>
    have h : p.performNow accessor (r :: l :: rest) (.apply op) =
        Mask.combine op l r >>= fun m => pure (m :: rest) := by
      cases op <;> first | rfl | exact absurd rfl hop
    rw [h, bind_eq_ok]
    simp

/-- A step keeps the two stacks side by side. -/
theorem perform_awaits {stack : List Slot} {masks masks' : List Mask} {s : Step}
    (h : List.Forall₂ (Awaits p accessor) stack masks) (he : p.performNow accessor masks s = .ok masks') :
    ∃ stack', answer (p.perform accessor stack s) = .ok stack' ∧ List.Forall₂ (Awaits p accessor) stack' masks' := by
  cases s with
  | atom i =>
    -- the condition is looked up on one side only; that it can be is kept with the operand
    obtain ⟨m, hm, rfl⟩ := performNow_atom_eq_ok.1 he
    exact ⟨.pending i :: stack, rfl, .cons (.pending hm) h⟩
  | apply op =>
    by_cases hop : op = .not
    · subst hop
      obtain ⟨m, rest, rfl, rfl⟩ := performNow_not_eq_ok.1 he
      obtain _ | ⟨hs, hrest⟩ := h
      obtain ⟨l, hl, hlm⟩ := hs.resolve
      refine ⟨_, ?_, .cons (.ready hlm.not) hrest⟩
      rw [perform_not, (Asks.resolve p _).answer_bind fun m => .pure _, hl]
      rfl
    · obtain ⟨right, left, rest, m, rfl, hm, rfl⟩ := (performNow_binary_eq_ok hop).1 he
      obtain _ | ⟨hr, _ | ⟨hl, hrest⟩⟩ := h
      obtain ⟨k, hk, hkm⟩ := hl.join hr hm
      refine ⟨_, ?_, .cons (.ready hkm) hrest⟩
      rw [perform_binary p hop, (Asks.join p op _ _).answer_bind fun m => .pure _, hk]
      rfl

/-- A program keeps the two stacks side by side. -/
theorem performAll_awaits : ∀ {steps : List Step} {stack : List Slot} {masks masks' : List Mask},
    List.Forall₂ (Awaits p accessor) stack masks → steps.foldlM (p.performNow accessor) masks = .ok masks' →
    ∃ stack', answer (steps.foldlM (p.perform accessor) stack) = .ok stack' ∧
      List.Forall₂ (Awaits p accessor) stack' masks'
  | [], stack, masks, masks', h, he => by
    cases he
    exact ⟨stack, rfl, h⟩
  | s :: steps, stack, masks, masks', h, he => by
    rw [List.foldlM_cons, bind_eq_ok] at he
    obtain ⟨masks₁, hs, he⟩ := he
    obtain ⟨stack₁, hs', h₁⟩ := perform_awaits h hs
    obtain ⟨stack', ha, h'⟩ := performAll_awaits h₁ he
    refine ⟨stack', ?_, h'⟩
    rw [List.foldlM_cons, (Asks.perform p stack s).answer_bind fun stack => .performAll p steps stack, hs']
    exact ha

/-- Where the machine that leaves nothing for later gives a value, evaluating gives one that stands
for it. -/
theorem evaluate_standsFor {m : Mask} (h : p.evaluateNow accessor = .ok m) :
    ∃ l, p.evaluate accessor = .ok l ∧ l.StandsFor m := by
  rw [evaluate_eq]
  unfold evaluateNow at h
  cases ht : p.isTrivial with
  | true =>
    rw [ht] at h
    cases h
    refine ⟨.constant true, ?_, .same _⟩
    unfold inquire
    rw [ht]
    rfl
  | false =>
    rw [ht] at h
    obtain ⟨masks, hmasks, h⟩ := bind_eq_ok.1 h
    obtain ⟨stack, hstack, hall⟩ := performAll_awaits .nil hmasks
    rw [inquire_of_steps ht, (Asks.performAll p p.steps []).answer_bind fun stack => .conclude p stack, hstack, ok_bind]
    -- a single mask is left, and a single operand in its place
    split at h
    · cases h
      obtain _ | ⟨htop, _ | _⟩ := hall
      exact htop.resolve
    · cases h

/-- Flags found by looking up every condition and applying every operator to both its operands are the
flags of the rule. -/
theorem mask_of_maskNow {shots : Nat} {flags : List Bool} (h : p.maskNow accessor shots = .ok flags) :
    p.mask accessor shots = .ok flags := by
  unfold maskNow at h
  obtain ⟨m, hm, hflags⟩ := bind_eq_ok.1 h
  obtain ⟨l, hl, hlm⟩ := evaluate_standsFor hm
  unfold mask
  rw [hl]
  exact hlm.toFlags hflags

/-- The program of `~g:a ^ (g:a s:1)`. -/
def unlike : Predicate :=
  ⟨"~g:a ^ (g:a s:1)", [⟨"g", .textEqual, "a", none⟩, ⟨"g", .textEqual, "a", none⟩, ⟨"s", .textEqual, "1", some .one⟩],
    [.atom 0, .apply .not, .atom 1, .atom 2, .apply .implicitAnd, .apply .xor]⟩

/-- One label for all shots, and one for each of three shots. -/
def labelled : Accessor := fun keyword => .ok (if keyword = "g" then .label "b" else .labels ["1", "0", "1"])

/-- The labels of the shots are skipped here, so the value is a single flag until it is spread. -/
theorem mask_unlike : unlike.maskNow labelled 3 = .ok [true, true, true] ∧
    unlike.mask labelled 3 = .ok [true, true, true] ∧ unlike.evaluate labelled = .ok (.constant true) := by
  have h : unlike.maskNow labelled 3 = .ok [true, true, true] := by decide +kernel
  exact ⟨h, mask_of_maskNow h, by decide +kernel⟩

end Predicate
end ShotTally.Rule
