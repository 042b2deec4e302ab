/-
Computations that may fail: when a sequence of steps succeeds, and with what.
-/
import Mathlib.Data.List.Forall2

namespace ShotTally

variable {ε α β γ : Type}

@[simp] theorem pure_eq_ok (a : α) : (pure a : Except ε α) = .ok a := rfl

@[simp] theorem ok_bind (a : α) (f : α → Except ε β) : (Except.ok a >>= f) = f a := rfl

@[simp] theorem error_bind (e : ε) (f : α → Except ε β) : (Except.error e >>= f) = .error e := rfl

@[simp] theorem map_ok (f : α → β) (a : α) : (Except.ok a : Except ε α).map f = .ok (f a) := rfl

@[simp] theorem map_error (f : α → β) (e : ε) : (Except.error e : Except ε α).map f = .error e := rfl

@[simp] theorem functor_map_eq (f : α → β) (x : Except ε α) : f <$> x = x.map f := by
  cases x <;> rfl

@[simp] theorem mapM_some (f : α → Except ε β) (a : α) : (some a).mapM f = (f a).map some := functor_map_eq some (f a)

theorem bind_eq_ok {x : Except ε α} {f : α → Except ε β} {b : β} :
    x >>= f = .ok b ↔ ∃ a, x = .ok a ∧ f a = .ok b := by
  cases x <;> simp

/-- Steps on a state that succeed one after the other. -/
theorem exists_of_run_bind {σ : Type} {x : ExceptT ε (StateM σ) α} {f : α → ExceptT ε (StateM σ) β} {s s' : σ} {b : β}
    (h : (x >>= f).run s = (.ok b, s')) : ∃ a s₁, x.run s = (.ok a, s₁) ∧ (f a).run s₁ = (.ok b, s') := by
  change (match x.run s with | (r, s₁) => ExceptT.bindCont f r s₁) = _ at h
  rcases hx : x.run s with ⟨e | a, s₁⟩
  · rw [hx] at h
    cases h
  · rw [hx] at h
    exact ⟨a, s₁, rfl, h⟩

theorem map_eq_ok {x : Except ε α} {f : α → β} {b : β} :
    x.map f = .ok b ↔ ∃ a, x = .ok a ∧ f a = b := by
  cases x <;> simp

/-- A list of steps succeeds when each of them does. -/
theorem mapM_eq_ok {f : α → Except ε β} : ∀ {l : List α} {r : List β},
    l.mapM f = .ok r ↔ List.Forall₂ (fun a b => f a = .ok b) l r
  | [], r => by simp [eq_comm]
  | a :: l, r => by
    rw [List.mapM_cons, bind_eq_ok]
    constructor
    · rintro ⟨b, hb, h⟩
      obtain ⟨bs, hbs, h⟩ := bind_eq_ok.1 h
      cases h
      exact .cons hb (mapM_eq_ok.1 hbs)
    · rintro (_ | ⟨hb, h⟩)
      exact ⟨_, hb, bind_eq_ok.2 ⟨_, mapM_eq_ok.2 h, rfl⟩⟩

theorem exists_mapM {f : α → Except ε β} : ∀ {l : List α}, (∀ a ∈ l, ∃ b, f a = .ok b) → ∃ r, l.mapM f = .ok r
  | [], _ => ⟨[], rfl⟩
  | a :: l, h => by
    obtain ⟨b, hb⟩ := h a List.mem_cons_self
    obtain ⟨bs, hbs⟩ := exists_mapM fun a ha => h a (List.mem_cons_of_mem _ ha)
    exact ⟨b :: bs, mapM_eq_ok.2 (.cons hb (mapM_eq_ok.1 hbs))⟩

theorem mapM_ok_of_mem {f : α → Except ε β} {g : α → β} : ∀ {l : List α}, (∀ a ∈ l, f a = .ok (g a)) →
    l.mapM f = .ok (l.map g)
  | [], _ => rfl
  | a :: l, h => by
    rw [List.mapM_cons, h a (by simp), ok_bind, mapM_ok_of_mem fun b hb => h b (by simp [hb])]
    rfl

/-- What the steps give comes from one of them each. -/
theorem exists_of_mem_mapM {f : α → Except ε β} {l : List α} {r : List β} (h : l.mapM f = .ok r) {b : β} (hb : b ∈ r) :
    ∃ a ∈ l, f a = .ok b := by
  obtain ⟨i, hi, rfl⟩ := List.getElem_of_mem hb
  have hall := List.forall₂_iff_get.1 (mapM_eq_ok.1 h)
  have hl : i < l.length := by
    rw [hall.1]
    exact hi
  exact ⟨l[i], List.getElem_mem hl, hall.2 i hl hi⟩

/-- Each step gives one of the values. -/
theorem exists_mem_of_mapM {f : α → Except ε β} {l : List α} {r : List β} (h : l.mapM f = .ok r) {a : α} (ha : a ∈ l) :
    ∃ b ∈ r, f a = .ok b := by
  obtain ⟨i, hi, rfl⟩ := List.getElem_of_mem ha
  obtain ⟨hlen, hget⟩ := List.forall₂_iff_get.1 (mapM_eq_ok.1 h)
  exact ⟨r[i], List.getElem_mem (hlen ▸ hi), hget i hi (hlen ▸ hi)⟩

/-- The values of steps that succeed are a function of the items, and fewer or other lists of the same items
have these values too. -/
theorem exists_mapM_values [Nonempty β] {f : α → Except ε β} {l : List α} {r : List β} (h : l.mapM f = .ok r) :
    ∃ g : α → β, r = l.map g ∧ (∀ a ∈ l, f a = .ok (g a)) ∧ ∀ l' ⊆ l, l'.mapM f = .ok (l'.map g) := by
  have hsome : ∀ a ∈ l, ∃ b, f a = .ok b := fun a ha => (exists_mem_of_mapM h ha).imp fun _ hb => hb.2
  choose! g hg using hsome
  refine ⟨g, ?_, hg, fun l' hsub => mapM_ok_of_mem fun a ha => hg a (hsub ha)⟩
  exact Except.ok.inj (h.symm.trans (mapM_ok_of_mem hg))

/-- When every value has a description, the values are what their descriptions come to. -/
theorem exists_mapM_described {f : α → Except ε β} {g : γ → β} {R : α → γ → Prop} : ∀ {l : List α} {r : List β},
    l.mapM f = .ok r → (∀ a ∈ l, ∀ b, f a = .ok b → ∃ c, R a c ∧ b = g c) → ∃ cs, List.Forall₂ R l cs ∧ r = cs.map g
  | [], _, h, _ => ⟨[], .nil, (Except.ok.inj h).symm⟩
  | a :: l, _, h, hf => by
    rw [List.mapM_cons] at h
    obtain ⟨b, hb, h⟩ := bind_eq_ok.1 h
    obtain ⟨r, hr, h⟩ := bind_eq_ok.1 h
    cases h
    obtain ⟨c, hc, rfl⟩ := hf a List.mem_cons_self b hb
    obtain ⟨cs, hcs, rfl⟩ := exists_mapM_described hr fun a ha => hf a (List.mem_cons_of_mem _ ha)
    exact ⟨c :: cs, .cons hc hcs, rfl⟩

/-- What each step keeps of the items before it, the steps together keep of all items. -/
theorem foldlM_prefix {P : List α → β → Prop} {f : β → α → Except ε β}
    (step : ∀ done a b b', P done b → f b a = .ok b' → P (done ++ [a]) b') :
    ∀ {l done : List α} {b b' : β}, P done b → l.foldlM f b = .ok b' → P (done ++ l) b'
  | [], done, b, b', hb, h => by
    cases h
    rwa [List.append_nil]
  | a :: l, done, b, b', hb, h => by
    rw [List.foldlM_cons] at h
    obtain ⟨m, hm, h⟩ := bind_eq_ok.1 h
    have := foldlM_prefix step (step done a b m hb hm) h
    rwa [List.append_assoc] at this

/-- Items that correspond where they are there do so when the others are left out. -/
theorem forall₂_present {R : α → β → Prop} {l : List (Option α)} {r : List (Option β)}
    (h : List.Forall₂ (Option.Rel R) l r) : List.Forall₂ R (l.filterMap id) (r.filterMap id) := by
  induction h with
  | nil => exact .nil
  | cons ho _ ih =>
    cases ho with
    | none => exact ih
    | some hr => exact .cons hr ih

/-- Steps for the items that are there. -/
theorem mapM_present {f : α → Except ε β} {l : List (Option α)} {r : List (Option β)}
    (h : l.mapM (fun a => a.mapM f) = .ok r) : (l.filterMap id).mapM f = .ok (r.filterMap id) := by
  refine mapM_eq_ok.2 (forall₂_present ((mapM_eq_ok.1 h).imp fun a b hb => ?_))
  cases a with
  | none =>
    cases hb
    exact .none
  | some a =>
    obtain ⟨b, ha, rfl⟩ := map_eq_ok.1 ((mapM_some f a).symm.trans hb)
    exact .some ha

/-- Steps that agree on the items. -/
theorem mapM_congr_left {f g : α → Except ε β} : ∀ {l : List α}, (∀ a ∈ l, f a = g a) → l.mapM f = l.mapM g
  | [], _ => rfl
  | a :: l, h => by
    rw [List.mapM_cons, List.mapM_cons, h a List.mem_cons_self,
      mapM_congr_left fun b hb => h b (List.mem_cons_of_mem a hb)]

/-- Steps by number are steps by item. -/
theorem mapM_range {f : Nat → Except ε β} {g : α → Except ε β} : ∀ {l : List α}, (∀ i a, l[i]? = some a → f i = g a) →
    (List.range l.length).mapM f = l.mapM g
  | [], _ => rfl
  | a :: l, h => by
    have hrest : ∀ i b, l[i]? = some b → f (i + 1) = g b := fun i b hb => h (i + 1) b hb
    rw [List.length_cons, List.range_succ_eq_map, List.mapM_cons, List.mapM_cons, h 0 a rfl, List.mapM_map,
      ← mapM_range hrest]
    rfl

/-! ## Lists of lists -/

/-- A step for each item of some lists, list by list or all at once. -/
theorem mapM_flatten_eq_ok {f : α → Except ε β} : ∀ {ls : List (List α)} {r : List β},
    ls.flatten.mapM f = .ok r ↔ ∃ rs, ls.mapM (fun l => l.mapM f) = .ok rs ∧ r = rs.flatten
  | [], r => by
    simp [eq_comm]
  | l :: ls, r => by
    rw [List.flatten_cons, List.mapM_append, List.mapM_cons, bind_eq_ok]
    constructor
    · rintro ⟨u, hu, h⟩
      obtain ⟨v, hv, h⟩ := bind_eq_ok.1 h
      cases h
      obtain ⟨rs, hrs, rfl⟩ := mapM_flatten_eq_ok.1 hv
      exact ⟨u :: rs, bind_eq_ok.2 ⟨u, hu, bind_eq_ok.2 ⟨rs, hrs, rfl⟩⟩, rfl⟩
    · rintro ⟨rs, h, rfl⟩
      obtain ⟨u, hu, h⟩ := bind_eq_ok.1 h
      obtain ⟨rest, hrest, h⟩ := bind_eq_ok.1 h
      cases h
      exact ⟨u, hu, bind_eq_ok.2 ⟨rest.flatten, mapM_flatten_eq_ok.2 ⟨rest, hrest, rfl⟩, rfl⟩⟩

/-- A step for each item of the lists that items stand for. -/
theorem mapM_flatMap (f : α → List β) (g : β → Except ε γ) :
    ∀ l : List α, (l.flatMap f).mapM g = (l.mapM fun a => (f a).mapM g).map List.flatten
  | [] => rfl
  | a :: l => by
    rw [List.flatMap_cons, List.mapM_append, List.mapM_cons, mapM_flatMap f g l]
    cases (f a).mapM g with
    | error e => rfl
    | ok r => cases l.mapM fun a => (f a).mapM g <;> rfl

/-- Two steps for each item, one after the other or all first steps before the second ones. -/
theorem mapM_mapM_eq_ok {f : α → Except ε β} {g : β → Except ε γ} : ∀ {l : List α} {r : List γ},
    (∃ m, l.mapM f = .ok m ∧ m.mapM g = .ok r) ↔ l.mapM (fun a => f a >>= g) = .ok r
  | [], r => by
    simp
  | a :: l, r => by
    rw [List.mapM_cons, List.mapM_cons, bind_eq_ok]
    constructor
    · rintro ⟨m, h, hr⟩
      obtain ⟨b, hb, h⟩ := bind_eq_ok.1 h
      obtain ⟨bs, hbs, h⟩ := bind_eq_ok.1 h
      cases h
      rw [List.mapM_cons] at hr
      obtain ⟨c, hc, hr⟩ := bind_eq_ok.1 hr
      obtain ⟨cs, hcs, hr⟩ := bind_eq_ok.1 hr
      cases hr
      exact ⟨c, bind_eq_ok.2 ⟨b, hb, hc⟩, bind_eq_ok.2 ⟨cs, mapM_mapM_eq_ok.1 ⟨bs, hbs, hcs⟩, rfl⟩⟩
    · rintro ⟨c, h, hr⟩
      obtain ⟨b, hb, hc⟩ := bind_eq_ok.1 h
      obtain ⟨cs, hrest, hr⟩ := bind_eq_ok.1 hr
      cases hr
      obtain ⟨bs, hbs, hcs⟩ := mapM_mapM_eq_ok.2 hrest
      refine ⟨b :: bs, bind_eq_ok.2 ⟨b, hb, bind_eq_ok.2 ⟨bs, hbs, rfl⟩⟩, ?_⟩
      rw [List.mapM_cons]
      exact bind_eq_ok.2 ⟨c, hc, bind_eq_ok.2 ⟨cs, hcs, rfl⟩⟩

/-! ## How an outcome ends -/

/-- The value of an outcome satisfies the one property, or its failure the other. -/
structure Ends (x : Except ε α) (P : α → Prop) (Q : ε → Prop) : Prop where
  ok : ∀ a, x = .ok a → P a
  error : ∀ e, x = .error e → Q e

section

variable {P : α → Prop} {Q : ε → Prop}

@[simp] theorem ends_ok {a : α} : Ends (.ok a) P Q ↔ P a :=
  ⟨fun h => h.ok a rfl, fun h => ⟨fun _ ha => Except.ok.inj ha ▸ h, fun _ he => by cases he⟩⟩

@[simp] theorem ends_error {e : ε} : Ends (.error e) P Q ↔ Q e :=
  ⟨fun h => h.error e rfl, fun h => ⟨fun _ ha => (by cases ha), fun _ he => Except.error.inj he ▸ h⟩⟩

end

namespace Ends

variable {x : Except ε α} {P : α → Prop} {P' : β → Prop} {Q : ε → Prop}

theorem imp {P' : α → Prop} {Q' : ε → Prop} (h : Ends x P Q) (hp : ∀ a, P a → P' a) (hq : ∀ e, Q e → Q' e) :
    Ends x P' Q' :=
  ⟨fun a ha => hp a (h.ok a ha), fun e he => hq e (h.error e he)⟩

theorem bind {f : α → Except ε β} (h : Ends x P Q) (hf : ∀ a, x = .ok a → P a → Ends (f a) P' Q) :
    Ends (x >>= f) P' Q := by
  cases x with
  | ok a => exact hf a rfl (ends_ok.1 h)
  | error e => exact ends_error.2 (ends_error.1 h)

/-- When every step ends so, the list of steps ends with a value for each of them, or as one of them. -/
theorem mapM {f : α → Except ε β} {l : List α} (h : ∀ a ∈ l, Ends (f a) P' Q) :
    Ends (l.mapM f) (fun r => r.length = l.length ∧ ∀ b ∈ r, P' b) Q := by
  induction l with
  | nil => simp
  | cons a l ih =>
    rw [List.mapM_cons]
    refine (h a List.mem_cons_self).bind fun b _ hb =>
      (ih fun a ha => h a (List.mem_cons_of_mem _ ha)).bind fun r _ hr => ?_
    simpa [hr.1] using ⟨hb, hr.2⟩

/-- When every step succeeds only on items with a property, all of them do so only if all items have it. -/
theorem forall_mapM {f : α → Except ε β} {l : List α} {R : α → Prop} (h : ∀ a ∈ l, Ends (f a) (fun _ => R a) Q) :
    Ends (l.mapM f) (fun _ => ∀ a ∈ l, R a) Q := by
  have hany : Ends (l.mapM f) (fun r => r.length = l.length ∧ ∀ b ∈ r, True) Q :=
    Ends.mapM fun a ha => (h a ha).imp (fun _ _ => trivial) fun _ => id
  refine ⟨fun r hr a ha => ?_, hany.error⟩
  obtain ⟨b, -, hb⟩ := exists_mem_of_mapM hr ha
  exact (h a ha).ok b hb

end Ends
end ShotTally
