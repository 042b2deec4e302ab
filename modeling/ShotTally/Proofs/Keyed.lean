/-
Collections by name: what is found under a name after another entry was put in, that a collection is
made of its entries in order, and which names it has.
-/
import Mathlib.Data.List.Basic
import ShotTally.Keyed

namespace ShotTally.Keyed

variable {α : Type}

/-! ## Looking up -/

theorem lookup_cons (k j : String) (w : α) (l : List (String × α)) :
    ((j, w) :: l).lookup k = if k = j then some w else l.lookup k := by
  rw [List.lookup_cons]
  by_cases h : k = j
  · rw [if_pos h, beq_iff_eq.2 h]
  · rw [if_neg h, beq_false_of_ne h]

theorem lookup_place (k k' : String) (v : α) (l : List (String × α)) :
    (place k v l).lookup k' = if k' = k then some v else l.lookup k' := by
  induction l with
  | nil => exact lookup_cons k' k v []
  | cons e rest ih =>
    obtain ⟨j, w⟩ := e
    unfold place
    split
    · exact lookup_cons k' k v _
    split
    · rename_i hlt
      rw [lookup_cons, lookup_cons, ih]
      by_cases h : k' = j
      · have hne : k' ≠ k := fun he => String.lt_irrefl k (by rw [← he, h] at hlt ⊢; exact hlt)
        rw [if_pos h, if_neg hne, if_pos h]
      · rw [if_neg h, if_neg h]
    · rename_i h₁ h₂
      obtain rfl : j = k := String.le_antisymm (String.not_lt.1 h₁) (String.not_lt.1 h₂)
      rw [lookup_cons, lookup_cons]
      split <;> rfl

theorem get?_insert (m : Keyed α) (k k' : String) (v : α) :
    (m.insert k v).get? k' = if k' = k then some v else m.get? k' := lookup_place k k' v m.entries

/-- Of entries with one name the last is found. -/
theorem get?_ofList (l : List (String × α)) (k : String) : (ofList l).get? k = l.reverse.lookup k := by
  have h : ∀ (l : List (String × α)) (m : Keyed α),
      (l.foldl (fun m e => m.insert e.1 e.2) m).get? k = (l.reverse.lookup k).or (m.get? k) := by
    intro l
    induction l with
    | nil => intro m; rfl
    | cons e l ih =>
      intro m
      rw [List.foldl_cons, ih, get?_insert, List.reverse_cons, List.lookup_append, lookup_cons]
      cases l.reverse.lookup k with
      | some v => rfl
      | none =>
        by_cases hk : k = e.1
        · rw [if_pos hk, if_pos hk]; rfl
        · rw [if_neg hk, if_neg hk]; rfl
  unfold ofList
  rw [h]
  exact Option.or_none

/-! ## Entries in order -/

/-- An entry whose name comes after all others is put at the end. -/
theorem place_last {k : String} {v : α} : ∀ {l : List (String × α)}, (∀ e ∈ l, e.1 < k) → place k v l = l ++ [(k, v)]
  | [], _ => rfl
  | (j, w) :: rest, h => by
    have hj : j < k := h (j, w) (by simp)
    rw [place, if_neg (fun hk => String.lt_irrefl j (String.lt_trans hj hk)), if_pos hj,
      place_last fun e he => h e (by simp [he])]
    rfl

theorem foldl_place : ∀ {l done : List (String × α)}, (done ++ l).Pairwise (fun a b => a.1 < b.1) →
    l.foldl (fun acc e => place e.1 e.2 acc) done = done ++ l
  | [], done, _ => by simp
  | e :: l, done, h => by
    have hlast : ∀ d ∈ done, d.1 < e.1 := fun d hd => (List.pairwise_append.1 h).2.2 d hd e (by simp)
    rw [List.foldl_cons, place_last hlast, foldl_place (by simpa using h), List.append_assoc]
    rfl

theorem entries_ofList (l : List (String × α)) :
    (ofList l).entries = l.foldl (fun acc e => place e.1 e.2 acc) [] := by
  have h : ∀ (l : List (String × α)) (m : Keyed α),
      (l.foldl (fun m e => m.insert e.1 e.2) m).entries = l.foldl (fun acc e => place e.1 e.2 acc) m.entries := by
    intro l
    induction l with
    | nil => intro m; rfl
    | cons e l ih => intro m; exact ih _
  exact h l empty

/-- A collection has no other entries than those it was made of. -/
theorem mem_of_mem_ofList {l : List (String × α)} {e : String × α} (h : e ∈ (ofList l).entries) : e ∈ l := by
  have hfold : ∀ l acc : List (String × α), e ∈ l.foldl (fun acc e => place e.1 e.2 acc) acc → e ∈ l ∨ e ∈ acc := by
    intro l
    induction l with
    | nil => exact fun _ => .inr
    | cons a l ih =>
      intro acc he
      rcases ih _ he with he | he
      · exact .inl (List.mem_cons_of_mem _ he)
      · rcases mem_place he with rfl | he
        · exact .inl List.mem_cons_self
        · exact .inr he
  rw [entries_ofList] at h
  exact (hfold l [] h).resolve_right List.not_mem_nil

/-- A collection is what its entries make in order. -/
theorem ofList_entries (m : Keyed α) : ofList m.entries = m := by
  have h := entries_ofList m.entries
  rw [foldl_place (by simpa using m.sorted), List.nil_append] at h
  cases hm : ofList m.entries
  rw [hm] at h
  cases h
  rfl

/-! ## Names -/

/-- What is found under a name is its entry. -/
theorem get?_eq_some {m : Keyed α} {k : String} {v : α} : m.get? k = some v ↔ (k, v) ∈ m.entries := by
  unfold get?
  rw [List.lookup_eq_some_iff]
  constructor
  · rintro ⟨before, after, hm, -⟩
    rw [hm]
    exact List.mem_append_right _ List.mem_cons_self
  · intro h
    obtain ⟨before, after, hm⟩ := List.append_of_mem h
    have hsorted := m.sorted
    rw [hm] at hsorted
    refine ⟨before, after, hm, fun e he => ?_⟩
    have hlt : e.1 < k := (List.pairwise_append.1 hsorted).2.2 e he _ List.mem_cons_self
    exact bne_iff_ne.2 fun hk => String.lt_irrefl k (hk ▸ hlt)

theorem sorted_keys (m : Keyed α) : m.keys.Pairwise (· < ·) := List.pairwise_map.2 m.sorted

/-- The names of a collection are those of the entries it was made of. -/
theorem mem_keys_ofList {l : List (String × α)} {k : String} : k ∈ (ofList l).keys ↔ k ∈ l.map (·.1) := by
  constructor
  · intro h
    obtain ⟨e, he, rfl⟩ := List.mem_map.1 h
    exact List.mem_map_of_mem (mem_of_mem_ofList he)
  · intro h
    obtain ⟨e, he, rfl⟩ := List.mem_map.1 h
    have hsome : ((ofList l).get? e.1).isSome = true := by
      rw [get?_ofList]
      exact List.lookup_isSome_iff.2 ⟨e, List.mem_reverse.2 he, beq_self_eq_true _⟩
    obtain ⟨v, hv⟩ := Option.isSome_iff_exists.1 hsome
    exact List.mem_map_of_mem (f := (·.1)) (get?_eq_some.1 hv)

end ShotTally.Keyed
