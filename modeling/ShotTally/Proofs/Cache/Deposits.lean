/-
Values that are saved one after the other: no file comes or goes but theirs, and under the key of each of them
the last one that was saved there is found.
-/
import ShotTally.Proofs.Cache.Stock

namespace ShotTally

open Binary (Fits)

/-- A value to be saved, with its key and the files that it covers. -/
@[ext]
structure Deposit (β : Type) where
  key : String
  files : List String
  value : β

namespace Deposit

variable {β : Type}

/-- The artifact that is written for it. -/
def artifact (x : Deposit β) (now : String) : Artifact β := .make x.key x.files now x.value

/-- The record that is made of it. -/
def record (s : Shelf) (operation : Cache.Operation) (x : Deposit β) : CacheRecord :=
  ⟨s.path operation.name x.key, x.files⟩

/-- Its key is a digest. -/
def Keyed (x : Deposit β) : Prop := ∃ text, x.key = Sha256.hexOf text

end Deposit

namespace Shelf

variable {β : Type} [Binary β]

/-- Saving the values in order leads from one disk to another. -/
inductive Saves (s : Shelf) (operation : Cache.Operation) (now : String) : Disk → List (Deposit β) → Disk → Prop
  | nil (d : Disk) : Saves s operation now d [] d
  | cons {d d₁ d₂ : Disk} {x : Deposit β} {xs : List (Deposit β)}
      (first : (s.save operation.name x.key x.files now x.value).run d = (.ok (), d₁))
      (rest : Saves s operation now d₁ xs d₂) : Saves s operation now d (x :: xs) d₂

namespace Saves

variable {s : Shelf} {operation : Cache.Operation} {now : String} {d d₁ d₂ : Disk} {xs ys : List (Deposit β)}

theorem append (h : s.Saves operation now d xs d₁) (h' : s.Saves operation now d₁ ys d₂) :
    s.Saves operation now d (xs ++ ys) d₂ := by
  induction h with
  | nil => exact h'
  | cons first _ ih => exact .cons first (ih h')

/-- Saving goes through every part of the values. -/
theorem split (h : s.Saves operation now d (xs ++ ys) d₂) :
    ∃ d₁, s.Saves operation now d xs d₁ ∧ s.Saves operation now d₁ ys d₂ := by
  induction xs generalizing d with
  | nil => exact ⟨d, .nil d, h⟩
  | cons x xs ih =>
    cases h with
    | cons first rest =>
      obtain ⟨d₁, hxs, hys⟩ := ih rest
      exact ⟨d₁, .cons first hxs, hys⟩

/-- Files at other places are as before. -/
theorem elsewhere (h : s.Saves operation now d xs d₁) {l : List String}
    (hl : ∀ x ∈ xs, Disk.key l ≠ Disk.key (d.spell (s.path operation.name x.key))) (bytes : List UInt8) :
    d₁.at? l = some (.file bytes) ↔ d.at? l = some (.file bytes) := by
  induction h with
  | nil => exact .rfl
  | cons first _ ih =>
    have hreceives := (receives_of_save first).1
    refine (ih fun x hx => ?_).trans (hreceives.elsewhere l (hl _ List.mem_cons_self) bytes)
    rw [Disk.spell_congr hreceives.working]
    exact hl x (List.mem_cons_of_mem _ hx)

/-- What is read under another key is read as before. -/
theorem read?_of_ne (h : s.Saves operation now d xs d₁) (hk : ∀ x ∈ xs, x.Keyed) {text : String}
    (hne : ∀ x ∈ xs, x.key ≠ Sha256.hexOf text) {bytes : List UInt8}
    (hr : d.read? (s.path operation.name (Sha256.hexOf text)) = some bytes) :
    d₁.read? (s.path operation.name (Sha256.hexOf text)) = some bytes := by
  induction h with
  | nil => exact hr
  | @cons _ _ _ x _ first _ ih =>
    obtain ⟨text', hkey⟩ := hk x List.mem_cons_self
    have hother : Sha256.hexOf text ≠ Sha256.hexOf text' := fun he => hne x List.mem_cons_self (by rw [hkey, he])
    rw [hkey] at first
    exact ih (fun y hy => hk y (List.mem_cons_of_mem _ hy)) (fun y hy => hne y (List.mem_cons_of_mem _ hy))
      ((receives_of_save first).1.read?_of_ne hr (key_spell_path_ne hother))

/-- Under the key of a value that was saved the artifact of the last such value is found. -/
theorem exists_load [Binary.Lawful β] (h : s.Saves operation now d xs d₁) (hk : ∀ x ∈ xs, x.Keyed)
    (hf : ∀ x ∈ xs, Fits (x.artifact now)) : ∀ x ∈ xs,
      ∃ y ∈ xs, y.key = x.key ∧ s.load d₁ operation.name x.key = (some (y.artifact now), []) := by
  induction h with
  | nil =>
    intro x hx
    cases hx
  | @cons _ _ _ x xs first rest ih =>
    have hk' : ∀ y ∈ xs, y.Keyed := fun y hy => hk y (List.mem_cons_of_mem _ hy)
    have hrest := ih hk' fun y hy => hf y (List.mem_cons_of_mem _ hy)
    by_cases hlater : ∃ y ∈ xs, y.key = x.key
    · -- the first value is saved over
      obtain ⟨y, hy, hkey⟩ := hlater
      rintro w (_ | ⟨_, hw⟩)
      · obtain ⟨z, hz, hzy, hload⟩ := hrest y hy
        exact ⟨z, List.mem_cons_of_mem _ hz, hzy.trans hkey, by rw [← hkey, hload]⟩
      · obtain ⟨z, hz, hload⟩ := hrest w hw
        exact ⟨z, List.mem_cons_of_mem _ hz, hload⟩
    · rintro w (_ | ⟨_, hw⟩)
      · obtain ⟨text, hkey⟩ := hk x List.mem_cons_self
        have hread := (receives_of_save first).2
        rw [hkey] at hread
        have hlast := rest.read?_of_ne hk' (fun y hy he => hlater ⟨y, hy, he.trans hkey.symm⟩) hread
        rw [← hkey] at hlast
        exact ⟨x, List.mem_cons_self, rfl, load_of_read (hf x List.mem_cons_self) hlast⟩
      · obtain ⟨z, hz, hload⟩ := hrest w hw
        exact ⟨z, List.mem_cons_of_mem _ hz, hload⟩

end Saves

/-- Saving adds the keys. -/
theorem Stocked.saves [Binary.Lawful β] {s : Shelf} {operation : Cache.Operation} {now : String} {d d' : Disk}
    {xs : List (Deposit β)} (h : s.Saves operation now d xs d') (hk : ∀ x ∈ xs, x.Keyed)
    (hf : ∀ x ∈ xs, Fits (x.artifact now)) {keys : List String} (hs : s.Stocked β operation keys d) :
    s.Stocked β operation (keys ++ xs.map (·.key)) d' := by
  induction h generalizing keys with
  | nil => simpa using hs
  | @cons _ _ _ x _ first _ ih =>
    obtain ⟨text, hkey⟩ := hk x List.mem_cons_self
    have hfits := hf x List.mem_cons_self
    unfold Deposit.artifact at hfits
    rw [hkey] at first hfits
    have hrest := ih (fun y hy => hk y (List.mem_cons_of_mem _ hy)) (fun y hy => hf y (List.mem_cons_of_mem _ hy))
      (hs.save hfits first)
    rwa [← hkey, List.append_assoc] at hrest

end Shelf
end ShotTally
