/-
What lies on a shelf, whatever folder it is in: the keys that have an artifact, and nothing under any
other key. Saving that succeeds adds one key.
-/
import ShotTally.Proofs.Cache.PlainFolder
import ShotTally.Proofs.Disk.Writing

namespace ShotTally

open Binary (Fits)

namespace Shelf

variable {β : Type} [Binary β] {s : Shelf} {operation : Cache.Operation} {text text' now : String} {files : List String}
  {value : β} {d d' : Disk}

/-! ## Places -/

theorem spell_path (s : Shelf) (operation : Cache.Operation) (text : String) (d : Disk) :
    d.spell (s.path operation.name (Sha256.hexOf text)) =
      d.spell (s.operationFolder operation.name) ++ [Sha256.hexOf text ++ ".bin"] :=
  Disk.spell_join (plain_fileName text) _

/-- Artifacts of different keys lie at different places. -/
theorem key_spell_path_ne (h : Sha256.hexOf text ≠ Sha256.hexOf text') :
    Disk.key (d.spell (s.path operation.name (Sha256.hexOf text))) ≠
      Disk.key (d.spell (s.path operation.name (Sha256.hexOf text'))) := by
  rw [spell_path, spell_path]
  intro he
  have hname := Disk.key_concat_inj he
  exact h ((String.append_left_inj _).1 hname)

/-- A path belongs to one operation and one key. -/
theorem path_inj {operation' : Cache.Operation}
    (h : s.path operation.name (Sha256.hexOf text) = s.path operation'.name (Sha256.hexOf text')) :
    operation = operation' ∧ Sha256.hexOf text = Sha256.hexOf text' := by
  -- where the path leads does not matter, so any disk will do
  have hspell := congrArg (Disk.empty []).spell h
  rw [spell_path, spell_path, List.append_singleton_inj, operationFolder, operationFolder,
    Disk.spell_join (plain_folderName _), Disk.spell_join (plain_folderName _), List.append_singleton_inj] at hspell
  obtain ⟨⟨-, hname⟩, hfile⟩ := hspell
  refine ⟨?_, (String.append_left_inj _).1 hfile⟩
  have hname := (String.append_left_inj _).1 hname
  revert hname
  cases operation <;> cases operation' <;> decide

/-- What is found was read. -/
theorem exists_read_of_load {a : Artifact β} {key : String} (h : (s.load d operation.name key).1 = some a) :
    ∃ bytes, d.read? (s.path operation.name key) = some bytes := by
  rcases hr : d.read? (s.path operation.name key) with _ | bytes
  · unfold load at h
    dsimp only at h
    rw [hr] at h
    cases h
  · exact ⟨bytes, rfl⟩

/-! ## Saving -/

/-- Saving puts the artifact at its place, where it is read. -/
theorem receives_of_save {place key : String} (h : (s.save place key files now value).run d = (.ok (), d')) :
    d.Receives (d.spell (s.path place key)) (Binary.encode (Artifact.make key files now value)) d' ∧
      d'.read? (s.path place key) = some (Binary.encode (Artifact.make key files now value)) := by
  obtain ⟨_, d₁, hmake, hwrite⟩ := exists_of_run_bind h
  have hfurnished := Disk.furnished_of_makeFolders (Disk.Writing.makeFolders_of_run hmake)
  have hwritten := Disk.Writing.write_of_run hwrite
  have hreceives := Disk.receives_of_write hwritten
  refine ⟨?_, Disk.read?_of_write hwritten⟩
  rw [← Disk.spell_congr hfurnished.working]
  exact hfurnished.receives hreceives

/-- No file lies where the shelf keeps its artifacts of the operation. -/
def Vacant (s : Shelf) (operation : Cache.Operation) (d : Disk) : Prop :=
  ∀ text bytes, d.at? (d.spell (s.path operation.name (Sha256.hexOf text))) ≠ some (.file bytes)

/-- Under these keys an artifact is found, and under no other key lies a file. -/
structure Stocked (β : Type) [Binary β] (s : Shelf) (operation : Cache.Operation) (keys : List String) (d : Disk) :
    Prop where
  found : ∀ text, Sha256.hexOf text ∈ keys → ∃ a : Artifact β, (s.load d operation.name (Sha256.hexOf text)).1 = some a
  free : ∀ text, Sha256.hexOf text ∉ keys →
    ∀ bytes, d.at? (d.spell (s.path operation.name (Sha256.hexOf text))) ≠ some (.file bytes)

theorem Vacant.stocked (h : s.Vacant operation d) : s.Stocked β operation [] d :=
  ⟨fun _ hk => (by cases hk), fun text _ => h text⟩

namespace Stocked

variable {keys : List String}

theorem load_free (h : s.Stocked β operation keys d) (hk : Sha256.hexOf text ∉ keys) :
    s.load d operation.name (Sha256.hexOf text) = ((none, []) : Option (Artifact β) × List Notice) := by
  refine load_of_none ?_
  rcases hr : d.read? (s.path operation.name (Sha256.hexOf text)) with _ | bytes
  · rfl
  · exact absurd (Disk.read?_eq_some.1 hr).2 (h.free text hk bytes)

/-- An artifact is found under the keys that are there. -/
theorem isSome_load (h : s.Stocked β operation keys d) (text : String) :
    (s.load d operation.name (Sha256.hexOf text) : Option (Artifact β) × List Notice).1.isSome =
      decide (Sha256.hexOf text ∈ keys) := by
  by_cases hk : Sha256.hexOf text ∈ keys
  · obtain ⟨a, ha⟩ := h.found text hk
    simp [ha, hk]
  · simp [h.load_free hk, hk]

/-- Saving adds a key. -/
theorem save [Binary.Lawful β] (h : s.Stocked β operation keys d)
    (hf : Fits (Artifact.make (Sha256.hexOf text) files now value))
    (hsave : (s.save operation.name (Sha256.hexOf text) files now value).run d = (.ok (), d')) :
    s.Stocked β operation (keys ++ [Sha256.hexOf text]) d' := by
  obtain ⟨hreceives, hread⟩ := receives_of_save hsave
  constructor
  · intro text' hk
    -- the new artifact is read back; each old one has another path
    by_cases he : Sha256.hexOf text' = Sha256.hexOf text
    · rw [he, load_of_read hf hread]
      exact ⟨_, rfl⟩
    · have hold : Sha256.hexOf text' ∈ keys := by simpa [he] using hk
      obtain ⟨a, ha⟩ := h.found text' hold
      obtain ⟨bytes, hbytes⟩ := exists_read_of_load ha
      refine ⟨a, ?_⟩
      rw [load_congr ((hreceives.read?_of_ne hbytes (key_spell_path_ne he)).trans hbytes.symm)]
      exact ha
  · intro text' hk bytes hat
    obtain ⟨hold, he⟩ : Sha256.hexOf text' ∉ keys ∧ Sha256.hexOf text' ≠ Sha256.hexOf text := by simpa using hk
    rw [Disk.spell_congr hreceives.working, hreceives.elsewhere _ (key_spell_path_ne he)] at hat
    exact h.free text' hold bytes hat

end Stocked

/-- A shelf without a folder is vacant. -/
theorem vacant_of_unmade (hs : Path.Plain s.root) (h : s.Kept d) (hroot : d.at? [s.root] = none)
    (operation : Cache.Operation) : s.Vacant operation d := by
  intro text bytes
  rw [path_eq hs, Disk.spell_plain h.top (by simp [artifactAt]) (plain_artifactAt hs operation text), h.unmade hroot]
  exact Option.some_ne_none _ ∘ Eq.symm

end Shelf
end ShotTally
