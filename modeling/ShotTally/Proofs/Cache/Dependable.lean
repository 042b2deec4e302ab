/-
A shelf that can be depended on: saving succeeds, what was saved last is read, and neither the other
artifacts nor the data in some files change. What the artifacts of a question are to hold then stays true when
further artifacts are saved, as long as different questions have different keys.
-/
import Mathlib.Data.List.Nodup
import ShotTally.Cache.Shelf
import ShotTally.Proofs.Cache.Key
import ShotTally.Shot.Store

namespace ShotTally

/-! ## Questions -/

/-- What an artifact answers. -/
structure Question where
  operation : Cache.Operation
  files : List String
  query : Query
  deriving DecidableEq

namespace Question

/-- The text the key is the digest of. -/
def text (location : Option String) (x : Question) : String :=
  (Cache.material x.operation.name location x.files x.query).canonicalText

def key (location : Option String) (x : Question) : String :=
  Cache.key x.operation.name location x.files x.query

/-- Questions with one text ask for the same of the same paths. -/
theorem text_inj {location : Option String} {x y : Question} (h : x.text location = y.text location) :
    x.operation = y.operation ∧ x.query = y.query ∧
      Cache.filePaths location x.files = Cache.filePaths location y.files := by
  obtain ⟨ho, hf, hq⟩ := Cache.material_text_inj h
  refine ⟨?_, hq, hf⟩
  revert ho
  cases x.operation <;> cases y.operation <;> decide

end Question

/-! ## Artifacts that fit -/

open Binary (Fits Small)

theorem Sha256.fits_hexOf (text : String) : Fits (hexOf text) := by
  have h := Text.utf8ByteSize_le (hexOf text)
  rw [length_hexOf] at h
  show _ < 2 ^ 64
  omega

theorem Version.fits_current : Fits current := by
  show 1 < 2 ^ 32 ∧ 0 < 2 ^ 32 ∧ 0 < 2 ^ 32
  decide

theorem Provenance.fits_makers : Fits makers := by
  show Small 1 ∧ ∀ e ∈ [("shot-run", "0.1.0")], Small e.1.utf8ByteSize ∧ Small e.2.utf8ByteSize
  decide

/-- An artifact fits when its files, its time and its value do. -/
theorem Artifact.fits_make {β : Type} [Binary β] [Binary.Lawful β] {text now : String} {files : List String} {value : β}
    (hf : Fits files) (hn : Fits now) (hv : Fits value) : Fits (Artifact.make (Sha256.hexOf text) files now value) :=
  ⟨Version.fits_current, ⟨Sha256.fits_hexOf text, hf, hn, Provenance.fits_makers⟩, hv⟩

/-! ## Shelves -/

/-- As long as the disk is good, saving succeeds and leaves it good; then the artifact is there, and
neither other artifacts nor the data in these files have changed. Of other names nothing is said: in a folder a name may
lead to the artifacts themselves. -/
structure Shelf.Dependable (shelf : Shelf) (store : Store) (files : List String) (good : Disk → Prop) : Prop where
  save : ∀ {β : Type} [Binary β] {d : Disk}, good d →
    ∀ (operation : Cache.Operation) (text : String) (inputs : List String) (now : String) (value : β), ∃ d',
      (shelf.save operation.name (Sha256.hexOf text) inputs now value).run d = (.ok (), d') ∧ good d' ∧
      d'.read? (shelf.path operation.name (Sha256.hexOf text)) =
        some (Binary.encode (Artifact.make (Sha256.hexOf text) inputs now value)) ∧
      (∀ (operation' : Cache.Operation) (text' : String),
        ¬ (operation' = operation ∧ Sha256.hexOf text' = Sha256.hexOf text) →
          d'.read? (shelf.path operation'.name (Sha256.hexOf text')) =
            d.read? (shelf.path operation'.name (Sha256.hexOf text'))) ∧
      ∀ file ∈ files, store.load d' file = store.load d file

namespace Shelf

variable {β γ : Type} [Binary β] [Binary γ]

/-- Different questions among these have different keys. -/
def Separate (location : Option String) (involved : Question → Prop) : Prop :=
  ∀ x y, involved x → involved y → x.key location = y.key location → x.text location = y.text location

/-- Questions with keys that are all different. -/
theorem separate_of_nodup {location : Option String} {involved : Question → Prop} (questions : List Question)
    (hi : ∀ x, involved x → x ∈ questions) (h : (questions.map (·.key location)).Nodup) :
    Separate location involved := by
  intro x y hx hy hk
  exact congrArg (Question.text location) (List.inj_on_of_nodup_map h (hi x hx) (hi y hy) hk)

/-- Nothing has been put on the shelf. -/
def Empty (shelf : Shelf) (d : Disk) : Prop :=
  ∀ (operation : Cache.Operation) (text : String), d.read? (shelf.path operation.name (Sha256.hexOf text)) = none

/-- Artifacts of an operation that are found hold what is right for their question. -/
def Holds (shelf : Shelf) (location : Option String) (involved : Question → Prop) (operation : Cache.Operation)
    (right : List String → Query → β → Prop) (d : Disk) : Prop :=
  ∀ files q, involved ⟨operation, files, q⟩ → ∀ a : Artifact β,
    (shelf.load d operation.name (Cache.key operation.name location files q)).1 = some a → right files q a.value

/-- What is found only depends on the file at its path. -/
theorem load_congr {shelf : Shelf} {d d' : Disk} {operation key : String}
    (h : d'.read? (shelf.path operation key) = d.read? (shelf.path operation key)) :
    (shelf.load d' operation key : Option (Artifact β) × List Notice) = shelf.load d operation key := by
  unfold load
  dsimp only
  rw [h]

theorem load_of_none {shelf : Shelf} {d : Disk} {operation key : String}
    (h : d.read? (shelf.path operation key) = none) :
    (shelf.load d operation key : Option (Artifact β) × List Notice) = (none, []) := by
  unfold load
  dsimp only
  rw [h]

/-- An artifact that was written is found. -/
theorem load_of_read [Binary.Lawful β] {shelf : Shelf} {d : Disk} {operation key now : String} {files : List String}
    {value : β} (hf : Fits (Artifact.make key files now value))
    (h : d.read? (shelf.path operation key) = some (Binary.encode (Artifact.make key files now value))) :
    shelf.load d operation key = (some (Artifact.make key files now value), []) := by
  have hr := Binary.read_encode hf
  unfold load
  simp only [h, hr]
  rw [if_pos]
  rw [Bool.and_eq_true]
  exact ⟨rfl, beq_self_eq_true _⟩

/-- Nothing is held on a shelf without artifacts. -/
theorem holds_of_empty {shelf : Shelf} {location : Option String} {involved : Question → Prop}
    {operation : Cache.Operation} {right : List String → Query → β → Prop} {d : Disk}
    (h : shelf.Empty d) : shelf.Holds location involved operation right d := by
  intro files q _ a ha
  rw [Cache.key, load_of_none (h operation _)] at ha
  cases ha

/-- Saving what is right for a question keeps the artifacts of its operation right. -/
theorem Holds.save [Binary.Lawful β] {shelf : Shelf} {location : Option String} {involved : Question → Prop}
    {operation : Cache.Operation} {right : List String → Query → β → Prop} {d d' : Disk}
    {files : List String} {q : Query}
    {now : String} {value : β} (h : shelf.Holds location involved operation right d) (hs : Separate location involved)
    (hx : involved ⟨operation, files, q⟩)
    (hr : ∀ files', involved ⟨operation, files', q⟩ →
      Cache.filePaths location files = Cache.filePaths location files' → right files' q value)
    (hf : Fits (Artifact.make (Cache.key operation.name location files q) files now value))
    (hw : d'.read? (shelf.path operation.name (Cache.key operation.name location files q)) =
      some (Binary.encode (Artifact.make (Cache.key operation.name location files q) files now value)))
    (ho : ∀ text', Sha256.hexOf text' ≠ Cache.key operation.name location files q →
      d'.read? (shelf.path operation.name (Sha256.hexOf text')) =
        d.read? (shelf.path operation.name (Sha256.hexOf text'))) :
    shelf.Holds location involved operation right d' := by
  intro files' q' hx' a ha
  -- what is asked for under the new key is the new value; under any other key nothing has changed
  by_cases hk : Cache.key operation.name location files' q' = Cache.key operation.name location files q
  · obtain ⟨-, rfl, hp⟩ := Question.text_inj (hs _ _ hx' hx hk)
    rw [hk, load_of_read hf hw] at ha
    cases ha
    exact hr files' hx' hp.symm
  · rw [Cache.key, load_congr (ho _ hk)] at ha
    exact h files' q' hx' a ha

/-- Saving an artifact of another operation changes nothing. -/
theorem Holds.save_other {shelf : Shelf} {location : Option String} {involved : Question → Prop}
    {operation : Cache.Operation} {right : List String → Query → γ → Prop} {d d' : Disk}
    (h : shelf.Holds location involved operation right d)
    (ho : ∀ text', d'.read? (shelf.path operation.name (Sha256.hexOf text')) =
      d.read? (shelf.path operation.name (Sha256.hexOf text'))) :
    shelf.Holds location involved operation right d' := by
  intro files q hx a ha
  rw [Cache.key, load_congr (ho _)] at ha
  exact h files q hx a ha

end Shelf
end ShotTally
