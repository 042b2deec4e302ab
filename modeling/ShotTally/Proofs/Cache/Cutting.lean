/-
Artifacts that were cut short. The parts of an artifact stand one behind the other, and the end of each
is seen from its bytes, so that what is left of an artifact is not read as one and is passed over.
-/
import ShotTally.Proofs.Cache.Deposits
import ShotTally.Proofs.Codec.Delimiting

namespace ShotTally

namespace Binary

variable {α : Type} [Binary α] [Lawful α] [Canonical α]

theorem delimits_readSizes : Delimits readSizes :=
  reads_readSize.readList.delimits fun _ h => takes_readSizes h.1 h.2

instance : Delimiting Provenance where
  delimits := Delimiting.delimits.bind fun _ => Delimiting.delimits.bind fun _ => Delimiting.delimits.bind fun _ =>
    Delimiting.delimits.map _

instance : Delimiting (WeightedAverage α) where
  delimits := delimits_readSizes.bind fun _ => Delimiting.delimits.bind fun _ => Delimiting.delimits.map _

instance : Delimiting (CollectedBuckets α) where
  delimits := delimits_readSizes.bind fun _ => Delimiting.delimits.map _

instance {β : Type} [Binary β] [Delimiting β] : Delimiting (Artifact β) where
  delimits := Delimiting.delimits.bind fun _ => Delimiting.delimits.bind fun _ => Delimiting.delimits.map _

end Binary

open Binary (Fits Delimiting)

namespace Shelf

variable {β : Type} [Binary β]

/-! ## Finding what was saved, and what is left of it -/

/-- Something is a part of these bytes from the front, but not all of them. -/
def IsCut (part bytes : List UInt8) : Prop := part <+: bytes ∧ part ≠ bytes

section

variable [Binary.Lawful β] {s : Shelf} {d d' : Disk} {place key now : String} {files : List String} {value : β}

/-- What was saved is found. -/
theorem load_of_save (hf : Fits (Artifact.make key files now value))
    (h : (s.save place key files now value).run d = (.ok (), d')) :
    s.load d' place key = (some (Artifact.make key files now value), []) :=
  load_of_read hf (receives_of_save h).2

/-- What was cut short is passed over with a notice. -/
theorem load_of_cut [Delimiting β] {a : Artifact β} (hf : Fits a) {part : List UInt8}
    (hpart : IsCut part (Binary.encode a)) (h : d.read? (s.path place key) = some part) :
    s.load d place key = ((none, [.artifactCorrupt (s.path place key)]) : Option (Artifact β) × List Notice) := by
  have hnone : (Binary.read? part : Option (Artifact β)) = none := Binary.read_truncated hf hpart.1 hpart.2
  unfold load
  simp only [h, hnone]

end

/-- Whatever is saved is found as it was, and where only a part of it lies it is passed over. -/
def Discerns (β : Type) [Binary β] [Binary.Lawful β] (s : Shelf) : Prop :=
  ∀ (place key now : String) (files : List String) (value : β), Fits (Artifact.make key files now value) →
    (∀ d d', (s.save place key files now value).run d = (.ok (), d') →
      s.load d' place key = (some (Artifact.make key files now value), [])) ∧
    ∀ d part, IsCut part (Binary.encode (Artifact.make key files now value)) → d.read? (s.path place key) = some part →
      s.load d place key = ((none, [.artifactCorrupt (s.path place key)]) : Option (Artifact β) × List Notice)

theorem discerns [Binary.Lawful β] [Delimiting β] (s : Shelf) : s.Discerns β :=
  fun _ _ _ _ _ hf => ⟨fun _ _ hsave => load_of_save hf hsave, fun _ _ hpart hread => load_of_cut hf hpart hread⟩

/-! ## Shelves on which artifacts may be cut -/

/-- A shelf that can be depended on also when something is written over its artifacts: neither other artifacts nor
the data in these files change. -/
structure Steady (s : Shelf) (store : Store) (files : List String) (good : Disk → Prop) : Prop
    extends s.Dependable store files good where
  overwrite : ∀ {d d' : Disk}, good d → ∀ (operation : Cache.Operation) (text : String) (bytes : List UInt8),
    d.write? (s.path operation.name (Sha256.hexOf text)) bytes = some d' → good d' ∧
      (∀ (operation' : Cache.Operation) (text' : String),
        ¬ (operation' = operation ∧ Sha256.hexOf text' = Sha256.hexOf text) →
        d'.read? (s.path operation'.name (Sha256.hexOf text')) =
          d.read? (s.path operation'.name (Sha256.hexOf text'))) ∧
      ∀ file ∈ files, store.load d' file = store.load d file

/-- A shelf in a plain folder is steady for runs over data that are not in this folder. -/
theorem steady_of_spares {s : Shelf} (hs : Path.Plain s.root) {store : Store} {files : List String}
    (hspares : s.Spares store files) : s.Steady store files s.Kept where
  toDependable := dependable_of_spares hs hspares
  overwrite {d d'} h operation text bytes hwrite := by
    -- the artifact is written where its path leads, so its folder is there
    have hf : d.at? (s.folderAt operation) = some .folder := by
      obtain ⟨place, hplace, -⟩ := Disk.write?_eq_some.1 hwrite
      rw [locate_path hs h] at hplace
      by_contra hf
      rw [if_neg hf] at hplace
      cases hplace
    rw [write_path hs h hf] at hwrite
    obtain rfl := Option.some.inj hwrite
    obtain ⟨h', -, ha, hl⟩ := writes_artifact hs h hf text bytes
    refine ⟨h', fun operation' text' hne => ?_, hspares d _ h h' hl⟩
    rw [read?_path hs h', read?_path hs h, ha operation' text' hne]

/-- For runs over shots in memory. -/
theorem steady_of_plain {s : Shelf} (hs : Path.Plain s.root) (shots : Keyed ShotFile) (files : List String) :
    s.Steady (.memory shots) files s.Kept :=
  steady_of_spares hs (spares_memory shots files)

/-- For runs over plain names in a folder apart from that of the shelf. -/
theorem steady_of_folder {s : Shelf} (hs : Path.Plain s.root) {folder : String} {names files : List String}
    (hfolder : folder = "/".intercalate names) (hne : names ≠ []) (hnames : s.Apart names)
    (hfiles : ∀ file ∈ files, Path.Plain file) : s.Steady (.folder folder) files s.Kept :=
  steady_of_spares hs (spares_folder hfolder hne hnames hfiles)

/-- An artifact that is read there can be written over. -/
theorem exists_write_of_read {s : Shelf} (hs : Path.Plain s.root) {d : Disk} (h : s.Kept d)
    {operation : Cache.Operation}
    {text : String} {bytes : List UInt8} (hread : d.read? (s.path operation.name (Sha256.hexOf text)) = some bytes)
    (part : List UInt8) : ∃ d', d.write? (s.path operation.name (Sha256.hexOf text)) part = some d' := by
  rw [read?_path hs h] at hread
  rcases h.artifact operation text with hnone | ⟨-, hf⟩
  · rw [hnone] at hread
    cases hread
  · exact ⟨_, write_path hs h hf text part⟩

/-! ## What saving leaves alone -/

/-- What is as it was after artifacts with these keys were written: the disk is good, other artifacts are read as
before, and so are the data in these files. -/
structure LeftAlone (s : Shelf) (store : Store) (files : List String) (good : Disk → Prop) (operation : Cache.Operation)
    (keys : List String) (d d' : Disk) : Prop where
  good : good d'
  read : ∀ (operation' : Cache.Operation) (text : String), ¬ (operation' = operation ∧ Sha256.hexOf text ∈ keys) →
    d'.read? (s.path operation'.name (Sha256.hexOf text)) = d.read? (s.path operation'.name (Sha256.hexOf text))
  loads : ∀ file ∈ files, store.load d' file = store.load d file

section

variable {s : Shelf} {store : Store} {files : List String} {good : Disk → Prop} {operation : Cache.Operation}
    {now : String} {d d' : Disk}
  {xs : List (Deposit β)}

theorem LeftAlone.trans {keys keys' : List String} {d'' : Disk} (h : s.LeftAlone store files good operation keys d d')
    (h' : s.LeftAlone store files good operation keys' d' d'') :
    s.LeftAlone store files good operation (keys ++ keys') d d'' := by
  refine ⟨h'.good, fun operation' text hne => ?_, fun file hfile => (h'.loads file hfile).trans (h.loads file hfile)⟩
  rw [List.mem_append] at hne
  exact (h'.read operation' text fun hk => hne ⟨hk.1, .inr hk.2⟩).trans
    (h.read operation' text fun hk => hne ⟨hk.1, .inl hk.2⟩)

theorem Dependable.leftAlone_save (hd : s.Dependable store files good) (hg : good d) {x : Deposit β} (hk : x.Keyed)
    (h : (s.save operation.name x.key x.files now x.value).run d = (.ok (), d')) :
    s.LeftAlone store files good operation [x.key] d d' := by
  obtain ⟨text, hkey⟩ := hk
  rw [hkey] at h ⊢
  obtain ⟨d₁, hrun, hg₁, -, hother, hloads⟩ := hd.save hg operation text x.files now x.value
  obtain rfl : d₁ = d' := congrArg Prod.snd (hrun.symm.trans h)
  exact ⟨hg₁, fun operation' text' hne => hother operation' text' fun hk => hne ⟨hk.1, by simp [hk.2]⟩, hloads⟩

theorem Dependable.leftAlone (hd : s.Dependable store files good) (hg : good d) (hk : ∀ x ∈ xs, x.Keyed)
    (h : s.Saves operation now d xs d') : s.LeftAlone store files good operation (xs.map (·.key)) d d' := by
  induction h with
  | nil => exact ⟨hg, fun _ _ _ => rfl, fun _ _ => rfl⟩
  | @cons _ _ _ x _ first _ ih =>
    have hfirst := hd.leftAlone_save hg (hk x List.mem_cons_self) first
    exact hfirst.trans (ih hfirst.good fun y hy => hk y (List.mem_cons_of_mem _ hy))

omit [Binary β] in
theorem Steady.leftAlone_write (hs : s.Steady store files good) (hg : good d) {text : String} {bytes : List UInt8}
    (h : d.write? (s.path operation.name (Sha256.hexOf text)) bytes = some d') :
    s.LeftAlone store files good operation [Sha256.hexOf text] d d' := by
  obtain ⟨hg', hother, hloads⟩ := hs.overwrite hg operation text bytes h
  exact ⟨hg', fun operation' text' hne => hother operation' text' fun hk => hne ⟨hk.1, by simp [hk.2]⟩, hloads⟩

end

/-- The artifact that lies under a key is cut short. -/
def Cuts (β : Type) [Binary β] [Binary.Lawful β] (s : Shelf) (place key : String) (d d' : Disk) : Prop :=
  ∃ a : Artifact β, Fits a ∧ d.read? (s.path place key) = some (Binary.encode a) ∧
    ∃ part, IsCut part (Binary.encode a) ∧ d.write? (s.path place key) part = some d'

namespace Cuts

variable [Binary.Lawful β] {s : Shelf} {d d' : Disk}

theorem leftAlone {store : Store} {files : List String} {good : Disk → Prop} {operation : Cache.Operation}
    {text : String}
    (h : s.Cuts β operation.name (Sha256.hexOf text) d d') (hs : s.Steady store files good) (hg : good d) :
    s.LeftAlone store files good operation [Sha256.hexOf text] d d' := by
  obtain ⟨-, -, -, part, -, hwrite⟩ := h
  exact hs.leftAlone_write hg hwrite

theorem load_eq [Delimiting β] {place key : String} (h : s.Cuts β place key d d') :
    s.load d' place key = ((none, [.artifactCorrupt (s.path place key)]) : Option (Artifact β) × List Notice) := by
  obtain ⟨a, hf, -, part, hpart, hwrite⟩ := h
  exact load_of_cut hf hpart (Disk.read?_of_write hwrite)

end Cuts

end Shelf
end ShotTally
