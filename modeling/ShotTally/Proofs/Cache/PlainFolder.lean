/-
A shelf in a folder of its own at the top of the disk can be depended on, as long as only the
shelf writes there: folders come before what they hold, and artifacts are files. The data may be in memory, or in
a folder on the same disk that is not the shelf's.
-/
import ShotTally.Proofs.Cache.Dependable
import ShotTally.Proofs.Disk.Location

namespace ShotTally

open ShotTally.Path (Plain)

namespace Shelf

/-! ## The places of a shelf -/

/-- The names that lead to the folder of an operation. -/
def folderAt (s : Shelf) (operation : Cache.Operation) : List String := [s.root, operation.name ++ "_cache"]

/-- The names that lead to the artifact of a text. -/
def artifactAt (s : Shelf) (operation : Cache.Operation) (text : String) : List String :=
  s.folderAt operation ++ [Sha256.hexOf text ++ ".bin"]

/-- Folders come before what they hold, and artifacts are files. -/
structure Kept (s : Shelf) (d : Disk) : Prop where
  top : d.working = []
  root : d.at? [s.root] = none ∨ d.at? [s.root] = some .folder
  folder : ∀ operation, d.at? (s.folderAt operation) = none ∨
    d.at? (s.folderAt operation) = some .folder ∧ d.at? [s.root] = some .folder
  artifact : ∀ operation text, d.at? (s.artifactAt operation text) = none ∨
    (∃ bytes, d.at? (s.artifactAt operation text) = some (.file bytes)) ∧
      d.at? (s.folderAt operation) = some .folder

/-- Names that do not lead into the folder of the shelf. -/
structure Apart (s : Shelf) (location : List String) : Prop where
  plain : ∀ n ∈ location, Plain n
  outside : location.head? ≠ some s.root

instance (s : Shelf) (location : List String) : Decidable (s.Apart location) :=
  decidable_of_iff ((∀ n ∈ location, Plain n) ∧ location.head? ≠ some s.root) ⟨fun h => ⟨h.1, h.2⟩, fun h => ⟨h.1, h.2⟩⟩

variable {s : Shelf} {d : Disk}

theorem Apart.ne {location : List String} (h : s.Apart location) (place : List String)
    (hplace : place.head? = some s.root) : location ≠ place := by
  rintro rfl
  exact h.outside hplace

/-- A folder on the way is apart from the shelf as well. -/
theorem Apart.of_prefix {before location : List String} (h : s.Apart location) (hbefore : before <+: location) :
    s.Apart before := by
  refine ⟨fun n hn => h.plain n (hbefore.subset hn), fun hhead => h.outside ?_⟩
  obtain ⟨rest, rfl⟩ := hbefore
  rw [List.head?_append, hhead]
  rfl

theorem plain_folderName (operation : Cache.Operation) : Plain (operation.name ++ "_cache") := by
  cases operation <;> decide

theorem plain_fileName (text : String) : Plain (Sha256.hexOf text ++ ".bin") := by
  have hlen : 64 < (Sha256.hexOf text ++ ".bin").toList.length := by
    rw [String.toList_append, List.length_append, Sha256.length_hexOf]
    decide
  refine ⟨fun h => ?_, fun h => ?_, fun h => ?_, fun h => ?_⟩
  · rw [String.toList_append, List.mem_append] at h
    rcases h with h | h
    · exact absurd (Sha256.hexOf_letters h) (by decide)
    · exact absurd h (by decide)
  all_goals
    rw [h] at hlen
    exact absurd hlen (by decide)

variable (hs : Plain s.root)

include hs

theorem plain_folderAt (operation : Cache.Operation) : ∀ n ∈ s.folderAt operation, Plain n := by
  intro n hn
  rcases List.mem_pair.1 hn with rfl | rfl
  · exact hs
  · exact plain_folderName operation

theorem plain_artifactAt (operation : Cache.Operation) (text : String) :
    ∀ n ∈ s.artifactAt operation text, Plain n := by
  intro n hn
  rcases List.mem_append.1 hn with hn | hn
  · exact plain_folderAt hs operation n hn
  · rw [List.mem_singleton.1 hn]
    exact plain_fileName text

theorem operationFolder_eq (operation : Cache.Operation) :
    s.operationFolder operation.name = "/".intercalate (s.folderAt operation) := by
  have hroot : ∀ n ∈ [s.root], Plain n := by simpa using hs
  have h := Path.join_intercalate (List.cons_ne_nil _ _) hroot (plain_folderName operation)
  rwa [String.intercalate_singleton] at h

theorem path_eq (operation : Cache.Operation) (text : String) :
    s.path operation.name (Sha256.hexOf text) = "/".intercalate (s.artifactAt operation text) := by
  unfold path
  rw [operationFolder_eq hs]
  exact Path.join_intercalate (List.cons_ne_nil _ _) (plain_folderAt hs operation) (plain_fileName text)

/-! ## Putting something at a place -/

omit hs in
theorem artifactAt_ne {operation operation' : Cache.Operation} {text text' : String}
    (h : ¬ (operation' = operation ∧ Sha256.hexOf text' = Sha256.hexOf text)) :
    s.artifactAt operation' text' ≠ s.artifactAt operation text := by
  intro he
  unfold artifactAt folderAt at he
  simp only [List.cons_append, List.nil_append, List.cons.injEq, and_true, true_and, String.append_left_inj] at he
  refine h ⟨?_, he.2⟩
  revert he
  cases operation <;> cases operation' <;> simp [Cache.Operation.name]

/-- The root is made first. -/
theorem Kept.put_root (h : s.Kept d) : s.Kept (d.put [s.root] .folder) := by
  have hroot : ∀ n ∈ [s.root], Plain n := by simpa using hs
  have hat : ∀ l : List String, (∀ n ∈ l, Plain n) → (d.put [s.root] .folder).at? l =
      if l = [s.root] then some .folder else d.at? l := fun l hl => Disk.at?_put (List.cons_ne_nil _ _) hroot hl _
  refine ⟨h.top, .inr ?_, fun operation => ?_, fun operation text => ?_⟩
  · rw [hat _ hroot, if_pos rfl]
  · rw [hat _ (plain_folderAt hs operation), if_neg (by simp [folderAt]), hat _ hroot, if_pos rfl]
    exact (h.folder operation).imp_right fun hf => ⟨hf.1, rfl⟩
  · rw [hat _ (plain_artifactAt hs operation text), if_neg (by simp [artifactAt, folderAt]),
      hat _ (plain_folderAt hs operation), if_neg (by simp [folderAt])]
    exact h.artifact operation text

/-- Then the folder of an operation. -/
theorem Kept.put_folder (h : s.Kept d) (hroot : d.at? [s.root] = some .folder) (operation : Cache.Operation) :
    s.Kept (d.put (s.folderAt operation) .folder) := by
  have hat : ∀ l : List String, (∀ n ∈ l, Plain n) → (d.put (s.folderAt operation) .folder).at? l =
      if l = s.folderAt operation then some .folder else d.at? l := fun l hl =>
    Disk.at?_put (List.cons_ne_nil _ _) (plain_folderAt hs operation) hl _
  have hr : (d.put (s.folderAt operation) .folder).at? [s.root] = some .folder := by
    rw [hat _ (by simpa using hs), if_neg (by simp [folderAt]), hroot]
  refine ⟨h.top, .inr hr, fun operation' => ?_, fun operation' text => ?_⟩
  · rw [hat _ (plain_folderAt hs operation'), hr]
    split
    · exact .inr ⟨rfl, rfl⟩
    · exact (h.folder operation').imp_right fun hf => ⟨hf.1, rfl⟩
  · rw [hat _ (plain_artifactAt hs operation' text), if_neg (by simp [artifactAt, folderAt]),
      hat _ (plain_folderAt hs operation')]
    refine (h.artifact operation' text).imp_right fun ha => ⟨ha.1, ?_⟩
    split
    · rfl
    · exact ha.2

/-- Then artifacts. -/
theorem Kept.put_artifact (h : s.Kept d) {operation : Cache.Operation}
    (hf : d.at? (s.folderAt operation) = some .folder)
    (text : String) (bytes : List UInt8) : s.Kept (d.put (s.artifactAt operation text) (.file bytes)) := by
  have hat : ∀ l : List String, (∀ n ∈ l, Plain n) → (d.put (s.artifactAt operation text) (.file bytes)).at? l =
      if l = s.artifactAt operation text then some (.file bytes) else d.at? l := fun l hl =>
    Disk.at?_put (List.cons_ne_nil _ _) (plain_artifactAt hs operation text) hl _
  have hr : (d.put (s.artifactAt operation text) (.file bytes)).at? [s.root] = d.at? [s.root] := by
    rw [hat _ (by simpa using hs), if_neg (by simp [artifactAt, folderAt])]
  -- an artifact stands one level below the folders, so no folder is replaced
  have hfolder : ∀ operation', (d.put (s.artifactAt operation text) (.file bytes)).at? (s.folderAt operation') =
      d.at? (s.folderAt operation') := fun operation' => by
    rw [hat _ (plain_folderAt hs operation'), if_neg (by simp [artifactAt, folderAt])]
  refine ⟨h.top, by rw [hr]; exact h.root, fun operation' => ?_, fun operation' text' => ?_⟩
  · rw [hfolder, hr]
    exact h.folder operation'
  · rw [hat _ (plain_artifactAt hs operation' text'), hfolder]
    split
    · rename_i he
      obtain rfl : operation' = operation := by
        by_contra hne
        exact artifactAt_ne (fun hand => hne hand.1) he
      exact .inr ⟨⟨bytes, rfl⟩, hf⟩
    · exact h.artifact operation' text'

/-- What others put elsewhere does not matter. -/
theorem Kept.put_apart (h : s.Kept d) {location : List String} (hne : location ≠ []) (hl : s.Apart location)
    (e : Entry) :
    s.Kept (d.put location e) := by
  have hat : ∀ l : List String, (∀ n ∈ l, Plain n) → l.head? = some s.root → (d.put location e).at? l = d.at? l :=
    fun l hplain hhead => by rw [Disk.at?_put hne hl.plain hplain, if_neg (hl.ne l hhead).symm]
  have hroot := hat [s.root] (by simpa using hs) rfl
  have hfolder : ∀ operation, (d.put location e).at? (s.folderAt operation) = d.at? (s.folderAt operation) :=
    fun operation => hat _ (plain_folderAt hs operation) rfl
  refine ⟨h.top, by rw [hroot]; exact h.root, fun operation => ?_, fun operation text => ?_⟩
  · rw [hfolder, hroot]
    exact h.folder operation
  · rw [hat _ (plain_artifactAt hs operation text) rfl, hfolder]
    exact h.artifact operation text

omit hs in
/-- As long as the shelf has no folder there are no artifacts. -/
theorem Kept.unmade (h : s.Kept d) (hroot : d.at? [s.root] = none) (operation : Cache.Operation) (text : String) :
    d.at? (s.artifactAt operation text) = none := by
  refine (h.artifact operation text).resolve_right fun ⟨_, hfolder⟩ => ?_
  rcases h.folder operation with hnone | ⟨-, hthere⟩
  · rw [hnone] at hfolder
    cases hfolder
  · rw [hroot] at hthere
    cases hthere

/-! ## Reading -/

/-- The path of an artifact leads to it once its folder is there. -/
theorem locate_path (h : s.Kept d) (operation : Cache.Operation) (text : String) :
    d.locate (s.path operation.name (Sha256.hexOf text)) =
      if d.at? (s.folderAt operation) = some .folder then some (s.artifactAt operation text) else none := by
  have hfolder := plain_folderName operation
  rw [path_eq hs, Disk.locate_plain h.top (by simp [artifactAt]) (plain_artifactAt hs operation text)]
  show d.walk [] [s.root, operation.name ++ "_cache", Sha256.hexOf text ++ ".bin"] = _
  rw [Disk.walk_plain hs, Disk.walk_plain hfolder, Disk.walk_plain (plain_fileName text)]
  show (if d.isFolderAt [s.root] then if d.isFolderAt (s.folderAt operation) then some (s.artifactAt operation text)
    else none else none) = _
  -- the folder of the operation is there only within the folder of the shelf
  by_cases hf : d.at? (s.folderAt operation) = some .folder
  · have hroot : d.at? [s.root] = some .folder := by
      rcases h.folder operation with hn | hn
      · rw [hn] at hf; cases hf
      · exact hn.2
    rw [if_pos hf, if_pos (Disk.isFolderAt_iff.2 hroot), if_pos (Disk.isFolderAt_iff.2 hf)]
  · rw [if_neg hf]
    split
    · rw [if_neg fun he => hf (Disk.isFolderAt_iff.1 he)]
    · rfl

theorem read?_path (h : s.Kept d) (operation : Cache.Operation) (text : String) :
    d.read? (s.path operation.name (Sha256.hexOf text)) = match d.at? (s.artifactAt operation text) with
      | some (.file bytes) => some bytes
      | _ => none := by
  unfold Disk.read? Disk.find?
  rw [locate_path hs h]
  -- an artifact that is there stands in its folder, so that its path leads to it
  rcases h.artifact operation text with ha | ⟨⟨bytes, ha⟩, hf⟩
  · have hnone : (if d.at? (s.folderAt operation) = some .folder then some (s.artifactAt operation text) else none).bind
        d.at? = none := by
      split
      · exact ha
      · rfl
    rw [hnone, ha]
  · rw [if_pos hf, Option.bind_some, ha]

/-! ## Saving -/

/-- Making the folder of an operation leaves the artifacts and what is apart from the shelf as they are. -/
theorem makeFolders_folder (h : s.Kept d) (operation : Cache.Operation) :
    ∃ d', d.makeFolders? (s.operationFolder operation.name) = some d' ∧ s.Kept d' ∧
      d'.at? (s.folderAt operation) = some .folder ∧
      (∀ operation' text, d'.at? (s.artifactAt operation' text) = d.at? (s.artifactAt operation' text)) ∧
      ∀ l, s.Apart l → d'.at? l = d.at? l := by
  have hfolder := plain_folderName operation
  rw [operationFolder_eq hs, Disk.makeFolders_plain h.top (by simp [folderAt]) (plain_folderAt hs operation)]
  -- the root
  obtain ⟨d₁, hd₁, hk₁, hr₁, ha₁, hl₁⟩ : ∃ d₁, d.makeFrom [] (s.folderAt operation) =
      d₁.makeFrom [s.root] [operation.name ++ "_cache"] ∧ s.Kept d₁ ∧ d₁.at? [s.root] = some .folder ∧
      (∀ operation' text, d₁.at? (s.artifactAt operation' text) = d.at? (s.artifactAt operation' text)) ∧
      ∀ l, s.Apart l → d₁.at? l = d.at? l := by
    have hroot : ∀ n ∈ [s.root], Plain n := by simpa using hs
    show ∃ d₁, d.makeFrom [] [s.root, operation.name ++ "_cache"] = _ ∧ _
    rw [Disk.makeFrom_plain hs, List.nil_append]
    rcases h.root with hr | hr
    · rw [hr]
      refine ⟨_, rfl, h.put_root hs, ?_, fun operation' text => ?_, fun l hl => ?_⟩
      · rw [Disk.at?_put (List.cons_ne_nil _ _) hroot hroot, if_pos rfl]
      · rw [Disk.at?_put (List.cons_ne_nil _ _) hroot (plain_artifactAt hs operation' text),
          if_neg (by simp [artifactAt, folderAt])]
      · rw [Disk.at?_put (List.cons_ne_nil _ _) hroot hl.plain, if_neg (hl.ne [s.root] rfl)]
    · rw [hr]
      exact ⟨d, rfl, h, hr, fun _ _ => rfl, fun _ _ => rfl⟩
  -- the folder
  have hbelow : [s.root] ++ [operation.name ++ "_cache"] = s.folderAt operation := rfl
  rw [hd₁, Disk.makeFrom_plain hfolder, hbelow]
  rcases hk₁.folder operation with hf | hf
  · rw [hf]
    refine ⟨_, rfl, hk₁.put_folder hs hr₁ operation, ?_, fun operation' text => ?_, fun l hl => ?_⟩
    · rw [Disk.at?_put (by simp [folderAt]) (plain_folderAt hs operation) (plain_folderAt hs operation), if_pos rfl]
    · rw [Disk.at?_put (by simp [folderAt]) (plain_folderAt hs operation) (plain_artifactAt hs operation' text),
        if_neg (by simp [artifactAt, folderAt]), ha₁]
    · rw [Disk.at?_put (by simp [folderAt]) (plain_folderAt hs operation) hl.plain,
        if_neg (hl.ne (s.folderAt operation) rfl), hl₁ l hl]
  · rw [hf.1]
    exact ⟨d₁, rfl, hk₁, hf.1, ha₁, hl₁⟩

/-- Writing an artifact into its folder. -/
theorem write_path (h : s.Kept d) {operation : Cache.Operation} (hf : d.at? (s.folderAt operation) = some .folder)
    (text : String) (bytes : List UInt8) : d.write? (s.path operation.name (Sha256.hexOf text)) bytes =
      some (d.put (s.artifactAt operation text) (.file bytes)) := by
  have hfile : d.isFolderAt (s.artifactAt operation text) = false := by
    refine beq_false_of_ne fun he => ?_
    rcases h.artifact operation text with ha | ⟨⟨b, ha⟩, -⟩ <;> rw [ha] at he <;> cases he
  have hlast : (s.artifactAt operation text).dropLast = s.folderAt operation := List.dropLast_concat
  unfold Disk.write?
  rw [locate_path hs h, if_pos hf]
  show (if d.isFolderAt (s.artifactAt operation text) then none
    else if d.isFolderAt (s.artifactAt operation text).dropLast then _ else none) = _
  rw [hfile, hlast, if_neg Bool.false_ne_true, if_pos (Disk.isFolderAt_iff.2 hf)]
  rfl

/-- Writing an artifact into its folder leaves the others and what is apart from the shelf as they are. -/
theorem writes_artifact (h : s.Kept d) {operation : Cache.Operation} (hf : d.at? (s.folderAt operation) = some .folder)
    (text : String) (bytes : List UInt8) :
    s.Kept (d.put (s.artifactAt operation text) (.file bytes)) ∧
      (d.put (s.artifactAt operation text) (.file bytes)).read? (s.path operation.name (Sha256.hexOf text)) =
        some bytes ∧
      (∀ (operation' : Cache.Operation) (text' : String),
        ¬ (operation' = operation ∧ Sha256.hexOf text' = Sha256.hexOf text) →
        (d.put (s.artifactAt operation text) (.file bytes)).at? (s.artifactAt operation' text') =
          d.at? (s.artifactAt operation' text')) ∧
      ∀ l, s.Apart l → (d.put (s.artifactAt operation text) (.file bytes)).at? l = d.at? l := by
  have hkept := h.put_artifact hs hf text bytes
  have hat : ∀ l : List String, (∀ n ∈ l, Plain n) → (d.put (s.artifactAt operation text) (.file bytes)).at? l =
      if l = s.artifactAt operation text then some (.file bytes) else d.at? l := fun l hl =>
    Disk.at?_put (by simp [artifactAt]) (plain_artifactAt hs operation text) hl _
  refine ⟨hkept, ?_, fun operation' text' hne => ?_, fun l hl => ?_⟩
  · rw [read?_path hs hkept, hat _ (plain_artifactAt hs operation text), if_pos rfl]
  · rw [hat _ (plain_artifactAt hs operation' text'), if_neg (artifactAt_ne hne)]
  · rw [hat l hl.plain, if_neg (hl.ne (s.artifactAt operation text) rfl)]

/-- Data that are not in the folder of the shelf are loaded as before where nothing else was changed. -/
def Spares (s : Shelf) (store : Store) (files : List String) : Prop :=
  ∀ d d', s.Kept d → s.Kept d' → (∀ l, s.Apart l → d'.at? l = d.at? l) →
    ∀ file ∈ files, store.load d' file = store.load d file

omit hs in
theorem spares_memory (shots : Keyed ShotFile) (files : List String) : s.Spares (.memory shots) files :=
  fun _ _ _ _ _ _ _ => rfl

omit hs in
/-- A folder apart from that of the shelf. -/
theorem spares_folder {folder : String} {names files : List String} (hfolder : folder = "/".intercalate names)
    (hne : names ≠ []) (hnames : s.Apart names) (hfiles : ∀ file ∈ files, Plain file) :
    s.Spares (.folder folder) files := by
  subst hfolder
  intro d d' hd hd' hat file hfile
  have hplain : ∀ n ∈ names ++ [file], Plain n := by
    simpa [or_imp, forall_and] using ⟨hnames.plain, hfiles file hfile⟩
  have hapart : s.Apart (names ++ [file]) := by
    refine ⟨hplain, ?_⟩
    rw [List.head?_append_of_ne_nil _ hne]
    exact hnames.outside
  have hfind : d'.find? ("/".intercalate (names ++ [file])) = d.find? ("/".intercalate (names ++ [file])) :=
    Disk.find?_congr hd.top hd'.top (by simp) hplain fun before hbefore => hat before (hapart.of_prefix hbefore)
  simp only [Store.load, Path.join_intercalate hne hnames.plain (hfiles file hfile)]
  unfold Disk.isFile ShotFile.readFrom Disk.read?
  rw [hfind]

/-- A shelf in a plain folder can be depended on for runs over data that are not in this folder. -/
theorem dependable_of_spares {store : Store} {files : List String} (hspares : s.Spares store files) :
    s.Dependable store files s.Kept where
  save {β _ d} h operation text inputs now value := by
    obtain ⟨d₁, hmake, h₁, hf, ha₁, hl₁⟩ := makeFolders_folder hs h operation
    obtain ⟨h₂, hread, ha₂, hl₂⟩ :=
      writes_artifact hs h₁ hf text (Binary.encode (Artifact.make (Sha256.hexOf text) inputs now value))
    refine ⟨_, ?_, h₂, hread, fun operation' text' hne => ?_, hspares d _ h h₂ fun l hl => (hl₂ l hl).trans (hl₁ l hl)⟩
    · exact (Disk.Writing.run_bind_ok (Disk.Writing.run_makeFolders hmake)).trans
        (Disk.Writing.run_write (write_path hs h₁ hf text _))
    · rw [read?_path hs h₂, read?_path hs h, ha₂ operation' text' hne, ha₁]

/-- For runs over shots in memory. -/
theorem dependable_of_plain (shots : Keyed ShotFile) (files : List String) :
    s.Dependable (.memory shots) files s.Kept :=
  dependable_of_spares hs (spares_memory shots files)

/-- For runs over plain names in a folder apart from that of the shelf. -/
theorem dependable_of_folder {folder : String} {names files : List String} (hfolder : folder = "/".intercalate names)
    (hne : names ≠ []) (hnames : s.Apart names) (hfiles : ∀ file ∈ files, Plain file) :
    s.Dependable (.folder folder) files s.Kept :=
  dependable_of_spares hs (spares_folder hfolder hne hnames hfiles)

omit hs in
/-- A disk without anything on it is kept. -/
theorem kept_empty (s : Shelf) : s.Kept (Disk.empty []) :=
  ⟨rfl, .inl rfl, fun _ => .inl rfl, fun _ _ => .inl rfl⟩

/-- A shelf without a folder is empty. -/
theorem empty_of_unmade (h : s.Kept d) (hroot : d.at? [s.root] = none) : s.Empty d := by
  intro operation text
  rw [read?_path hs h, h.unmade hroot]

end Shelf
end ShotTally
