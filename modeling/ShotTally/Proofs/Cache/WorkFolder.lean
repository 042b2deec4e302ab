/-
Where the work folder of a data folder lies. Below a folder `rawdata` it lies beside the first such folder, so all data
there share it. Elsewhere it lies beside the data folder, and all data folders of one parent share it; but that of a
data folder given by its bare name is in the data folder.
-/
import ShotTally.Cache.WorkFolder
import ShotTally.Proofs.Disk.Components

namespace ShotTally.Cache

open ShotTally.Path (Plain components join root)

/-! ## Paths of names -/

/-- A path of one name or more, from the root or from the working folder. -/
def Regular (path : String) : Prop :=
  ∃ names, names ≠ [] ∧ (∀ n ∈ names, Plain n) ∧ components path = root path ++ names

/-- A place below a folder. -/
def Inside (folder path : String) : Prop := components folder <+: components path ∧ components path ≠ components folder

theorem plain_work : Plain "work" := by decide

theorem components_rejoin (path : String) {names : List String} (h : ∀ n ∈ names, Plain n) :
    components (rejoin (root path ++ names)) = root path ++ names := by
  unfold rejoin root
  split
  · exact Path.components_foldl_join h "/"
  · exact Path.components_foldl_join h ""

section

variable {data : String}

/-! ## Below rawdata -/

theorem workFolder_of_mem (h : "rawdata" ∈ components data) :
    workFolder data = join (rejoin ((components data).takeWhile (· != "rawdata"))) "work" :=
  if_pos (List.contains_iff_mem.2 h)

/-- Below one folder that is `rawdata` or lies below it there is one work folder. -/
theorem workFolder_eq_of_prefix {folder : String} (h : "rawdata" ∈ components folder)
    (hbelow : components folder <+: components data) : workFolder data = workFolder folder := by
  obtain ⟨more, hmore⟩ := hbelow
  have hdata : "rawdata" ∈ components data := by
    rw [← hmore]
    exact List.mem_append_left _ h
  have htake : ((components folder).takeWhile (· != "rawdata")).length ≠ (components folder).length := by
    intro hlen
    have hall := (List.takeWhile_prefix (· != "rawdata")).eq_of_length hlen
    have hmem := List.mem_takeWhile_imp (hall.symm ▸ h)
    simp at hmem
  rw [workFolder_of_mem hdata, workFolder_of_mem h, ← hmore, List.takeWhile_append, if_neg htake]

theorem components_workFolder_of_mem (hdata : Regular data) (h : "rawdata" ∈ components data) :
    components (workFolder data) = (components data).takeWhile (· != "rawdata") ++ ["work"] := by
  obtain ⟨names, -, hplain, hnames⟩ := hdata
  have hbefore : (components data).takeWhile (· != "rawdata") = root data ++ names.takeWhile (· != "rawdata") := by
    rw [hnames]
    unfold root
    split <;> rfl
  rw [workFolder_of_mem h, Path.components_join _ plain_work, hbefore,
    components_rejoin data fun n hn => hplain n ((List.takeWhile_subset _) hn)]

/-! ## Elsewhere -/

theorem workFolder_of_notMem (h : "rawdata" ∉ components data) : workFolder data =
    match Path.parent? data with
    | some parent => if parent = "" then join data "work" else join parent "work"
    | none => join data "work" := if_neg fun hc => h (List.contains_iff_mem.1 hc)

/-- The work folder is beside a data folder of two components or more, and in one of a single component. -/
theorem components_workFolder (hdata : Regular data) (h : "rawdata" ∉ components data) :
    components (workFolder data) =
      (if 1 < (components data).length then (components data).dropLast else components data) ++ ["work"] := by
  rw [workFolder_of_notMem h]
  rcases Path.parent_cases data with ⟨-, hroot⟩ | ⟨hparent, last, hlast⟩ | ⟨p, last, hp, hparent, hlast⟩
  · obtain ⟨names, hne, -, hnames⟩ := hdata
    rw [hroot] at hnames
    exact absurd (List.append_right_eq_self.1 hnames.symm) hne
  · -- the empty parent is passed over for the data folder itself
    rw [hparent, hlast, if_neg (by simp)]
    dsimp only
    rw [if_pos rfl, Path.components_join _ plain_work, hlast]
  · have hlen : 1 < (components data).length := by
      have := List.length_pos_iff.2 (Path.components_ne_nil hp)
      rw [hlast, List.length_append, List.length_singleton]
      omega
    rw [hparent, if_pos hlen]
    dsimp only
    rw [if_neg hp, Path.components_join _ plain_work, hlast, List.dropLast_concat]

theorem not_inside_of_length {folder path : String} (h : (components path).length = (components folder).length) :
    ¬ Inside folder path := fun hinside => hinside.2 (hinside.1.eq_of_length h.symm).symm

/-- Below a folder `rawdata` the work folder is beside the first such folder, and one for all that lies below a folder
there. Elsewhere it is beside the data folder, not inside it, and one for all data folders of a parent, exactly if the
data folder has more than one component; a bare name has its work folder inside it. -/
theorem workFolder_place (hdata : Regular data) :
    ("rawdata" ∈ components data →
      components (workFolder data) = (components data).takeWhile (· != "rawdata") ++ ["work"] ∧
      ∀ folder, "rawdata" ∈ components folder → components folder <+: components data →
        workFolder data = workFolder folder) ∧
    ("rawdata" ∉ components data →
      (components (workFolder data) = (components data).dropLast ++ ["work"] ↔ 1 < (components data).length) ∧
      (Inside data (workFolder data) ↔ ¬ 1 < (components data).length) ∧
      ∀ other, Regular other → "rawdata" ∉ components other → 1 < (components data).length →
        (components other).dropLast = (components data).dropLast →
        components (workFolder other) = components (workFolder data)) := by
  refine ⟨fun h => ⟨components_workFolder_of_mem hdata h, fun folder hfolder => workFolder_eq_of_prefix hfolder⟩,
    fun h => ?_⟩
  have hplace := components_workFolder hdata h
  -- with a single component there is no parent, and the work folder comes inside
  by_cases hlen : 1 < (components data).length
  · rw [if_pos hlen] at hplace
    refine ⟨iff_of_true hplace hlen, iff_of_false (not_inside_of_length ?_) (not_not_intro hlen), ?_⟩
    · rw [hplace, List.length_append, List.length_dropLast, List.length_singleton]
      omega
    · intro other hother h' _ hparent
      have hlen' : 1 < (components other).length := by
        have := congrArg List.length hparent
        rw [List.length_dropLast, List.length_dropLast] at this
        omega
      rw [components_workFolder hother h', if_pos hlen', hplace, hparent]
  · rw [if_neg hlen] at hplace
    refine ⟨iff_of_false (fun hbeside => ?_) hlen, iff_of_true ⟨?_, ?_⟩ hlen, fun _ _ _ h => absurd h hlen⟩
    · have hshort := congrArg List.length (List.append_cancel_right (hplace.symm.trans hbeside))
      obtain ⟨names, hne, -, hnames⟩ := hdata
      have hpos := List.length_pos_iff.2 hne
      rw [List.length_dropLast, hnames, List.length_append] at hshort
      omega
    · rw [hplace]
      exact List.prefix_append _ _
    · rw [hplace]
      exact fun hself => absurd (List.append_right_eq_self.1 hself) (List.cons_ne_nil _ _)

end

theorem workFolder_place_spelled :
    Regular "/beam/./rawdata/run_07/" ∧ Regular "scratch//run_07" ∧
    components (workFolder "/beam/./rawdata/run_07/") = ["/", "beam", "work"] ∧
    components (workFolder "scratch//run_07") = ["scratch", "work"] := by
  have hrawdata : Regular "/beam/./rawdata/run_07/" :=
    ⟨["beam", "rawdata", "run_07"], by decide, by decide, by decide +kernel⟩
  have helsewhere : Regular "scratch//run_07" := ⟨["scratch", "run_07"], by decide, by decide, by decide +kernel⟩
  refine ⟨hrawdata, helsewhere, ?_, ?_⟩
  · exact ((workFolder_place hrawdata).1 (by decide +kernel)).1.trans (by decide +kernel)
  · exact (((workFolder_place helsewhere).2 (by decide +kernel)).1.2 (by decide +kernel)).trans (by decide +kernel)

/-- The work folder of a bare name, and that of the same folder spelled with a dot. -/
theorem workFolder_bare_name : Regular "run_07" ∧ "rawdata" ∉ components "run_07" ∧
    workFolder "run_07" = "run_07/work" ∧
    components (workFolder "run_07") ≠ (components "run_07").dropLast ++ ["work"] ∧
    workFolder "./run_07" = "./work" :=
  ⟨⟨["run_07"], by decide, by decide, by decide +kernel⟩, by decide +kernel, by decide +kernel, by decide +kernel,
    by decide +kernel⟩

end ShotTally.Cache
