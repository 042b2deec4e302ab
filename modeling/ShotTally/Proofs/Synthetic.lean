/-
The files of a made-up run in the order of their names. Names number the files with three digits, so a thousand files
are in order, and so are the shots in them, whatever store lists them and whatever else it holds. The file after these
has a longer name, which comes before those of most files, and the shots of that file before theirs.
-/
import Mathlib.Data.List.Sort
import ShotTally.Proofs.Number.Word
import ShotTally.Proofs.Shot.Store
import ShotTally.Proofs.Text.Padding
import ShotTally.Synthetic

namespace ShotTally.SyntheticRun

open ShotTally.Path (Plain)
open ShotTally.Text (padded padded_lt_padded padded_injective length_padded isDigit_of_mem_padded append_lt_append)

/-! ## Names -/

theorem toList_fileName (k : Nat) :
    (fileName k).toList = "run_".toList ++ ((padded 3 k).toList ++ ".shot".toList) := by
  rw [fileName, String.toList_append, String.toList_append, List.append_assoc]

theorem fileName_injective {j k : Nat} (h : fileName j = fileName k) : j = k :=
  padded_injective ((String.append_right_inj _).1 ((String.append_left_inj _).1 h))

/-- Up to three digits the names have the order of the numbers. -/
theorem fileName_lt {j k : Nat} (hjk : j < k) (hk : k < 1000) : fileName j < fileName k := by
  have hlen : (padded 3 j).toList.length = (padded 3 k).toList.length :=
    (length_padded (by decide) (Nat.lt_trans hjk hk)).trans (length_padded (by decide) hk).symm
  rw [String.lt_iff, toList_fileName, toList_fileName]
  exact List.append_left_lt (append_lt_append hlen (padded_lt_padded (by decide) hjk hk) _ _)

/-- The first name of four digits comes before that of number 101, which is greater in the third digit. -/
theorem fileName_overgrown : fileName 1000 < fileName 101 := by decide +kernel

theorem notMem_numbered {c : Char} (k : Nat) (hhead : c ∉ "run_".toList) (hdigit : Text.isDigit c = false) :
    c ∉ "run_".toList ++ (padded 3 k).toList := by
  rw [List.mem_append, not_or]
  refine ⟨hhead, fun hc => ?_⟩
  rw [isDigit_of_mem_padded hc] at hdigit
  cases hdigit

theorem plain_fileName (k : Nat) : Plain (fileName k) := by
  have hhead : (fileName k).toList.head? = some 'r' := by
    rw [toList_fileName]
    rfl
  have hne : ∀ name : String, name.toList.head? ≠ some 'r' → fileName k ≠ name := by
    rintro _ hname rfl
    exact hname hhead
  refine ⟨?_, hne _ (by decide), hne _ (by decide), hne _ (by decide)⟩
  rw [toList_fileName, ← List.append_assoc, List.mem_append, not_or]
  exact ⟨notMem_numbered k (by decide) rfl, by decide⟩

theorem extension_fileName (k : Nat) : Path.extension? (fileName k) = some "shot" := by
  have hsplit : Text.splitAt '.' (fileName k).toList = ["run_".toList ++ (padded 3 k).toList, "shot".toList] := by
    rw [toList_fileName, ← List.append_assoc]
    exact Text.splitAt_append (notMem_numbered k (by decide) rfl) _
  unfold Path.extension?
  rw [hsplit]
  exact if_neg fun h => by cases h.1

variable {r : SyntheticRun} {names : List String}

theorem mem_fileNames {name : String} : name ∈ r.fileNames ↔ ∃ k < r.files, fileName k = name := by
  simp [fileNames]

theorem fileName_mem {k : Nat} (h : k < r.files) : fileName k ∈ r.fileNames := mem_fileNames.2 ⟨k, h, rfl⟩

theorem sorted_fileNames (h : r.files ≤ 1000) : r.fileNames.Pairwise (· < ·) := by
  refine List.pairwise_map.2 (List.pairwise_lt_range.imp_of_mem fun _ hk hjk => ?_)
  exact fileName_lt hjk (Nat.lt_of_lt_of_le (List.mem_range.1 hk) h)

/-! ## Stores -/

/-- Ways to keep the files of a run: in memory, or written to a folder, whatever was on the disk before, and the folder
opened. -/
inductive KeptIn (r : SyntheticRun) : Store → Disk → Prop
  | memory (d : Disk) : r.KeptIn r.store d
  | folder {d d' : Disk} {root : String} {paths : List String} {s : Store}
    (written : (r.writeTo root).run d = (.ok paths, d')) (opened : Store.openFolder d' root = .ok s) : r.KeptIn s d'

/-- Writes files into a folder one after the other. -/
def writeAll (root : String) (files : List (String × ShotFile)) : Disk.Writing (List String) :=
  files.mapM fun (name, f) => do
    let path := Path.join root name
    f.writeTo path
    return path

/-- Files that are written all lie in the folder, and those that lay there still do. -/
theorem hasFile_of_writeAll {root : String} : ∀ {files : List (String × ShotFile)} {d d' : Disk} {paths : List String},
    (writeAll root files).run d = (.ok paths, d') → (∀ e ∈ files, Plain e.1) →
      d'.working = d.working ∧ (∀ l, d.HasFile l → d'.HasFile l) ∧ ∀ e ∈ files, d'.HasFile (d.spell root ++ [e.1])
  | [], d, d', _, h, _ => by
    cases h
    exact ⟨rfl, fun _ => id, fun _ he => by cases he⟩
  | (name, f) :: files, d, d', _, h, hplain => by
    obtain ⟨hname, hfiles⟩ := List.forall_mem_cons.1 hplain
    rw [writeAll, List.mapM_cons] at h
    obtain ⟨path, d₁, hfirst, h⟩ := exists_of_run_bind h
    obtain ⟨rest, d₂, hrest, h⟩ := exists_of_run_bind h
    cases h
    obtain ⟨_, d₃, hwrite, hpure⟩ := exists_of_run_bind hfirst
    cases hpure
    have hreceives := ShotFile.receives_of_writeTo hwrite
    rw [Disk.spell_join hname] at hreceives
    -- the first file stays where it lies while the others are written
    obtain ⟨hworking, hkeep, hall⟩ := hasFile_of_writeAll hrest hfiles
    refine ⟨hworking.trans hreceives.working, fun l hl => hkeep l (hreceives.hasFile hl), ?_⟩
    refine List.forall_mem_cons.2 ⟨hkeep _ ⟨_, hreceives.here⟩, fun e he => ?_⟩
    rw [← Disk.spell_congr hreceives.working]
    exact hall e he

/-- The files are listed in the order of their names. -/
theorem KeptIn.exists_list {s : Store} {d : Disk} (h : r.KeptIn s d) :
    ∃ names, s.list d = .ok names ∧ names.Pairwise (· < ·) ∧ r.fileNames ⊆ names := by
  cases h with
  | memory d =>
    refine ⟨_, rfl, Keyed.sorted_keys _, fun name hname => Keyed.mem_keys_ofList.2 ?_⟩
    obtain ⟨k, hk, rfl⟩ := mem_fileNames.1 hname
    exact List.mem_map.2 ⟨_, List.mem_map_of_mem (List.mem_range.2 hk), rfl⟩
  | @folder d₀ _ root _ _ written opened =>
    obtain ⟨names, hlist, hsorted, hmem⟩ := Store.exists_list_of_openFolder opened
    have hplain : ∀ e ∈ r.generate, Plain e.1 := by
      intro e he
      obtain ⟨k, -, rfl⟩ := List.mem_map.1 he
      exact plain_fileName k
    obtain ⟨hworking, -, hall⟩ := hasFile_of_writeAll written hplain
    refine ⟨names, hlist, hsorted, fun name hname => (hmem name).2 ?_⟩
    obtain ⟨k, hk, rfl⟩ := mem_fileNames.1 hname
    refine ⟨(plain_fileName k).noSlash, extension_fileName k, ?_⟩
    rw [Disk.spell_congr hworking]
    exact hall (fileName k, r.file k) (List.mem_map_of_mem (List.mem_range.2 hk))

/-! ## Shots -/

/-- The shots of the file of a name; other names have none. -/
def shotsOf (r : SyntheticRun) (name : String) : List Int :=
  ((List.range r.files).find? (fileName · == name)).elim [] r.shotIndices

/-- Shots one after the other. -/
def consecutive (first : Int) (count : Nat) : List Int := (List.range count).map fun (k : Nat) => first + (k : Int)

theorem consecutive_add (first : Int) (m n : Nat) :
    consecutive first (m + n) = consecutive first m ++ consecutive (first + (m : Nat)) n := by
  unfold consecutive
  rw [List.range_add, List.map_append, List.map_map]
  congr 1
  refine List.map_congr_left fun k _ => ?_
  simp only [Function.comp_apply]
  omega

theorem sorted_consecutive (first : Int) (count : Nat) : (consecutive first count).Pairwise (· < ·) :=
  List.pairwise_map.2 (List.pairwise_lt_range.imp fun h => Int.add_lt_add_left (Int.ofNat_lt.2 h) first)

/-- The shots of a run are words if the first and the last one are. -/
theorem isInt64_of_mem_shotIndices {index : Nat} {shot : Int} (hfirst : Text.isInt64 r.firstShot = true)
    (hlast : Text.isInt64 (r.firstShot + (r.files * r.shots : Nat) - 1) = true) (hindex : index < r.files)
    (h : shot ∈ r.shotIndices index) : Text.isInt64 shot = true := by
  obtain ⟨k, hk, rfl⟩ := List.mem_map.1 h
  have hcount : (index + 1) * r.shots ≤ r.files * r.shots := Nat.mul_le_mul_right _ hindex
  rw [Nat.succ_mul] at hcount
  have hkept := List.mem_range.1 hk
  rw [Text.isInt64_iff] at hfirst hlast ⊢
  omega

/-- The shots of a file follow those of the files before it. -/
theorem flatMap_shotIndices (r : SyntheticRun) (n : Nat) :
    (List.range n).flatMap r.shotIndices = consecutive r.firstShot (n * r.shots) := by
  induction n with
  | zero => rw [Nat.zero_mul]; rfl
  | succ n ih =>
    rw [List.range_succ, List.flatMap_append, ih, List.flatMap_singleton, Nat.succ_mul, consecutive_add]
    rfl

theorem shotsOf_fileName {k : Nat} (h : k < r.files) : r.shotsOf (fileName k) = r.shotIndices k := by
  have hsome : ((List.range r.files).find? (fileName · == fileName k)).isSome = true :=
    List.find?_isSome.2 ⟨k, List.mem_range.2 h, beq_self_eq_true _⟩
  obtain ⟨j, hj⟩ := Option.isSome_iff_exists.1 hsome
  have hname := List.find?_some hj
  obtain rfl : j = k := fileName_injective (beq_iff_eq.1 hname)
  rw [shotsOf, hj]
  rfl

theorem shotsOf_of_notMem {name : String} (h : name ∉ r.fileNames) : r.shotsOf name = [] := by
  have hnone : (List.range r.files).find? (fileName · == name) = none := by
    rw [List.find?_eq_none]
    intro k hk hname
    exact h (mem_fileNames.2 ⟨k, List.mem_range.1 hk, beq_iff_eq.1 hname⟩)
  rw [shotsOf, hnone]
  rfl

theorem shotsOf_of_noShots (h : r.shots = 0) (name : String) : r.shotsOf name = [] := by
  unfold shotsOf
  cases (List.range r.files).find? (fileName · == name) with
  | none => rfl
  | some k =>
    show r.shotIndices k = []
    rw [shotIndices, h]
    rfl

theorem flatMap_shotsOf_fileNames (r : SyntheticRun) :
    r.fileNames.flatMap r.shotsOf = consecutive r.firstShot (r.files * r.shots) := by
  rw [← flatMap_shotIndices, fileNames, List.flatMap_map]
  exact List.flatMap_congr fun k hk => shotsOf_fileName (List.mem_range.1 hk)

/-! ## Listings -/

/-- The files of the run among those that are listed. -/
def own (r : SyntheticRun) (names : List String) : List String := names.filter (· ∈ r.fileNames)

theorem flatMap_shotsOf_own (r : SyntheticRun) (names : List String) :
    (r.own names).flatMap r.shotsOf = names.flatMap r.shotsOf := by
  induction names with
  | nil => rfl
  | cons name names ih =>
    unfold own at *
    rw [List.filter_cons, List.flatMap_cons, ← ih]
    split
    · rw [List.flatMap_cons]
    · rename_i hname
      rw [shotsOf_of_notMem (by simpa using hname), List.nil_append]

/-- In a list in order, what comes first is related to what comes later. -/
theorem rel_of_lt {R : String → String → Prop} {a b : String} (hR : names.Pairwise R) (hsorted : names.Pairwise (· < ·))
    (ha : a ∈ names) (hb : b ∈ names) (hab : a < b) : R a b := by
  induction names with
  | nil => cases ha
  | cons name names ih =>
    obtain ⟨hfirst, hrest⟩ := List.pairwise_cons.1 hR
    obtain ⟨hbefore, hafter⟩ := List.pairwise_cons.1 hsorted
    rcases List.mem_cons.1 ha with rfl | ha' <;> rcases List.mem_cons.1 hb with rfl | hb'
    · exact absurd hab (String.lt_irrefl _)
    · exact hfirst b hb'
    · exact absurd hab (String.lt_asymm (hbefore a ha'))
    · exact ih hrest hafter ha' hb'

section

variable (hsorted : names.Pairwise (· < ·)) (hall : r.fileNames ⊆ names)

include hsorted hall

/-- Up to a thousand files are listed in the order in which they were made. -/
theorem own_eq_fileNames (hfiles : r.files ≤ 1000) : r.own names = r.fileNames := by
  refine List.Pairwise.eq_of_mem_iff (hsorted.filter _) (sorted_fileNames hfiles) fun name => ?_
  rw [own, List.mem_filter, decide_eq_true_iff]
  exact and_iff_right_of_imp fun h => hall h

/-- Behind a thousand files the shots of one file come before lesser ones. -/
theorem not_consecutive (hfiles : 1000 < r.files) (hshots : 0 < r.shots) :
    names.flatMap r.shotsOf ≠ consecutive r.firstShot (r.files * r.shots) := by
  intro h
  have hordered := List.pairwise_flatMap.1 (h ▸ sorted_consecutive r.firstShot (r.files * r.shots))
  have hfirst : ∀ k < r.files, r.firstShot + (k * r.shots : Nat) ∈ r.shotsOf (fileName k) := by
    intro k hk
    rw [shotsOf_fileName hk]
    exact List.mem_map.2 ⟨0, List.mem_range.2 hshots, Int.add_zero _⟩
  have hlater : 101 < r.files := Nat.lt_trans (by decide) hfiles
  have hlt := rel_of_lt hordered.2 hsorted (hall (fileName_mem hfiles)) (hall (fileName_mem hlater)) fileName_overgrown
    _ (hfirst 1000 hfiles) _ (hfirst 101 hlater)
  have hle : 101 * r.shots ≤ 1000 * r.shots := Nat.mul_le_mul_right _ (by decide)
  omega

/-- The first of the files behind a thousand is not listed behind them. -/
theorem not_appended (hfiles : 1000 < r.files) {before : List String}
    (hbefore : ∀ name, name ∈ before ↔ ∃ k < 1000, fileName k = name) : ¬ before <+: r.own names := by
  rintro ⟨rest, hrest⟩
  have hown : (r.own names).Pairwise (· < ·) := hsorted.filter _
  have hmem : fileName 1000 ∈ r.own names :=
    List.mem_filter.2 ⟨hall (fileName_mem hfiles), decide_eq_true (fileName_mem hfiles)⟩
  rw [← hrest] at hown hmem
  have hin : fileName 101 ∈ before := (hbefore _).2 ⟨101, by decide, rfl⟩
  rcases List.mem_append.1 hmem with hold | hnew
  · obtain ⟨k, hk, hname⟩ := (hbefore _).1 hold
    exact absurd (fileName_injective hname) (Nat.ne_of_lt hk)
  · exact absurd ((List.pairwise_append.1 hown).2.2 _ hin _ hnew) (String.lt_asymm fileName_overgrown)

end

/-- The same run with another number of files. -/
def withFiles (r : SyntheticRun) (files : Nat) : SyntheticRun := { r with files }

theorem fileNames_prefix {fewer : Nat} (h : fewer ≤ r.files) : (r.withFiles fewer).fileNames <+: r.fileNames := by
  have hrange : List.range fewer <+: List.range r.files := by
    rw [← Nat.add_sub_of_le h, List.range_add]
    exact List.prefix_append _ _
  exact hrange.map fileName

theorem KeptIn.own_eq_fileNames {s : Store} {d : Disk} (h : r.KeptIn s d) (hlist : s.list d = .ok names)
    (hfiles : r.files ≤ 1000) : r.own names = r.fileNames := by
  obtain ⟨listed, hlisted, hsorted, hall⟩ := h.exists_list
  obtain rfl : names = listed := Except.ok.inj (hlist.symm.trans hlisted)
  exact SyntheticRun.own_eq_fileNames hsorted hall hfiles

/-- However the files of a run are kept, they are listed in the order of their names. In this order their shots go on
from the first one without gap or repetition exactly if there are a thousand files at most, or no shots; and making more
files, whatever their number was, only adds to the end of the list exactly if there are a thousand files at most. -/
theorem listed_in_shot_order_iff {s : Store} {d : Disk} (h : r.KeptIn s d) :
    ∃ names, s.list d = .ok names ∧ names.Pairwise (· < ·) ∧ r.fileNames ⊆ names ∧
      (names.flatMap r.shotsOf = consecutive r.firstShot (r.files * r.shots) ↔ r.files ≤ 1000 ∨ r.shots = 0) ∧
      ((∀ fewer ≤ r.files, ∀ s' d' names', (r.withFiles fewer).KeptIn s' d' → s'.list d' = .ok names' →
        (r.withFiles fewer).own names' <+: r.own names) ↔ r.files ≤ 1000) := by
  obtain ⟨names, hlist, hsorted, hall⟩ := h.exists_list
  refine ⟨names, hlist, hsorted, hall, ⟨fun hshots => ?_, ?_⟩, fun happended => ?_, fun hfiles => ?_⟩
  · by_contra hnot
    rw [not_or, Nat.not_le] at hnot
    exact not_consecutive hsorted hall hnot.1 (Nat.pos_of_ne_zero hnot.2) hshots
  · rintro (hfiles | hnone)
    · rw [← flatMap_shotsOf_own, own_eq_fileNames hsorted hall hfiles, flatMap_shotsOf_fileNames]
    · rw [List.flatMap_eq_nil_iff.2 fun name _ => shotsOf_of_noShots hnone name, hnone, Nat.mul_zero]
      rfl
  · by_contra hnot
    rw [Nat.not_le] at hnot
    -- a thousand files kept in memory will do
    have hkept : (r.withFiles 1000).KeptIn (r.withFiles 1000).store d := .memory d
    obtain ⟨before, hbefore, -⟩ := hkept.exists_list
    refine not_appended hsorted hall hnot ?_ (happended 1000 hnot.le _ _ before hkept hbefore)
    rw [hkept.own_eq_fileNames hbefore (Nat.le_refl 1000)]
    exact fun name => mem_fileNames
  · intro fewer hfewer s' d' names' hkept hlist'
    rw [hkept.own_eq_fileNames hlist' (hfewer.trans hfiles), own_eq_fileNames hsorted hall hfiles]
    exact fileNames_prefix hfewer

/-- Nine shots in three files. -/
def nineShots : SyntheticRun := { standard with files := 3, shots := 3, firstShot := 500 }

theorem listed_in_shot_order_nineShots :
    ∃ d paths, (nineShots.writeTo "beam/raw").run (Disk.empty ["scratch"]) = (.ok paths, d) ∧
      nineShots.KeptIn (.folder "beam/raw") d ∧
      ∃ names, (Store.folder "beam/raw").list d = .ok names ∧
        names.flatMap nineShots.shotsOf = [500, 501, 502, 503, 504, 505, 506, 507, 508] := by
  have hrun : (match (nineShots.writeTo "beam/raw").run (Disk.empty ["scratch"]) with
      | (.ok _, d) => d.isFolder "beam/raw"
      | (.error _, _) => false) = true := by decide +kernel
  rcases hwritten : (nineShots.writeTo "beam/raw").run (Disk.empty ["scratch"]) with ⟨_ | paths, d⟩
  · rw [hwritten] at hrun
    cases hrun
  · rw [hwritten] at hrun
    have hkept : nineShots.KeptIn (.folder "beam/raw") d := .folder hwritten (if_pos hrun)
    obtain ⟨names, hlist, -, -, hshots, -⟩ := listed_in_shot_order_iff hkept
    exact ⟨d, paths, rfl, hkept, names, hlist, (hshots.2 (.inl (by decide))).trans (by decide)⟩

/-- A thousand and one files with one shot each. -/
def thousandAndOne : SyntheticRun := ⟨1001, 1, 7, 0, ⟨2, 0⟩, ⟨2, 1⟩, 0, 0⟩

/-- The last of them is listed before others, and its shot before theirs. -/
theorem listed_out_of_shot_order : ∃ names, thousandAndOne.store.list (Disk.empty []) = .ok names ∧
    names.flatMap thousandAndOne.shotsOf ≠ consecutive 0 1001 ∧
    ¬ (thousandAndOne.withFiles 1000).fileNames <+: thousandAndOne.own names := by
  obtain ⟨names, hlist, hsorted, hall⟩ := KeptIn.exists_list (.memory (r := thousandAndOne) (Disk.empty []))
  have hmany : 1000 < thousandAndOne.files := by decide
  exact ⟨names, hlist,
    not_consecutive hsorted hall hmany (by decide), not_appended hsorted hall hmany fun _ => mem_fileNames⟩

end ShotTally.SyntheticRun
