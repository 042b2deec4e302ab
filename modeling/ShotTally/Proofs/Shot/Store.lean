/-
Shot files in a folder. A file that is written lies where its path is spelled, and where files lay before there still are
files. What a folder lists are the names of the files in it that end like shot files, in order.
-/
import ShotTally.Proofs.Disk.Writing
import ShotTally.Shot.Store

namespace ShotTally

/-! ## Entries of a folder -/

namespace Disk

variable {d : Disk} {location : List String} {name : String} {e : Entry}

/-- Some file lies at the location. -/
def HasFile (d : Disk) (location : List String) : Prop := ∃ bytes, d.at? location = some (.file bytes)

/-- Where a file lay one lies after another was written, this one or the other. -/
theorem Receives.hasFile {d' : Disk} {place : List String} {bytes : List UInt8} (h : d.Receives place bytes d')
    (hfile : d.HasFile location) : d'.HasFile location := by
  obtain ⟨old, hold⟩ := hfile
  have hne : ∀ {d : Disk} {l : List String} {b : List UInt8}, d.at? l = some (.file b) → l ≠ [] := by
    rintro d l b hat rfl
    cases hat
  by_cases hk : key location = key place
  · exact ⟨bytes, (at?_congr (hne hold) (hne h.here) hk).trans h.here⟩
  · exact ⟨old, (h.elsewhere _ hk old).2 hold⟩

/-- How the locations in a folder begin. -/
def above (location : List String) : List Char := if location.isEmpty then [] else (key location ++ "/").toList

theorem toList_key_concat (location : List String) (name : String) :
    (key (location ++ [name])).toList = above location ++ name.toList := by
  unfold key above
  rcases location with _ | ⟨first, rest⟩
  · exact congrArg String.toList (String.intercalate_singleton)
  · rw [String.intercalate_append_of_ne_nil (List.cons_ne_nil _ _) (List.cons_ne_nil _ _), String.intercalate_singleton,
      String.toList_append]
    rfl

/-- The entry of a folder that an entry of the disk is. -/
def child (location : List String) (entry : String × Entry) : Option (String × Entry) :=
  if (above location).isPrefixOf entry.1.toList then
    let name := entry.1.toList.drop (above location).length
    if name.contains '/' then none else some (String.ofList name, entry.2)
  else none

theorem children_eq (d : Disk) (location : List String) :
    d.children location = d.entries.entries.filterMap (child location) := rfl

theorem child_eq_some {entry : String × Entry} :
    child location entry = some (name, e) ↔ '/' ∉ name.toList ∧ entry = (key (location ++ [name]), e) := by
  obtain ⟨k, e'⟩ := entry
  unfold child
  constructor
  -- the key begins with the folder, and the rest of it is one name
  · intro h
    split at h
    · rename_i hprefix
      obtain ⟨rest, hrest⟩ := List.isPrefixOf_iff_prefix.1 hprefix
      dsimp only at hrest h
      rw [← hrest, List.drop_left] at h
      split at h
      · cases h
      · rename_i hslash
        cases h
        refine ⟨by simpa using hslash, Prod.ext (String.toList_injective ?_) rfl⟩
        rw [toList_key_concat, String.toList_ofList, hrest]
    · cases h
  · rintro ⟨hslash, hentry⟩
    cases hentry
    dsimp only
    rw [toList_key_concat, if_pos (List.isPrefixOf_iff_prefix.2 (List.prefix_append _ _)), List.drop_left,
      if_neg (by simpa using hslash), String.ofList_toList]

theorem mem_children : (name, e) ∈ d.children location ↔ '/' ∉ name.toList ∧ d.at? (location ++ [name]) = some e := by
  have hat : d.at? (location ++ [name]) = d.entries.get? (key (location ++ [name])) := if_neg (by simp)
  rw [children_eq, List.mem_filterMap, hat, Keyed.get?_eq_some]
  constructor
  · rintro ⟨entry, hentry, hchild⟩
    obtain ⟨hslash, rfl⟩ := child_eq_some.1 hchild
    exact ⟨hslash, hentry⟩
  · rintro ⟨hslash, hentry⟩
    exact ⟨_, hentry, child_eq_some.2 ⟨hslash, rfl⟩⟩

/-- Locations in one folder have the order of their names. -/
theorem lt_of_key_lt {name' : String} (h : key (location ++ [name]) < key (location ++ [name'])) : name < name' := by
  rw [String.lt_iff, toList_key_concat, toList_key_concat] at h
  rcases Std.lt_trichotomy name name' with hlt | rfl | hgt
  · exact hlt
  · exact absurd h (List.lt_irrefl _)
  · exact absurd (List.append_left_lt (String.lt_iff.1 hgt)) (List.lt_asymm h)

theorem sorted_children (d : Disk) (location : List String) : (d.children location).Pairwise fun a b => a.1 < b.1 := by
  rw [children_eq, List.pairwise_filterMap]
  refine d.entries.sorted.imp fun {entry entry'} hlt a ha b hb => ?_
  obtain ⟨-, rfl⟩ := child_eq_some.1 ha
  obtain ⟨-, rfl⟩ := child_eq_some.1 hb
  exact lt_of_key_lt hlt

end Disk

/-! ## Writing a file -/

/-- A shot file that is written lies where its path is spelled. -/
theorem ShotFile.receives_of_writeTo {f : ShotFile} {path : String} {d d' : Disk}
    (h : (f.writeTo path).run d = (.ok (), d')) : d.Receives (d.spell path) f.toBytes d' := by
  unfold writeTo at h
  split at h
  · obtain ⟨_, d₁, hpure, hwrite⟩ := exists_of_run_bind h
    cases hpure
    exact Disk.receives_of_write (Disk.Writing.write_of_run hwrite)
  · obtain ⟨_, d₁, hmake, hwrite⟩ := exists_of_run_bind h
    have hfurnished := Disk.furnished_of_makeFolders (Disk.Writing.makeFolders_of_run hmake)
    have hreceives := Disk.receives_of_write (Disk.Writing.write_of_run hwrite)
    rw [← Disk.spell_congr hfurnished.working]
    exact hfurnished.receives hreceives

/-! ## Names of files -/

namespace Store

variable {d : Disk} {s : Store} {root : String}

/-- The name of an entry of a folder that is a shot file. -/
def shotName (entry : String × Entry) : Option String :=
  match entry.2 with
  | .file _ => if Path.extension? entry.1 = some "shot" then some entry.1 else none
  | .folder => none

theorem shotName_eq_some {entry : String × Entry} {name : String} :
    shotName entry = some name ↔ Path.extension? name = some "shot" ∧ ∃ bytes, entry = (name, .file bytes) := by
  obtain ⟨n, bytes | _⟩ := entry
  · simp only [shotName, Option.ite_none_right_eq_some, Option.some.injEq, Prod.mk.injEq, Entry.file.injEq]
    constructor
    · rintro ⟨hext, rfl⟩
      exact ⟨hext, bytes, rfl, rfl⟩
    · rintro ⟨hext, -, rfl, -⟩
      exact ⟨hext, rfl⟩
  · simp [shotName]

theorem sorted_shotNames (d : Disk) (location : List String) :
    ((d.children location).filterMap shotName).Pairwise (· < ·) := by
  rw [List.pairwise_filterMap]
  refine (d.sorted_children location).imp fun {entry entry'} hlt name hname name' hname' => ?_
  obtain ⟨-, _, rfl⟩ := shotName_eq_some.1 hname
  obtain ⟨-, _, rfl⟩ := shotName_eq_some.1 hname'
  exact hlt

/-- A folder that was opened is listed: the files in it that end like shot files, in order. -/
theorem exists_list_of_openFolder (h : openFolder d root = .ok s) : ∃ names, s.list d = .ok names ∧
    names.Pairwise (· < ·) ∧ ∀ name, name ∈ names ↔ '/' ∉ name.toList ∧ Path.extension? name = some "shot" ∧
      d.HasFile (d.spell root ++ [name]) := by
  unfold openFolder at h
  split at h
  · rename_i hfolder
    cases h
    obtain ⟨location, hlocate, hat⟩ := Option.bind_eq_some_iff.1 (beq_iff_eq.1 hfolder)
    obtain rfl := Disk.eq_spell_of_locate hlocate
    refine ⟨(d.children (d.spell root)).filterMap shotName, ?_, sorted_shotNames d _, fun name => ?_⟩
    · simp only [list, hlocate, hat]
      rfl
    · rw [List.mem_filterMap]
      constructor
      · rintro ⟨entry, hentry, hname⟩
        obtain ⟨hext, bytes, rfl⟩ := shotName_eq_some.1 hname
        obtain ⟨hslash, hat⟩ := Disk.mem_children.1 hentry
        exact ⟨hslash, hext, bytes, hat⟩
      · rintro ⟨hslash, hext, bytes, hat⟩
        exact ⟨_, Disk.mem_children.2 ⟨hslash, hat⟩, shotName_eq_some.2 ⟨hext, bytes, rfl⟩⟩
  · cases h

end Store
end ShotTally
