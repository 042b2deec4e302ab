/-
What making folders and writing a file leave as it was: folders stay folders, and no file comes or
goes but the one that is written, which lies where its path is spelled.
-/
import ShotTally.Proofs.Disk.Location
import ShotTally.Proofs.Outcome

namespace ShotTally

open ShotTally.Path (Plain)

/-! ## Paths taken apart -/

namespace Path

theorem segments_append (base child : String) : segments (base ++ "/" ++ child) = segments base ++ segments child := by
  have hl : (base ++ "/" ++ child).toList = base.toList ++ '/' :: child.toList := by simp
  unfold segments
  rw [hl, Text.splitAt_separated, List.map_append]

theorem segments_of_noSlash {name : String} (h : '/' ∉ name.toList) : segments name = [name] := by
  simp [segments, Text.splitAt_of_notMem h]

theorem isAbsolute_append {base : String} (h : base ≠ "") (rest : String) :
    isAbsolute (base ++ rest) = isAbsolute base := by
  unfold isAbsolute
  rw [String.toList_append]
  rcases hb : base.toList with _ | ⟨c, cs⟩
  · exact absurd (String.toList_eq_nil_iff.1 hb) h
  · rfl

end Path

namespace Disk

variable {d d' : Disk} {path : String} {location place : List String} {bytes : List UInt8}

/-! ## Where paths lead -/

/-- One step along a path by its letters alone. -/
def descend (location : List String) (s : String) : List String :=
  if s = "" ∨ s = "." then location
  else if s = ".." then location.dropLast
  else location ++ [s]

theorem spell_eq (d : Disk) (path : String) : d.spell path = (Path.segments path).foldl descend (d.origin path) := rfl

theorem descend_plain {name : String} (h : Plain name) (location : List String) :
    descend location name = location ++ [name] := by
  have hstay : ¬ (name = "" ∨ name = ".") := fun he => he.elim h.notEmpty h.notHere
  rw [descend, if_neg hstay, if_neg h.notUp]

/-- The spelling of a path only depends on the working folder. -/
theorem spell_congr (h : d'.working = d.working) (path : String) : d'.spell path = d.spell path := by
  rw [spell_eq, spell_eq, origin, origin, h]

/-- From the top of the disk a path of plain names is spelled by these names. -/
theorem spell_plain (hw : d.working = []) {names : List String} (hne : names ≠ []) (h : ∀ n ∈ names, Plain n) :
    d.spell ("/".intercalate names) = names := by
  have hfold : ∀ (l location : List String), (∀ n ∈ l, Plain n) → l.foldl descend location = location ++ l := by
    intro l
    induction l with
    | nil => exact fun location _ => (List.append_nil location).symm
    | cons n l ih =>
      intro location hl
      rw [List.foldl_cons, descend_plain (hl n List.mem_cons_self), ih _ fun m hm => hl m (List.mem_cons_of_mem n hm),
        List.append_assoc]
      rfl
  rw [spell_eq, origin, Path.isAbsolute_intercalate h, Path.segments_intercalate hne fun n hn => (h n hn).noSlash, hw]
  exact hfold names [] h

/-- What is under a base is spelled under the spelling of the base. -/
theorem spell_join {child : String} (hc : Plain child) (base : String) :
    d.spell (Path.join base child) = d.spell base ++ [child] := by
  have hchild := Path.segments_of_noSlash hc.noSlash
  have habs := Path.isAbsolute_of_noSlash hc.noSlash
  unfold Path.join
  by_cases hempty : base = ""
  · rw [if_pos (.inr hempty), hempty, spell_eq, spell_eq, hchild, origin, habs]
    exact descend_plain hc _
  rw [if_neg (by simp [habs, hempty])]
  -- the child comes after segments that lead where the base leads
  have hunder : ∀ rest front, Path.segments (base ++ rest) = front ++ [child] →
      front.foldl descend (d.origin base) = d.spell base → d.spell (base ++ rest) = d.spell base ++ [child] := by
    intro rest front hsegments hfront
    rw [spell_eq, origin, Path.isAbsolute_append hempty, hsegments, List.foldl_append]
    exact (congrArg (descend · child) hfront).trans (descend_plain hc _)
  split
  · rename_i hlast
    obtain ⟨before, hbefore⟩ := List.getLast?_eq_some_iff.1 hlast
    have hbase : ∀ rest, base ++ rest = String.ofList before ++ "/" ++ rest := fun rest =>
      String.toList_injective (by simp [hbefore])
    refine hunder child (Path.segments (String.ofList before)) (by rw [hbase, Path.segments_append, hchild]) ?_
    have hsegments : Path.segments base = Path.segments (String.ofList before) ++ [""] := by
      rw [← String.append_empty (s := base), hbase, Path.segments_append]
      rfl
    rw [spell_eq, hsegments, List.foldl_append, List.foldl_cons, descend, if_pos (.inl rfl), List.foldl_nil]
  · rw [String.append_assoc]
    exact hunder _ (Path.segments base) (by rw [← String.append_assoc, Path.segments_append, hchild]) rfl

theorem walk_eq_some : ∀ {segments location : List String}, d.walk location segments = some place →
    place = segments.foldl descend location
  | [], _, h => (Option.some.inj h).symm
  | s :: segments, location, h => by
    unfold walk at h
    rw [List.foldl_cons, descend]
    split at h
    · split at h
      · rw [if_pos ‹_›]
        exact walk_eq_some h
      · rw [if_neg ‹_›]
        split at h
        · rw [if_pos ‹_›]
          exact walk_eq_some h
        · rw [if_neg ‹_›]
          exact walk_eq_some h
    · cases h

/-- A path leads where it is spelled, if anywhere. -/
theorem eq_spell_of_locate (h : d.locate path = some place) : place = d.spell path := by
  unfold locate at h
  split at h
  · cases h
  · exact walk_eq_some h

/-- A way is there as long as its folders are. -/
theorem walk_mono (hf : ∀ l, d.at? l = some .folder → d'.at? l = some .folder) : ∀ {segments location : List String},
    d.walk location segments = some place → d'.walk location segments = some place
  | [], _, h => h
  | s :: segments, location, h => by
    unfold walk at h ⊢
    split at h
    · rw [if_pos (isFolderAt_iff.2 (hf _ (isFolderAt_iff.1 ‹_›)))]
      split at h
      · rw [if_pos ‹_›]
        exact walk_mono hf h
      · rw [if_neg ‹_›]
        split at h
        · rw [if_pos ‹_›]
          exact walk_mono hf h
        · rw [if_neg ‹_›]
          exact walk_mono hf h
    · cases h

theorem locate_mono (hw : d'.working = d.working) (hf : ∀ l, d.at? l = some .folder → d'.at? l = some .folder)
    (h : d.locate path = some place) : d'.locate path = some place := by
  unfold locate at *
  split at h
  · cases h
  · rw [if_neg ‹_›, origin, hw]
    exact walk_mono hf h

theorem read?_eq_some : d.read? path = some bytes ↔
    d.locate path = some (d.spell path) ∧ d.at? (d.spell path) = some (.file bytes) := by
  unfold read? find?
  constructor
  · intro h
    rcases hl : d.locate path with _ | l
    · simp [hl] at h
    · rw [← eq_spell_of_locate hl]
      refine ⟨rfl, ?_⟩
      rw [hl, Option.bind_some] at h
      split at h
      · cases h
        assumption
      · cases h
  · rintro ⟨hl, hat⟩
    rw [hl, Option.bind_some, hat]

/-! ## Changes -/

/-- Locations that differ in their last name have different names. -/
theorem key_concat_inj {location : List String} {name name' : String}
    (h : key (location ++ [name]) = key (location ++ [name'])) : name = name' := by
  unfold key at h
  rcases location with _ | ⟨first, rest⟩
  · simpa using h
  · rw [String.intercalate_append_of_ne_nil (List.cons_ne_nil _ _) (List.cons_ne_nil _ _),
      String.intercalate_append_of_ne_nil (List.cons_ne_nil _ _) (List.cons_ne_nil _ _)] at h
    simpa using h

/-- Locations of one name hold the same, apart from the root. -/
theorem at?_congr {l l' : List String} (hne : l ≠ []) (hne' : l' ≠ []) (hk : key l = key l') : d.at? l = d.at? l' := by
  unfold at?
  rw [if_neg (by simpa using hne), if_neg (by simpa using hne'), hk]

theorem at?_put_of_ne_nil {l : List String} (hne : l ≠ []) (place : List String) (e : Entry) :
    (d.put place e).at? l = if key l = key place then some e else d.at? l := by
  have hempty : ¬ l.isEmpty = true := by simpa using hne
  unfold at?
  rw [if_neg hempty, if_neg hempty]
  exact Keyed.get?_insert d.entries (key place) (key l) e

/-- A file was put at a place, and folders may have been made; all else is as it was. -/
structure Receives (d : Disk) (place : List String) (bytes : List UInt8) (d' : Disk) : Prop where
  working : d'.working = d.working
  folders : ∀ l, d.at? l = some .folder → d'.at? l = some .folder
  here : d'.at? place = some (.file bytes)
  elsewhere : ∀ l, key l ≠ key place → ∀ b, d'.at? l = some (.file b) ↔ d.at? l = some (.file b)

/-- Folders may have been made. -/
structure Furnished (d d' : Disk) : Prop where
  working : d'.working = d.working
  folders : ∀ l, d.at? l = some .folder → d'.at? l = some .folder
  files : ∀ l b, d'.at? l = some (.file b) ↔ d.at? l = some (.file b)

theorem Furnished.refl (d : Disk) : d.Furnished d := ⟨rfl, fun _ h => h, fun _ _ => .rfl⟩

theorem Furnished.trans {d'' : Disk} (h : d.Furnished d') (h' : d'.Furnished d'') : d.Furnished d'' :=
  ⟨h'.working.trans h.working, fun l hl => h'.folders l (h.folders l hl), fun l b => (h'.files l b).trans (h.files l b)⟩

/-- A folder where there was nothing. -/
theorem furnished_put (h : d.at? place = none) : d.Furnished (d.put place .folder) := by
  have hne : place ≠ [] := by
    rintro rfl
    cases h
  -- two ways to spell one place lead to the same entry, which is none
  have hnone : ∀ l, l ≠ [] → key l = key place → d.at? l = none := fun l hl hk => (at?_congr hl hne hk).trans h
  refine ⟨rfl, fun l hl => ?_, fun l b => ?_⟩
  · rcases eq_or_ne l [] with rfl | hl'
    · rfl
    · rw [at?_put_of_ne_nil hl', if_neg]
      · exact hl
      · intro hk
        rw [hnone l hl' hk] at hl
        cases hl
  · rcases eq_or_ne l [] with rfl | hl'
    · rfl
    · rw [at?_put_of_ne_nil hl']
      split
      · rename_i hk
        simp [hnone l hl' hk]
      · exact .rfl

theorem furnished_of_makeFrom {d' : Disk} : ∀ {segments location : List String} {d : Disk},
    d.makeFrom location segments = some d' → d.Furnished d'
  | [], _, d, h => by
    rw [← Option.some.inj h]
    exact .refl d
  | s :: segments, location, d, h => by
    unfold makeFrom at h
    split at h
    · exact furnished_of_makeFrom h
    split at h
    · exact furnished_of_makeFrom h
    dsimp only at h
    split at h
    · exact furnished_of_makeFrom h
    · cases h
    · rename_i hnone
      exact (furnished_put hnone).trans (furnished_of_makeFrom h)

theorem furnished_of_makeFolders (h : d.makeFolders? path = some d') : d.Furnished d' := furnished_of_makeFrom h

theorem write?_eq_some : d.write? path bytes = some d' ↔ ∃ place, d.locate path = some place ∧
    d.at? place ≠ some .folder ∧ d.at? place.dropLast = some .folder ∧ d' = d.put place (.file bytes) := by
  unfold write?
  constructor
  · intro h
    obtain ⟨place, hplace, h⟩ := Option.bind_eq_some_iff.1 h
    split at h
    · cases h
    split at h
    · rename_i hfree hfolder
      exact ⟨place, hplace, fun hf => hfree (isFolderAt_iff.2 hf), isFolderAt_iff.1 hfolder, (Option.some.inj h).symm⟩
    · cases h
  · rintro ⟨place, hplace, hfree, hfolder, rfl⟩
    refine Option.bind_eq_some_iff.2 ⟨place, hplace, ?_⟩
    rw [if_neg fun hf => hfree (isFolderAt_iff.1 hf), if_pos (isFolderAt_iff.2 hfolder)]
    rfl

/-- A file that is written lies where its path is spelled. -/
theorem receives_of_write (h : d.write? path bytes = some d') : d.Receives (d.spell path) bytes d' := by
  obtain ⟨place, hplace, hfree, -, rfl⟩ := write?_eq_some.1 h
  rw [← eq_spell_of_locate hplace]
  have hne : place ≠ [] := by
    rintro rfl
    exact hfree rfl
  refine ⟨rfl, fun l hl => ?_, ?_, fun l hk b => ?_⟩
  · rcases eq_or_ne l [] with rfl | hl'
    · rfl
    · rw [at?_put_of_ne_nil hl', if_neg, hl]
      exact fun hk => hfree ((at?_congr hne hl' hk.symm).trans hl)
  · rw [at?_put_of_ne_nil hne, if_pos rfl]
  · rcases eq_or_ne l [] with rfl | hl'
    · rfl
    · rw [at?_put_of_ne_nil hl', if_neg hk]

/-- A file that was written is read. -/
theorem read?_of_write (h : d.write? path bytes = some d') : d'.read? path = some bytes := by
  have hreceives := receives_of_write h
  obtain ⟨place, hplace, -⟩ := write?_eq_some.1 h
  rw [read?_eq_some, spell_congr hreceives.working, locate_mono hreceives.working hreceives.folders hplace,
    eq_spell_of_locate hplace]
  exact ⟨rfl, eq_spell_of_locate hplace ▸ hreceives.here⟩

theorem Furnished.receives {d'' : Disk} (h : d.Furnished d') (h' : d'.Receives place bytes d'') :
    d.Receives place bytes d'' :=
  ⟨h'.working.trans h.working, fun l hl => h'.folders l (h.folders l hl), h'.here,
    fun l hk b => (h'.elsewhere l hk b).trans (h.files l b)⟩

/-- Files at other places are read as before. -/
theorem Receives.read?_of_ne (h : d.Receives place bytes d') {b : List UInt8} (hr : d.read? path = some b)
    (hk : key (d.spell path) ≠ key place) : d'.read? path = some b := by
  obtain ⟨hl, hat⟩ := read?_eq_some.1 hr
  rw [read?_eq_some, spell_congr h.working]
  exact ⟨locate_mono h.working h.folders hl, (h.elsewhere _ hk b).2 hat⟩

/-! ## Work that succeeds -/

namespace Writing

variable {report : Report}

theorem makeFolders_of_run (h : (makeFolders path report).run d = (.ok (), d')) : d.makeFolders? path = some d' := by
  obtain ⟨d₀, d₁, hget, h⟩ := exists_of_run_bind h
  cases hget
  rcases hm : d.makeFolders? path with _ | d₁ <;> rw [hm] at h <;> cases h
  rfl

theorem write_of_run (h : (write path bytes report).run d = (.ok (), d')) : d.write? path bytes = some d' := by
  obtain ⟨d₀, d₁, hget, h⟩ := exists_of_run_bind h
  cases hget
  rcases hm : d.write? path bytes with _ | d₁ <;> rw [hm] at h <;> cases h
  rfl

end Writing
end Disk
end ShotTally
