/-
Components of paths. However a path is spelled, joining a plain name to it adds one component to it, and its parent has
its components but the last one. A path of one name has the empty path for its parent.
-/
import ShotTally.Proofs.Disk.Writing

namespace ShotTally.Path

/-! ## Segments and components -/

/-- The segments that lead somewhere. -/
def named (l : List String) : List String := l.filter fun s => s != "" && s != "."

/-- Where the first segment of a path leads. -/
def lead (path first : String) : List String :=
  if isAbsolute path then ["/"] else if first = "." then ["."] else named [first]

theorem named_append (l m : List String) : named (l ++ m) = named l ++ named m := List.filter_append l m

theorem named_singleton {name : String} (h : name ≠ "") (h' : name ≠ ".") : named [name] = [name] := by
  simp [named, h, h']

theorem noSlash_of_mem_segments {path s : String} (h : s ∈ segments path) : '/' ∉ s.toList := by
  obtain ⟨part, hpart, rfl⟩ := List.mem_map.1 h
  rw [String.toList_ofList]
  exact Text.notMem_of_mem_splitAt hpart

/-- A path starts with a segment. That of an absolute path is empty and not the only one. -/
theorem exists_segments (path : String) : ∃ first rest, segments path = first :: rest ∧
    (isAbsolute path = true ↔ first = "" ∧ rest ≠ []) ∧ (path = "" ↔ first = "" ∧ rest = []) := by
  unfold segments isAbsolute
  rw [← String.toList_eq_nil_iff]
  rcases path.toList with _ | ⟨c, cs⟩
  · exact ⟨"", [], rfl, by simp⟩
  · obtain ⟨part, rest, hsplit⟩ := Text.exists_splitAt '/' cs
    rw [Text.splitAt, hsplit]
    by_cases hc : c = '/'
    · exact ⟨"", (part :: rest).map String.ofList, by simp [hc], by simp [hc]⟩
    · exact ⟨String.ofList (c :: part), rest.map String.ofList, by simp [hc], by simp [hc]⟩

section

variable {path first : String} {rest : List String}

theorem isAbsolute_iff (h : segments path = first :: rest) : isAbsolute path = true ↔ first = "" ∧ rest ≠ [] := by
  obtain ⟨_, _, h', habs, -⟩ := exists_segments path
  rw [h] at h'
  cases h'
  exact habs

theorem eq_empty_iff (h : segments path = first :: rest) : path = "" ↔ first = "" ∧ rest = [] := by
  obtain ⟨_, _, h', -, hempty⟩ := exists_segments path
  rw [h] at h'
  cases h'
  exact hempty

theorem components_eq (h : segments path = first :: rest) : components path = lead path first ++ named rest := by
  unfold components lead
  rw [h]
  dsimp only
  split
  · rfl
  · split
    · rfl
    · exact named_append [first] rest

/-- The first segment of a relative path is one of its components. -/
theorem lead_of_relative (hrel : isAbsolute path = false) (hne : first ≠ "") : lead path first = [first] := by
  unfold lead
  rw [hrel, if_neg Bool.false_ne_true]
  split
  · rename_i hhere
    rw [hhere]
  · exact named_singleton hne ‹_›

theorem components_ne_nil (h : path ≠ "") : components path ≠ [] := by
  obtain ⟨first, rest, hseg, habs, hempty⟩ := exists_segments path
  rw [components_eq hseg]
  by_cases ha : isAbsolute path = true
  · rw [lead, if_pos ha]
    exact List.cons_ne_nil _ _
  · have hfirst : first ≠ "" := fun hf =>
      ha (habs.2 ⟨hf, fun hr => h (hempty.2 ⟨hf, hr⟩)⟩)
    rw [lead_of_relative (Bool.eq_false_iff.2 ha) hfirst]
    exact List.cons_ne_nil _ _

end

/-! ## Joined paths -/

/-- Behind a slash the segments of the rest lead on, from the root where nothing comes before the slash. -/
theorem components_append (base rest : String) :
    components (base ++ "/" ++ rest) = (if base = "" then ["/"] else components base) ++ named (segments rest) := by
  obtain ⟨first, others, hseg, -, hempty⟩ := exists_segments base
  have hall : segments (base ++ "/" ++ rest) = first :: (others ++ segments rest) := by
    rw [segments_append, hseg, List.cons_append]
  rw [components_eq hall, named_append, ← List.append_assoc]
  split
  · rename_i hbase
    obtain ⟨-, rfl⟩ := hempty.1 hbase
    have habs : isAbsolute (base ++ "/" ++ rest) = true := by
      rw [hbase]
      simp [isAbsolute]
    rw [lead, if_pos habs]
    rfl
  · rename_i hbase
    rw [components_eq hseg, lead, lead, String.append_assoc, isAbsolute_append hbase]

theorem components_plain {name : String} (h : Plain name) : components name = [name] := by
  rw [components_eq (segments_of_noSlash h.noSlash),
    lead_of_relative (isAbsolute_of_noSlash h.noSlash) h.notEmpty]
  rfl

theorem components_join (base : String) {child : String} (hc : Plain child) :
    components (join base child) = components base ++ [child] := by
  have hchild : named (segments child) = [child] := by
    rw [segments_of_noSlash hc.noSlash, named_singleton hc.notEmpty hc.notHere]
  unfold join
  by_cases hbase : base = ""
  · rw [if_pos (.inr hbase), hbase, components_plain hc]
    rfl
  rw [if_neg (by simp [isAbsolute_of_noSlash hc.noSlash, hbase])]
  split
  · rename_i hlast
    obtain ⟨before, hbefore⟩ := List.getLast?_eq_some_iff.1 hlast
    have hspell : ∀ rest, base ++ rest = String.ofList before ++ "/" ++ rest := fun rest =>
      String.toList_injective (by simp [hbefore])
    -- a slash at the end of the base only adds an empty segment
    have hself := hspell ""
    rw [String.append_empty] at hself
    rw [hspell, hself, components_append, components_append, hchild]
    exact (congrArg (· ++ [child]) (List.append_nil _)).symm
  · rw [components_append, if_neg hbase, hchild]

theorem components_foldl_join {names : List String} (h : ∀ n ∈ names, Plain n) (base : String) :
    components (names.foldl join base) = components base ++ names := by
  induction names generalizing base with
  | nil => exact (List.append_nil _).symm
  | cons n names ih =>
    obtain ⟨hn, hnames⟩ := List.forall_mem_cons.1 h
    rw [List.foldl_cons, ih hnames, components_join base hn, List.append_assoc, List.singleton_append]

/-! ## Parents -/

/-- Where a path starts that leads nowhere else. -/
def root (path : String) : List String := if isAbsolute path then ["/"] else []

theorem named_trimmed (l : List String) : named (trimmed l) = named l := by
  induction l with
  | nil => rfl
  | cons s l ih =>
    unfold trimmed at *
    rw [List.dropWhile_cons]
    split
    · rename_i hs
      rw [ih, named, named, List.filter_cons_of_neg (by simpa [imp_iff_not_or] using hs)]
    · rfl

theorem trimmed_subset (l : List String) : trimmed l ⊆ l := (List.dropWhile_suffix _).subset

section

variable {rest before : List String} {s : String}

theorem named_eq_nil (h : trimmed rest.reverse = []) : named rest = [] := by
  have hnamed := named_trimmed rest.reverse
  rw [h, named, named, List.filter_reverse] at hnamed
  exact List.reverse_eq_nil_iff.1 hnamed.symm

theorem named_cons_of_trimmed {l : List String} (h : trimmed l = s :: before) :
    named (s :: before) = s :: named before := by
  induction l with
  | nil => cases h
  | cons a l ih =>
    unfold trimmed at *
    rw [List.dropWhile_cons] at h
    split at h
    · exact ih h
    · rename_i ha
      cases h
      exact List.filter_cons_of_pos (by simpa using ha)

/-- The last segment that leads somewhere, and those before it. -/
theorem named_eq_append (h : trimmed rest.reverse = s :: before) :
    named rest = named (trimmed before).reverse ++ [s] := by
  have hnamed : s :: named before = named rest.reverse := by
    rw [← named_cons_of_trimmed h, ← h, named_trimmed]
  have hback := congrArg List.reverse hnamed
  rw [List.reverse_cons, ← named_trimmed before] at hback
  simpa [named] using hback.symm

theorem subset_of_trimmed (h : trimmed rest.reverse = s :: before) : (trimmed before).reverse ⊆ rest := by
  intro n hn
  have hmem : n ∈ trimmed rest.reverse := by
    rw [h]
    exact List.mem_cons_of_mem _ (trimmed_subset _ (List.mem_reverse.1 hn))
  exact List.mem_reverse.1 (trimmed_subset _ hmem)

/-- Some segments of a path behind its first one, joined again. -/
theorem segments_of_subset {path first : String} {kept : List String} (h : segments path = first :: rest)
    (hkept : kept ⊆ rest) : segments ("/".intercalate (first :: kept)) = first :: kept := by
  refine segments_intercalate (List.cons_ne_nil _ _) fun n hn => ?_
  have hmem : n ∈ segments path := by
    rw [h]
    exact (List.mem_cons.1 hn).elim (fun he => he ▸ List.mem_cons_self) fun hn => List.mem_cons_of_mem _ (hkept hn)
  exact noSlash_of_mem_segments hmem

end

/-- The root has no parent, the parent of a single component is the empty path, and that of any other path has its
components but the last one. -/
theorem parent_cases (path : String) :
    (parent? path = none ∧ components path = root path) ∨
    (parent? path = some "" ∧ ∃ last, components path = [last]) ∨
    ∃ p last, p ≠ "" ∧ parent? path = some p ∧ components path = components p ++ [last] := by
  obtain ⟨first, rest, hseg, habs, -⟩ := exists_segments path
  rw [components_eq hseg]
  unfold parent?
  rw [hseg]
  dsimp only
  rcases htrim : trimmed rest.reverse with _ | ⟨s, before⟩
  · rw [named_eq_nil htrim]
    by_cases hfirst : first = ""
    · refine .inl ⟨if_pos hfirst, ?_⟩
      unfold lead root
      rw [hfirst]
      split <;> rfl
    · refine .inr (.inl ⟨if_neg hfirst, first, ?_⟩)
      rw [lead_of_relative (Bool.eq_false_iff.2 fun ha => hfirst (habs.1 ha).1) hfirst]
      rfl
  · dsimp only [Option.map_some]
    have hlast := named_eq_append htrim
    have hkept := subset_of_trimmed htrim
    generalize (trimmed before).reverse = kept at hlast hkept ⊢
    have hrest : rest ≠ [] := by
      rintro rfl
      cases htrim
    have hsegments := segments_of_subset hseg hkept
    refine .inr (.inr ?_)
    rw [hlast, ← List.append_assoc]
    -- what is left of a path right below the root is spelled as the root, not as the empty path
    by_cases hroot : "/".intercalate (first :: kept) = "" ∧ isAbsolute path = true
    · obtain ⟨-, rfl⟩ := (eq_empty_iff hsegments).1 hroot.1
      refine ⟨"/", s, by decide, by rw [if_pos hroot], ?_⟩
      rw [lead, if_pos hroot.2]
      rfl
    · have hne : "/".intercalate (first :: kept) ≠ "" := fun hempty =>
        hroot ⟨hempty, habs.2 ⟨((eq_empty_iff hsegments).1 hempty).1, hrest⟩⟩
      have hsame : isAbsolute ("/".intercalate (first :: kept)) = isAbsolute path := by
        rw [Bool.eq_iff_iff, isAbsolute_iff hsegments, habs]
        refine and_congr_right fun hfirst => iff_of_true (fun hkept => ?_) hrest
        exact hne ((eq_empty_iff hsegments).2 ⟨hfirst, hkept⟩)
      refine ⟨_, s, hne, by rw [if_neg hroot], ?_⟩
      rw [components_eq hsegments, lead, lead, hsame]

end ShotTally.Path
