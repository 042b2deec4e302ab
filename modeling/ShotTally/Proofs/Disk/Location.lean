/-
Locations on the disk: names without slashes make up paths that are taken apart into the same
names, and writing at one location leaves the others as they were.
-/
import Mathlib.Data.List.Basic
import ShotTally.Disk.Basic
import ShotTally.Proofs.Keyed
import ShotTally.Proofs.Text.Split

namespace ShotTally

/-! ## Plain names -/

namespace Path

/-- A name that leads one step down. -/
structure Plain (name : String) : Prop where
  noSlash : '/' ∉ name.toList
  notEmpty : name ≠ ""
  notHere : name ≠ "."
  notUp : name ≠ ".."

instance (name : String) : Decidable (Plain name) :=
  decidable_of_iff ('/' ∉ name.toList ∧ name ≠ "" ∧ name ≠ "." ∧ name ≠ "..")
    ⟨fun ⟨hs, he, hh, hu⟩ => ⟨hs, he, hh, hu⟩, fun h => ⟨h.noSlash, h.notEmpty, h.notHere, h.notUp⟩⟩

/-- A path put together from names is taken apart into them. -/
theorem segments_intercalate : ∀ {names : List String}, names ≠ [] → (∀ n ∈ names, '/' ∉ n.toList) →
    segments ("/".intercalate names) = names
  | [n], _, h => by
    rw [String.intercalate_singleton, segments, Text.splitAt_of_notMem (h n (by simp))]
    exact congrArg (fun s => [s]) String.ofList_toList
  | n :: n' :: names, _, h => by
    have ih := segments_intercalate (List.cons_ne_nil n' names) fun m hm => h m (List.mem_cons_of_mem n hm)
    have hs : ("/".intercalate (n :: n' :: names)).toList =
        n.toList ++ '/' :: ("/".intercalate (n' :: names)).toList := by
      rw [String.intercalate_cons_cons, String.toList_append, String.toList_append, List.append_assoc]
      rfl
    unfold segments at *
    rw [hs, Text.splitAt_append (h n (by simp)), List.map_cons, ih, String.ofList_toList]

theorem isAbsolute_of_noSlash {name : String} (h : '/' ∉ name.toList) : isAbsolute name = false := by
  unfold isAbsolute
  rcases hn : name.toList with _ | ⟨c, cs⟩
  · rfl
  · rw [hn, List.mem_cons, not_or] at h
    exact beq_false_of_ne fun hc => h.1 (Option.some.inj hc).symm

/-- A path of plain names leads off from the working folder. -/
theorem isAbsolute_intercalate {names : List String} (h : ∀ n ∈ names, Plain n) :
    isAbsolute ("/".intercalate names) = false := by
  rcases names with _ | ⟨n, _ | ⟨n', names⟩⟩
  · rfl
  · rw [String.intercalate_singleton]
    exact isAbsolute_of_noSlash (h n (by simp)).noSlash
  · have hn := h n (by simp)
    have habs := isAbsolute_of_noSlash hn.noSlash
    rw [String.intercalate_cons_cons]
    unfold isAbsolute at *
    rw [String.toList_append, String.toList_append]
    rcases hl : n.toList with _ | ⟨c, cs⟩
    · exact absurd (String.toList_eq_nil_iff.1 hl) hn.notEmpty
    · rw [hl] at habs
      exact habs

theorem intercalate_ne_empty {names : List String} (hne : names ≠ []) (h : ∀ n ∈ names, Plain n) :
    "/".intercalate names ≠ "" := by
  intro he
  have hs := segments_intercalate hne fun n hn => (h n hn).noSlash
  rw [he] at hs
  have hmem : "" ∈ names := by rw [← hs]; exact List.mem_singleton.2 rfl
  exact (h "" hmem).notEmpty rfl

/-- Joining a plain name to a path of plain names. -/
theorem join_intercalate {names : List String} (hne : names ≠ []) (h : ∀ n ∈ names, Plain n) {child : String}
    (hc : Plain child) : join ("/".intercalate names) child = "/".intercalate (names ++ [child]) := by
  -- plain names do not end in a slash, so one is put between
  have hlast : ("/".intercalate names).toList.getLast? ≠ some '/' := by
    obtain ⟨before, n, rfl⟩ : ∃ before n, names = before ++ [n] :=
      ⟨names.dropLast, names.getLast hne, (List.dropLast_append_getLast hne).symm⟩
    have hn := h n (by simp)
    have hl : ("/".intercalate (before ++ [n])).toList.getLast? = n.toList.getLast? := by
      rcases before with _ | ⟨b, before⟩
      · rw [List.nil_append, String.intercalate_singleton]
      · rw [String.intercalate_append_of_ne_nil (List.cons_ne_nil _ _) (List.cons_ne_nil _ _),
          String.intercalate_singleton, String.toList_append,
          List.getLast?_append_of_ne_nil _ fun he => hn.notEmpty (String.toList_eq_nil_iff.1 he)]
    rw [hl]
    exact fun he => hn.noSlash (List.mem_of_getLast? he)
  unfold join
  rw [if_neg, if_neg hlast, String.intercalate_append_of_ne_nil hne (List.cons_ne_nil _ _),
    String.intercalate_singleton]
  rw [isAbsolute_of_noSlash hc.noSlash]
  exact fun hor => hor.elim (fun hf => by cases hf) (intercalate_ne_empty hne h)

end Path

/-! ## Locations -/

namespace Disk

open ShotTally.Path (Plain)

variable {d : Disk}

theorem isFolderAt_iff {location : List String} : d.isFolderAt location = true ↔ d.at? location = some .folder :=
  beq_iff_eq

theorem key_injective {l l' : List String} (hne : l ≠ []) (hne' : l' ≠ []) (h : ∀ n ∈ l, Plain n)
    (h' : ∀ n ∈ l', Plain n) (hk : key l = key l') : l = l' := by
  rw [← Path.segments_intercalate hne fun n hn => (h n hn).noSlash,
    ← Path.segments_intercalate hne' fun n hn => (h' n hn).noSlash]
  exact congrArg Path.segments hk

/-- The disk with an entry at a location. -/
def put (d : Disk) (location : List String) (e : Entry) : Disk :=
  { d with entries := d.entries.insert (key location) e }

theorem at?_put {l l' : List String} (hne : l ≠ []) (h : ∀ n ∈ l, Plain n) (h' : ∀ n ∈ l', Plain n) (e : Entry) :
    (d.put l e).at? l' = if l' = l then some e else d.at? l' := by
  rcases l' with _ | ⟨n, l'⟩
  · rw [if_neg (Ne.symm hne)]
    rfl
  · show (d.entries.insert (key l) e).get? (key (n :: l')) = if n :: l' = l then _ else d.entries.get? (key (n :: l'))
    rw [Keyed.get?_insert]
    by_cases he : n :: l' = l
    · rw [if_pos he, if_pos (by rw [he])]
    · rw [if_neg he, if_neg fun hk => he (key_injective (List.cons_ne_nil _ _) hne h' h hk)]

theorem walk_plain {n : String} (hn : Plain n) (location rest : List String) :
    d.walk location (n :: rest) = if d.isFolderAt location then d.walk (location ++ [n]) rest else none := by
  have hstay : ¬ (n = "" ∨ n = ".") := fun h => h.elim hn.notEmpty hn.notHere
  rw [walk, if_neg hstay, if_neg hn.notUp]

theorem makeFrom_plain {n : String} (hn : Plain n) (location rest : List String) :
    d.makeFrom location (n :: rest) = match d.at? (location ++ [n]) with
      | some .folder => d.makeFrom (location ++ [n]) rest
      | some (.file _) => none
      | none => (d.put (location ++ [n]) .folder).makeFrom (location ++ [n]) rest := by
  rw [makeFrom, if_neg fun h => h.elim hn.notEmpty hn.notHere, if_neg hn.notUp]
  rfl

/-- From the top of the disk a path of plain names leads along these names. -/
theorem locate_plain (hw : d.working = []) {names : List String} (hne : names ≠ []) (h : ∀ n ∈ names, Plain n) :
    d.locate ("/".intercalate names) = d.walk [] names := by
  unfold locate origin
  rw [if_neg (Path.intercalate_ne_empty hne h), Path.isAbsolute_intercalate h, hw,
    Path.segments_intercalate hne fun n hn => (h n hn).noSlash]
  rfl

theorem makeFolders_plain (hw : d.working = []) {names : List String} (hne : names ≠ []) (h : ∀ n ∈ names, Plain n) :
    d.makeFolders? ("/".intercalate names) = d.makeFrom [] names := by
  unfold makeFolders? origin
  rw [Path.isAbsolute_intercalate h, hw, Path.segments_intercalate hne fun n hn => (h n hn).noSlash]
  rfl

/-- What a path of plain names leads to depends on the locations on the way. -/
theorem walk_bind_congr {d' : Disk} : ∀ {location names : List String}, (∀ n ∈ names, Plain n) →
    (∀ before, before <+: names → d'.at? (location ++ before) = d.at? (location ++ before)) →
    (d'.walk location names).bind d'.at? = (d.walk location names).bind d.at?
  | location, [], _, hat => by
    have hhere := hat [] (List.prefix_refl _)
    rwa [List.append_nil] at hhere
  | location, n :: names, h, hat => by
    have hhere := hat [] List.nil_prefix
    rw [List.append_nil] at hhere
    have hn := h n List.mem_cons_self
    have hat' : ∀ before, before <+: names →
        d'.at? ((location ++ [n]) ++ before) = d.at? ((location ++ [n]) ++ before) := by
      intro before hbefore
      rw [List.append_assoc]
      exact hat (n :: before) (List.cons_prefix_cons.2 ⟨rfl, hbefore⟩)
    have ih := walk_bind_congr (fun m hm => h m (List.mem_cons_of_mem n hm)) hat'
    rw [walk_plain hn, walk_plain hn, isFolderAt, isFolderAt, hhere]
    split
    · exact ih
    · rfl

theorem find?_congr {d' : Disk} (hw : d.working = []) (hw' : d'.working = []) {names : List String} (hne : names ≠ [])
    (h : ∀ n ∈ names, Plain n) (hat : ∀ before, before <+: names → d'.at? before = d.at? before) :
    d'.find? ("/".intercalate names) = d.find? ("/".intercalate names) := by
  unfold find?
  rw [locate_plain hw hne h, locate_plain hw' hne h]
  exact walk_bind_congr h hat

/-! ## Work on the disk -/

namespace Writing

variable {d d' : Disk} {report : Report}

theorem run_bind_ok {α β : Type} {x : Writing α} {f : α → Writing β} {a : α} (h : x.run d = (.ok a, d')) :
    (x >>= f).run d = (f a).run d' := by
  show (ExceptT.bindCont f =<< x.run) d = _
  show (match x.run d with | (r, d') => ExceptT.bindCont f r d') = _
  rw [h]
  rfl

theorem run_makeFolders {path : String} (h : d.makeFolders? path = some d') :
    (makeFolders path report).run d = (.ok (), d') := by
  refine (run_bind_ok (x := (get : Writing Disk)) (d := d) rfl).trans ?_
  rw [h]
  rfl

theorem run_write {path : String} {bytes : List UInt8} (h : d.write? path bytes = some d') :
    (write path bytes report).run d = (.ok (), d') := by
  refine (run_bind_ok (x := (get : Writing Disk)) (d := d) rfl).trans ?_
  rw [h]
  rfl

end Writing
end Disk
end ShotTally
