/-
Shot files as bytes. A file of the current format is read back from its bytes as it was, every number
bit for bit, and bytes that follow do not matter; from fewer bytes it is not read at all. The bytes that
make a file are a version and datasets under their names, in any order, with anything behind them.
-/
import ShotTally.Shot.File
import ShotTally.Proofs.Codec.Delimiting

namespace ShotTally

open Binary

/-! ## The form of datasets and files -/

namespace Dataset

instance : Lawful Dataset where
  Fits
    | .numeric array => Fits array
    | .text values => Fits values
  takes {d} h := by
    have htag : ∀ n < 2, Takes (readWord 4) (word 4 n) n :=
      fun n hn => takes_readWord (Nat.lt_of_lt_of_le hn (by decide))
    cases d with
    | numeric array => exact (htag 0 (by decide)).bind ((Lawful.takes h).map Dataset.numeric)
    | text values => exact (htag 1 (by decide)).bind ((Lawful.takes h).map Dataset.text)

instance : Canonical Dataset where
  reads := by
    intro bytes d rest h
    obtain ⟨tag, middle, htag, hrest⟩ := run_bind_eq_some.1 h
    obtain ⟨rfl, -⟩ := reads_readWord 4 _ _ _ htag
    -- a tag for each kind of dataset, and nothing is read behind another one
    match tag with
    | 0 =>
      obtain ⟨array, harray, rfl⟩ := run_map_eq_some.1 hrest
      obtain ⟨rfl, hfits⟩ := Canonical.reads _ _ _ harray
      exact ⟨(List.append_assoc _ _ _).symm, hfits⟩
    | 1 =>
      obtain ⟨values, hvalues, rfl⟩ := run_map_eq_some.1 hrest
      obtain ⟨rfl, hfits⟩ := Canonical.reads _ _ _ hvalues
      exact ⟨(List.append_assoc _ _ _).symm, hfits⟩
    | _ + 2 => cases hrest

instance : ∀ d : Dataset, Decidable (Fits d)
  | .numeric array => inferInstanceAs (Decidable (Fits array))
  | .text values => inferInstanceAs (Decidable (Fits values))

end Dataset

namespace ShotFile

instance : Lawful ShotFile where
  Fits f := Fits f.version ∧ Fits f.datasets
  takes {f} h := (Lawful.takes h.1).bind ((Lawful.takes h.2).map fun datasets => (⟨f.version, datasets⟩ : ShotFile))

instance : Delimiting ShotFile where
  delimits := Delimiting.delimits.bind fun version => Delimiting.delimits.map (ShotFile.mk version)

instance (f : ShotFile) : Decidable (Fits f) := inferInstanceAs (Decidable (_ ∧ _))

/-! ## Files from bytes -/

variable {f : ShotFile} {bytes : List UInt8}

/-- The bytes read as a file of the current format. -/
theorem ofBytes_eq_ok_iff_read :
    ofBytes bytes = .ok f ↔ read? bytes = some f ∧ f.version.major = Version.current.major := by
  unfold ofBytes
  cases hread : (read? bytes : Option ShotFile) with
  | none =>
    constructor
    · intro h
      cases h
    · rintro ⟨h, -⟩
      cases h
  | some g =>
    by_cases hg : Version.current.reads g.version = true
    · have hmajor : Version.current.major = g.version.major := beq_iff_eq.1 hg
      show (if _ then _ else _) = _ ↔ _
      rw [if_pos hg]
      constructor
      · rintro ⟨⟩
        exact ⟨rfl, hmajor.symm⟩
      · rintro ⟨⟨⟩, -⟩
        rfl
    · show (if _ then _ else _) = _ ↔ _
      rw [if_neg hg]
      constructor
      · intro h
        cases h
      · rintro ⟨⟨⟩, hmajor⟩
        exact absurd (beq_iff_eq.2 hmajor.symm) hg

/-- Bytes that make no file are reported. -/
theorem ofBytes_of_read_none (h : (read? bytes : Option ShotFile) = none) :
    ∃ r, ofBytes bytes = .error (.reported r) ∧ r.family = .serde ∧ r.code = "shot_deserialize" := by
  unfold ofBytes
  rw [h]
  exact ⟨_, rfl, rfl, rfl⟩

/-- A file of the current format is read back from its bytes, and from no shorter beginning of them. The
sizes of a file in memory always fit the eight bytes, and the parts of its version the four bytes, that
they are written in. -/
theorem ofBytes_toBytes (hv : f.version.major = Version.current.major) (hf : Fits f) :
    ofBytes f.toBytes = .ok f ∧
      ∀ part, part <+: f.toBytes → part ≠ f.toBytes →
        ∃ r, ofBytes part = .error (.reported r) ∧ r.family = .serde ∧ r.code = "shot_deserialize" := by
  constructor
  · exact ofBytes_eq_ok_iff_read.2 ⟨read_encode hf, hv⟩
  · intro part hpart hne
    exact ofBytes_of_read_none (read_truncated hf hpart hne)

/-- Names and labels beyond ASCII, a matrix with a NaN and a negative zero, and a later minor version. -/
def unusual : ShotFile :=
  ⟨⟨1, 2, 3⟩, .ofList [("größe", .numeric ⟨[2, 1], [.nan, .negZero]⟩), ("表", .text ["é", ""])]⟩

theorem ofBytes_toBytes_unusual : ofBytes unusual.toBytes = .ok unusual ∧
    ∃ r, ofBytes (unusual.toBytes.take 60) = .error (.reported r) ∧ r.family = .serde ∧
      r.code = "shot_deserialize" := by
  have hv : unusual.version.major = Version.current.major := rfl
  have hf : Fits unusual := by decide +kernel
  obtain ⟨hback, hcut⟩ := ofBytes_toBytes hv hf
  exact ⟨hback, hcut _ (List.take_prefix _ _) (by decide +kernel)⟩

/-- A file of the current format is read whatever follows its bytes. -/
theorem ofBytes_toBytes_append (hv : f.version.major = Version.current.major) (hf : Fits f) (rest : List UInt8) :
    ofBytes (f.toBytes ++ rest) = .ok f := ofBytes_eq_ok_iff_read.2 ⟨read_encode_append hf rest, hv⟩

/-! ## What makes a file -/

/-- The bytes begin with this version and these datasets. -/
structure Begins (bytes : List UInt8) (version : Version) (entries : List (String × Dataset)) : Prop where
  versionFits : Fits version
  entriesFit : EntriesFit entries
  front : encode version ++ listOf entry entries <+: bytes

/-- A file comes of the bytes that begin with its version and its datasets, each behind its name; of the
datasets under one name the last counts, and how many elements an array has is not looked at. -/
theorem ofBytes_eq_ok : ofBytes bytes = .ok f ↔
    f.version.major = Version.current.major ∧ ∃ entries, Begins bytes f.version entries ∧
    Keyed.ofList entries = f.datasets := by
  have hread : read? bytes = some f ↔ ∃ entries, Begins bytes f.version entries ∧
      Keyed.ofList entries = f.datasets := by
    unfold read?
    rw [Option.map_eq_some_iff]
    constructor
    · rintro ⟨⟨g, rest⟩, hrun, rfl⟩
      obtain ⟨version, middle, hversion, hrest⟩ := run_bind_eq_some.1 hrun
      obtain ⟨datasets, hdatasets, rfl⟩ := run_map_eq_some.1 hrest
      obtain ⟨rfl, hfits⟩ := Canonical.reads _ _ _ hversion
      obtain ⟨entries, hentries, rfl, rfl⟩ := run_decode_keyed.1 hdatasets
      exact ⟨entries, ⟨hfits, hentries, rest, List.append_assoc _ _ _⟩, rfl⟩
    · rintro ⟨entries, ⟨hversion, hentries, rest, rfl⟩, hdatasets⟩
      refine ⟨(f, rest), run_bind_eq_some.2 ⟨f.version, listOf entry entries ++ rest, ?_, ?_⟩, rfl⟩
      · rw [List.append_assoc]
        exact Lawful.takes hversion _
      · refine run_map_eq_some.2 ⟨f.datasets, ?_, rfl⟩
        exact run_decode_keyed.2 ⟨entries, hentries, rfl, hdatasets⟩
  rw [ofBytes_eq_ok_iff_read, hread, and_comm]

end ShotFile
end ShotTally
