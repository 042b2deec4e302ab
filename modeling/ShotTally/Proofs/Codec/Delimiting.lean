/-
What a reader gives is due to the bytes it took, and those are the bytes that writing the value gives.
A value that was cut short can therefore not be read: what the part gives the whole would give too,
with bytes left over. The one exception to the second is a collection: its entries may be written in
any order and under one name more than once.
-/
import ShotTally.Proofs.Codec.RoundTrip

namespace ShotTally

/-- The bytes that a text was read from are its bytes. -/
theorem Text.bytes_ofBytes {bytes : List UInt8} {s : String} (h : ofBytes? bytes = some s) : Text.bytes s = bytes := by
  unfold ofBytes? String.fromUTF8? at h
  split at h
  · obtain rfl := Option.some.inj h
    exact bytes_eq _
  · cases h

namespace Binary

variable {α β : Type}

/-! ## Running readers -/

theorem run_bind_eq_some {x : Decoder α} {f : α → Decoder β} {bytes rest : List UInt8} {b : β} :
    (x >>= f).run bytes = some (b, rest) ↔
      ∃ a middle, x.run bytes = some (a, middle) ∧ (f a).run middle = some (b, rest) := by
  rw [StateT.run_bind]
  constructor
  · intro h
    obtain ⟨⟨a, middle⟩, hx, hf⟩ := Option.bind_eq_some_iff.1 h
    exact ⟨a, middle, hx, hf⟩
  · rintro ⟨a, middle, hx, hf⟩
    exact Option.bind_eq_some_iff.2 ⟨(a, middle), hx, hf⟩

/-- The last step only puts the value together. -/
theorem run_map_eq_some {x : Decoder α} {f : α → β} {bytes rest : List UInt8} {b : β} :
    (x >>= fun a => pure (f a)).run bytes = some (b, rest) ↔ ∃ a, x.run bytes = some (a, rest) ∧ f a = b := by
  rw [run_bind_eq_some]
  constructor
  · rintro ⟨a, middle, hx, hf⟩
    cases hf
    exact ⟨a, hx, rfl⟩
  · rintro ⟨a, hx, rfl⟩
    exact ⟨a, rest, hx, rfl⟩

/-! ## Readers that take what is written -/

/-- Whatever a reader gives has this property, and the bytes taken are those in which it is written. -/
def Reads (x : Decoder α) (form : α → List UInt8) (P : α → Prop) : Prop :=
  ∀ bytes a rest, x.run bytes = some (a, rest) → bytes = form a ++ rest ∧ P a

theorem reads_readWord : ∀ k : Nat, Reads (readWord k) (word k) (· < 256 ^ k)
  | 0 => by
    intro bytes n rest h
    cases h
    exact ⟨rfl, Nat.one_pos⟩
  | k + 1 => by
    intro bytes n rest h
    obtain ⟨low, middle, hlow, h⟩ := run_bind_eq_some.1 h
    obtain ⟨high, hhigh, rfl⟩ := run_map_eq_some.1 h
    obtain ⟨rfl, hlt⟩ := reads_readWord k _ _ _ hhigh
    cases bytes with
    | nil => cases hlow
    | cons _ bytes =>
      cases hlow
      -- the first byte is the remainder by 256, and what the others make is the quotient
      have hbyte : low.toNat < 256 := low.toNat_lt
      have hmod : UInt8.ofNat (low.toNat + 256 * high) = low := by
        refine UInt8.toNat_inj.1 ?_
        rw [UInt8.toNat_ofNat']
        omega
      have hdiv : (low.toNat + 256 * high) / 256 = high := by omega
      constructor
      · rw [word, hmod, hdiv]
        rfl
      · rw [Nat.pow_succ]
        omega

theorem reads_readSize : Reads readSize size Small := reads_readWord 8

theorem reads_readBytes (n : Nat) : Reads (readBytes n) id (·.length = n) := by
  intro bytes part rest h
  obtain ⟨hlen, hpair⟩ := Option.ite_none_right_eq_some.1 h
  cases hpair
  exact ⟨(List.take_append_drop n bytes).symm, hlen⟩

variable {x : Decoder α} {form : α → List UInt8} {P : α → Prop}

theorem Reads.readMany (h : Reads x form P) : ∀ n : Nat,
    Reads (readMany x n) (List.flatMap form) fun l => l.length = n ∧ ∀ a ∈ l, P a
  | 0 => by
    intro bytes l rest hrun
    cases hrun
    exact ⟨rfl, rfl, fun a ha => by cases ha⟩
  | n + 1 => by
    intro bytes l rest hrun
    obtain ⟨a, middle, ha, hrun⟩ := run_bind_eq_some.1 hrun
    obtain ⟨others, hothers, rfl⟩ := run_map_eq_some.1 hrun
    obtain ⟨rfl, hPa⟩ := h _ _ _ ha
    obtain ⟨rfl, hlen, hP⟩ := h.readMany n _ _ _ hothers
    refine ⟨?_, congrArg Nat.succ hlen, List.forall_mem_cons.2 ⟨hPa, hP⟩⟩
    rw [List.flatMap_cons, List.append_assoc]

theorem Reads.readList (h : Reads x form P) :
    Reads (readList x) (listOf form) fun l => Small l.length ∧ ∀ a ∈ l, P a := by
  intro bytes l rest hrun
  obtain ⟨n, middle, hn, hl⟩ := run_bind_eq_some.1 hrun
  obtain ⟨rfl, hsmall⟩ := reads_readSize _ _ _ hn
  obtain ⟨rfl, rfl, hP⟩ := h.readMany n _ _ _ hl
  exact ⟨(List.append_assoc _ _ _).symm, hsmall, hP⟩

/-! ## Canonical forms -/

/-- A binary form that is read only from the bytes in which the value is written. -/
class Canonical (α : Type) [Binary α] [Lawful α] : Prop where
  reads : Reads (decode : Decoder α) encode Fits

instance : Canonical Double where
  reads := by
    intro bytes d rest h
    obtain ⟨n, hn, rfl⟩ := run_map_eq_some.1 h
    obtain ⟨rfl, hlt⟩ := reads_readWord 8 _ _ _ hn
    have hn : (UInt64.ofNat n).toNat = n := UInt64.toNat_ofNat_of_lt' hlt
    constructor
    · show _ = word 8 (UInt64.ofNat n).toNat ++ rest
      rw [hn]
    · trivial

instance : Canonical String where
  reads := by
    intro bytes s rest h
    obtain ⟨n, middle, hn, htext⟩ := run_bind_eq_some.1 h
    obtain ⟨part, last, hpart, hlift⟩ := run_bind_eq_some.1 htext
    obtain ⟨rfl, hsmall⟩ := reads_readSize _ _ _ hn
    obtain ⟨rfl, rfl⟩ := reads_readBytes n _ _ _ hpart
    -- the part is taken only if it encodes a text, and then it is the bytes of that text
    cases ho : Text.ofBytes? part with
    | none =>
      rw [ho] at hlift
      cases hlift
    | some t =>
      rw [ho] at hlift
      cases hlift
      obtain rfl := Text.bytes_ofBytes ho
      rw [Text.length_bytes] at hsmall ⊢
      exact ⟨(List.append_assoc _ _ _).symm, hsmall⟩

instance [Binary α] [Lawful α] [Canonical α] : Canonical (List α) where
  reads := Canonical.reads.readList

instance [Binary α] [Lawful α] [Canonical α] : Canonical (Tensor α) where
  reads := by
    intro bytes t rest h
    obtain ⟨shape, middle, hshape, hrest⟩ := run_bind_eq_some.1 h
    obtain ⟨data, hdata, rfl⟩ := run_map_eq_some.1 hrest
    obtain ⟨rfl, hsizes⟩ := reads_readSize.readList _ _ _ hshape
    obtain ⟨rfl, hfits⟩ := Canonical.reads _ _ _ hdata
    exact ⟨(List.append_assoc _ _ _).symm, hsizes, hfits⟩

instance : Canonical Version where
  reads := by
    intro bytes v rest h
    obtain ⟨major, _, hmajor, hrest⟩ := run_bind_eq_some.1 h
    obtain ⟨minor, _, hminor, hlast⟩ := run_bind_eq_some.1 hrest
    obtain ⟨patch, hpatch, rfl⟩ := run_map_eq_some.1 hlast
    obtain ⟨rfl, hfirst⟩ := reads_readWord 4 _ _ _ hmajor
    obtain ⟨rfl, hsecond⟩ := reads_readWord 4 _ _ _ hminor
    obtain ⟨rfl, hthird⟩ := reads_readWord 4 _ _ _ hpatch
    refine ⟨?_, hfirst, hsecond, hthird⟩
    show _ = word 4 major ++ word 4 minor ++ word 4 patch ++ rest
    rw [List.append_assoc, List.append_assoc]

section

variable [Binary α] [Lawful α] [Canonical α]

theorem reads_entries : Reads (readList readEntry) (listOf (entry (α := α))) EntriesFit := by
  refine Reads.readList fun bytes e rest h => ?_
  obtain ⟨k, middle, hk, hrest⟩ := run_bind_eq_some.1 h
  obtain ⟨v, hv, rfl⟩ := run_map_eq_some.1 hrest
  obtain ⟨rfl, hname⟩ := Canonical.reads _ _ _ hk
  obtain ⟨rfl, hvalue⟩ := Canonical.reads _ _ _ hv
  exact ⟨(List.append_assoc _ _ _).symm, hname, hvalue⟩

/-- A collection is read from its entries in any order; of those with one name the last counts. -/
theorem run_decode_keyed {bytes rest : List UInt8} {m : Keyed α} :
    (decode : Decoder (Keyed α)).run bytes = some (m, rest) ↔
      ∃ l : List (String × α), EntriesFit l ∧ bytes = listOf entry l ++ rest ∧ Keyed.ofList l = m := by
  have hdecode : (decode : Decoder (Keyed α)) = readList readEntry >>= fun l => pure (Keyed.ofList l) := rfl
  rw [hdecode, run_map_eq_some]
  constructor
  · rintro ⟨l, hl, rfl⟩
    obtain ⟨rfl, hfit⟩ := reads_entries _ _ _ hl
    exact ⟨l, hfit, rfl, rfl⟩
  · rintro ⟨l, hfit, rfl, rfl⟩
    exact ⟨l, takes_entries hfit rest, rfl⟩

end

/-! ## Self-delimiting forms -/

/-- What a reader gives it gives from the bytes it took, whatever follows them. -/
def Delimits (x : Decoder α) : Prop :=
  ∀ bytes a rest, x.run bytes = some (a, rest) → ∃ taken, taken ++ rest = bytes ∧ Takes x taken a

theorem Reads.delimits (h : Reads x form P) (ht : ∀ a, P a → Takes x (form a) a) : Delimits x := by
  intro bytes a rest hrun
  obtain ⟨rfl, hP⟩ := h _ _ _ hrun
  exact ⟨form a, rfl, ht a hP⟩

namespace Delimits

theorem bind {f : α → Decoder β} (hx : Delimits x) (hf : ∀ a, Delimits (f a)) : Delimits (x >>= f) := by
  intro bytes b rest h
  obtain ⟨a, middle, ha, hb⟩ := run_bind_eq_some.1 h
  obtain ⟨first, rfl, hfirst⟩ := hx _ _ _ ha
  obtain ⟨second, rfl, hsecond⟩ := hf a _ _ _ hb
  exact ⟨first ++ second, List.append_assoc _ _ _, hfirst.bind hsecond⟩

theorem map (hx : Delimits x) (f : α → β) : Delimits (x >>= fun a => pure (f a)) := by
  intro bytes b rest h
  obtain ⟨a, ha, rfl⟩ := run_map_eq_some.1 h
  obtain ⟨taken, htaken, hall⟩ := hx _ _ _ ha
  exact ⟨taken, htaken, hall.map f⟩

/-- A value that was cut short is not read. -/
theorem run_truncated {whole part : List UInt8} {a : α} (hx : Delimits x) (h : Takes x whole a)
    (hpart : part <+: whole) (hne : part ≠ whole) : x.run part = none := by
  obtain ⟨lost, rfl⟩ := hpart
  cases hrun : x.run part with
  | none => rfl
  | some p =>
    obtain ⟨b, rest⟩ := p
    obtain ⟨taken, rfl, htaken⟩ := hx _ _ _ hrun
    -- the whole is read to its end, but also only as far as the part was
    have hall := h []
    have hshort := htaken (rest ++ lost)
    rw [List.append_nil, List.append_assoc, hshort] at hall
    have hleft : rest ++ lost = [] := congrArg Prod.snd (Option.some.inj hall)
    obtain ⟨-, rfl⟩ := List.append_eq_nil_iff.1 hleft
    exact absurd (List.append_nil _).symm hne

end Delimits

/-- A binary form whose end is seen from its bytes. -/
class Delimiting (α : Type) [Binary α] : Prop where
  delimits : Delimits (decode : Decoder α)

instance [Binary α] [Lawful α] [Canonical α] : Delimiting α where
  delimits := Canonical.reads.delimits fun _ h => Lawful.takes h

instance [Binary α] [Lawful α] [Canonical α] : Delimiting (Keyed α) where
  delimits := (reads_entries.delimits fun _ h => takes_entries h).map Keyed.ofList

/-- A value whose bytes were cut short is not read. -/
theorem read_truncated [Binary α] [Lawful α] [Delimiting α] {a : α} {part : List UInt8} (h : Fits a)
    (hpart : part <+: encode a) (hne : part ≠ encode a) : (read? part : Option α) = none := by
  unfold read?
  rw [Delimiting.delimits.run_truncated (Lawful.takes h) hpart hne]
  rfl

/-- What follows the bytes of a value does not matter. -/
theorem read_encode_append [Binary α] [Lawful α] {a : α} (h : Fits a) (rest : List UInt8) :
    read? (encode a ++ rest) = some a := by
  unfold read?
  rw [Lawful.takes h rest]
  rfl

end Binary
end ShotTally
