/-
What is written in binary form is read back, whatever follows it: numbers of a fixed width, texts,
lists, collections and arrays, and the artifacts made of them. Lengths have to fit the eight bytes
they are written in.
-/
import Mathlib.Algebra.Group.Nat.Defs
import Mathlib.Data.List.Basic
import ShotTally.Cache.Artifact
import ShotTally.Proofs.Keyed

namespace ShotTally

namespace Text

theorem toList_loop (b : ByteArray) : ∀ (k i : Nat) (acc : List UInt8), b.size - i = k →
    ByteArray.toList.loop b i acc = acc.reverse ++ b.data.toList.drop i := by
  intro k
  induction k with
  | zero =>
    intro i acc h
    have hi : b.data.toList.length ≤ i := by rw [Array.length_toList]; exact Nat.sub_eq_zero_iff_le.1 h
    rw [ByteArray.toList.loop, if_neg (by omega), List.drop_eq_nil_of_le hi, List.append_nil]
  | succ k ih =>
    intro i acc h
    have hi : i < b.size := by omega
    have hl : i < b.data.toList.length := by rw [Array.length_toList]; exact hi
    have hget : b.get! i = b.data.toList[i] := by
      show b.data[i]! = _
      rw [getElem!_pos b.data i hi, Array.getElem_toList]
    rw [ByteArray.toList.loop, if_pos hi, ih (i + 1) _ (by omega), hget, List.drop_eq_getElem_cons hl]
    simp

/-- The bytes of a text in order. -/
theorem bytes_eq (s : String) : bytes s = s.toByteArray.data.toList := by
  unfold bytes ByteArray.toList
  rw [toList_loop s.toByteArray _ 0 [] rfl]; rfl

theorem bytes_eq_flatMap (s : String) : bytes s = s.toList.flatMap String.utf8EncodeChar := by
  rw [bytes_eq]
  conv_lhs => rw [← String.ofList_toList (s := s), String.toByteArray_ofList]
  simp [List.utf8Encode]

theorem length_bytes (s : String) : (bytes s).length = s.utf8ByteSize := by
  rw [bytes_eq, Array.length_toList]; rfl

theorem ofBytes_bytes (s : String) : ofBytes? (bytes s) = some s := by
  have hb : (⟨(bytes s).toArray⟩ : ByteArray) = s.toByteArray := by rw [bytes_eq]
  unfold ofBytes? String.fromUTF8?
  rw [hb, dif_pos s.isValidUTF8]
  rfl

theorem bytes_injective {s t : String} (h : bytes s = bytes t) : s = t := by
  have ht := ofBytes_bytes s
  rw [h, ofBytes_bytes] at ht
  exact (Option.some.inj ht).symm

/-- A character takes at most four bytes. -/
theorem utf8ByteSize_le (s : String) : s.utf8ByteSize ≤ 4 * s.toList.length := by
  have h : ∀ l : List Char, (l.flatMap String.utf8EncodeChar).length ≤ 4 * l.length := by
    intro l
    induction l with
    | nil => simp
    | cons c l ih =>
      have hc := c.utf8Size_le_four
      simp only [List.flatMap_cons, List.length_append, String.length_utf8EncodeChar, List.length_cons]
      omega
  rw [← length_bytes, bytes_eq_flatMap]
  exact h _

end Text

namespace Binary

variable {α β : Type}

/-! ## Readers that take what was written -/

/-- A reader takes exactly these bytes and gives this value, whatever follows. -/
def Takes (x : Decoder α) (bytes : List UInt8) (a : α) : Prop :=
  ∀ rest, x.run (bytes ++ rest) = some (a, rest)

theorem takes_pure (a : α) : Takes (pure a) [] a := fun _ => rfl

theorem Takes.bind {x : Decoder α} {f : α → Decoder β} {u v : List UInt8} {a : α} {b : β} (hx : Takes x u a)
    (hf : Takes (f a) v b) : Takes (x >>= f) (u ++ v) b := by
  intro rest
  rw [StateT.run_bind, List.append_assoc, hx]
  exact hf rest

/-- The last step only puts the value together. -/
theorem Takes.map {x : Decoder α} {u : List UInt8} {a : α} (hx : Takes x u a) (f : α → β) :
    Takes (x >>= fun a => pure (f a)) u (f a) := by
  intro rest
  rw [StateT.run_bind, hx]; rfl

theorem takes_readWord : ∀ {k n : Nat}, n < 256 ^ k → Takes (readWord k) (word k n) n
  | 0, n, h => by
    obtain rfl : n = 0 := by simpa using h
    exact takes_pure 0
  | k + 1, n, h => by
    have hd : n / 256 < 256 ^ k := by
      rw [Nat.div_lt_iff_lt_mul (by decide)]
      rwa [Nat.pow_succ] at h
    have hb : Takes readByte [UInt8.ofNat n] (UInt8.ofNat n) := fun _ => rfl
    -- the low byte first, then the rest of the word
    have hn : (UInt8.ofNat n).toNat + 256 * (n / 256) = n := by
      rw [UInt8.toNat_ofNat']
      exact Nat.mod_add_div n 256
    have hw : Takes (readByte >>= fun low => readWord k >>= fun high => pure (low.toNat + 256 * high))
        ([UInt8.ofNat n] ++ word k (n / 256)) ((UInt8.ofNat n).toNat + 256 * (n / 256)) :=
      hb.bind ((takes_readWord hd).map _)
    rw [hn] at hw
    exact hw

/-- Lengths that fit eight bytes. -/
def Small (n : Nat) : Prop := n < 2 ^ 64

instance (n : Nat) : Decidable (Small n) := inferInstanceAs (Decidable (_ < _))

theorem takes_readSize {n : Nat} (h : Small n) : Takes readSize (size n) n :=
  takes_readWord h

theorem takes_readBytes {bytes : List UInt8} {n : Nat} (h : bytes.length = n) : Takes (readBytes n) bytes bytes := by
  subst h
  intro rest
  show (if _ then _ else _) = _
  rw [if_pos (by simp), List.take_left, List.drop_left]

theorem takes_readMany {x : Decoder α} {item : α → List UInt8} : ∀ {l : List α},
    (∀ a ∈ l, Takes x (item a) a) → Takes (readMany x l.length) (l.flatMap item) l
  | [], _ => takes_pure []
  | a :: l, h => by
    rw [List.flatMap_cons]
    exact (h a (by simp)).bind ((takes_readMany fun b hb => h b (by simp [hb])).map fun rest => a :: rest)

theorem takes_readList {x : Decoder α} {item : α → List UInt8} {l : List α} (hl : Small l.length)
    (h : ∀ a ∈ l, Takes x (item a) a) : Takes (readList x) (listOf item l) l :=
  (takes_readSize hl).bind (takes_readMany h)

/-! ## Lawful forms -/

/-- A binary form from which every value that fits is read back. -/
class Lawful (α : Type) [Binary α] where
  /-- The lengths of all parts fit eight bytes, and all numbers their width. -/
  Fits : α → Prop
  takes : ∀ {a : α}, Fits a → Takes decode (encode a) a

export Lawful (Fits)

theorem read_encode [Binary α] [Lawful α] {a : α} (h : Fits a) : read? (encode a) = some a := by
  have ht := Lawful.takes h []
  rw [List.append_nil] at ht
  unfold read?
  rw [ht]; rfl

instance : Lawful Double where
  Fits _ := True
  takes {d} _ := by
    have h := (takes_readWord (k := 8) (n := d.bits.toNat) d.bits.toNat_lt).map fun n => (⟨UInt64.ofNat n⟩ : Double)
    rwa [UInt64.ofNat_toNat] at h

instance : Lawful String where
  Fits s := Small s.utf8ByteSize
  takes {s} h := by
    have hl : Takes (StateT.lift (Text.ofBytes? (Text.bytes s)) : Decoder String) [] s := by
      intro rest
      rw [Text.ofBytes_bytes]; rfl
    have ht : Takes (readBytes s.utf8ByteSize >>= fun bytes => StateT.lift (Text.ofBytes? bytes))
        (Text.bytes s ++ []) s := (takes_readBytes (Text.length_bytes s)).bind hl
    rw [List.append_nil] at ht
    exact (takes_readSize h).bind ht

instance [Binary α] [Lawful α] : Lawful (List α) where
  Fits l := Small l.length ∧ ∀ a ∈ l, Fits a
  takes h := takes_readList h.1 fun a ha => Lawful.takes (h.2 a ha)

theorem takes_readSizes {shape : List Nat} (hl : Small shape.length) (h : ∀ n ∈ shape, Small n) :
    Takes readSizes (sizes shape) shape :=
  takes_readList hl fun n hn => takes_readSize (h n hn)

instance [Binary α] [Lawful α] : Lawful (Tensor α) where
  Fits t := (Small t.shape.length ∧ ∀ n ∈ t.shape, Small n) ∧ Fits t.data
  takes {t} h := (takes_readSizes h.1.1 h.1.2).bind ((Lawful.takes h.2).map fun data => (⟨t.shape, data⟩ : Tensor α))

/-! ## Collections -/

section

variable [Binary α] [Lawful α]

/-- A name and the value under it. -/
def entry (e : String × α) : List UInt8 := encode e.1 ++ encode e.2

def readEntry : Decoder (String × α) := do
  let k ← decode
  let v ← decode
  return (k, v)

/-- The length of a list of entries fits eight bytes, and so do names and values. -/
def EntriesFit (l : List (String × α)) : Prop := Small l.length ∧ ∀ e ∈ l, Fits e.1 ∧ Fits e.2

theorem takes_entries {l : List (String × α)} (h : EntriesFit l) : Takes (readList readEntry) (listOf entry l) l :=
  takes_readList h.1 fun e he => (Lawful.takes (h.2 e he).1).bind ((Lawful.takes (h.2 e he).2).map _)

instance : Lawful (Keyed α) where
  Fits m := Small m.entries.length ∧ ∀ e ∈ m.entries, Fits e.1 ∧ Fits e.2
  takes {m} h := by
    have hm : Takes decode (encode m) (Keyed.ofList m.entries) := (takes_entries h).map Keyed.ofList
    rwa [Keyed.ofList_entries] at hm

end

/-! ## Files and artifacts -/

instance : Lawful Version where
  Fits v := v.major < 2 ^ 32 ∧ v.minor < 2 ^ 32 ∧ v.patch < 2 ^ 32
  takes {v} h := by
    show Takes (_ >>= _) (_ ++ _ ++ _) _
    rw [List.append_assoc]
    exact .bind (takes_readWord h.1) (.bind (takes_readWord h.2.1) ((takes_readWord h.2.2).map _))

instance : Lawful Provenance where
  Fits p := Fits p.key ∧ Fits p.files ∧ Fits p.createdAt ∧ Fits p.tools
  takes {p} h := by
    show Takes (_ >>= _) (_ ++ _ ++ _ ++ _) _
    rw [List.append_assoc, List.append_assoc]
    exact .bind (Lawful.takes h.1) (.bind (Lawful.takes h.2.1)
      (.bind (Lawful.takes h.2.2.1) ((Lawful.takes h.2.2.2).map _)))

instance [Binary α] [Lawful α] : Lawful (Artifact α) where
  Fits a := Fits a.version ∧ Fits a.provenance ∧ Fits a.value
  takes {a} h := by
    show Takes (_ >>= _) (_ ++ _ ++ _) _
    rw [List.append_assoc]
    exact .bind (Lawful.takes h.1) (.bind (Lawful.takes h.2.1) ((Lawful.takes h.2.2).map _))

instance [Binary α] [Lawful α] : Lawful (WeightedAverage α) where
  Fits a := (Small a.bucketShape.length ∧ ∀ n ∈ a.bucketShape, Small n) ∧ Fits a.average ∧ Fits a.weights
  takes {a} h := by
    show Takes (_ >>= _) (_ ++ _ ++ _) _
    rw [List.append_assoc]
    exact .bind (takes_readSizes h.1.1 h.1.2) (.bind (Lawful.takes h.2.1) ((Lawful.takes h.2.2).map _))

instance [Binary α] [Lawful α] : Lawful (CollectedBuckets α) where
  Fits c := (Small c.bucketShape.length ∧ ∀ n ∈ c.bucketShape, Small n) ∧ Fits c.rows
  takes h := .bind (takes_readSizes h.1.1 h.1.2) ((Lawful.takes h.2).map _)

/-! ## Whether a value fits can be decided -/

section

instance (d : Double) : Decidable (Fits d) := .isTrue trivial

instance (s : String) : Decidable (Fits s) := inferInstanceAs (Decidable (Small _))

instance (v : Version) : Decidable (Fits v) := inferInstanceAs (Decidable (_ ∧ _))

variable [Binary α] [Lawful α] [∀ a : α, Decidable (Fits a)]

instance (l : List α) : Decidable (Fits l) := inferInstanceAs (Decidable (_ ∧ _))

instance (t : Tensor α) : Decidable (Fits t) := inferInstanceAs (Decidable (_ ∧ _))

instance (m : Keyed α) : Decidable (Fits m) := inferInstanceAs (Decidable (_ ∧ ∀ e ∈ m.entries, _ ∧ _))

instance (a : WeightedAverage α) : Decidable (Fits a) := inferInstanceAs (Decidable (_ ∧ _))

instance (c : CollectedBuckets α) : Decidable (Fits c) := inferInstanceAs (Decidable (_ ∧ _))

end

end Binary
end ShotTally
