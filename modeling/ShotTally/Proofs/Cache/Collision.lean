/-
When two calls share a key. The bytes a key is the digest of are equal exactly when the calls ask for
the same of the same paths, and hexadecimal digits keep digests apart: the key of two different calls
is one only where the digest takes two different messages to the same bytes.
-/
import ShotTally.Proofs.Cache.Key

namespace ShotTally

/-! ## Bytes and digits -/

namespace Sha256

/-- The digits of a byte. -/
def hexPair (b : UInt8) : List Char := [Text.hexDigit (b.toNat / 16), Text.hexDigit (b.toNat % 16)]

theorem hexPair_injective {a b : UInt8} (h : hexPair a = hexPair b) : a = b := by
  have hdigit : ∀ m < 16, ∀ n < 16, Text.hexDigit m = Text.hexDigit n → m = n := by decide
  have ha := a.toNat_lt
  have hb := b.toNat_lt
  have hhigh := hdigit (a.toNat / 16) (by omega) (b.toNat / 16) (by omega) (List.cons.inj h).1
  have hlow := hdigit (a.toNat % 16) (by omega) (b.toNat % 16) (by omega) (List.cons.inj (List.cons.inj h).2).1
  exact UInt8.toNat_inj.1 (by omega)

/-- Bytes are read off their digits, two by two. -/
theorem hexPairs_injective : ∀ {u v : List UInt8}, u.flatMap hexPair = v.flatMap hexPair → u = v
  | [], [], _ => rfl
  | [], _ :: _, h => by simp [hexPair] at h
  | _ :: _, [], h => by simp [hexPair] at h
  | a :: u, b :: v, h => by
    rw [List.flatMap_cons, List.flatMap_cons] at h
    obtain ⟨hfirst, hrest⟩ := List.append_inj h rfl
    rw [hexPair_injective hfirst, hexPairs_injective hrest]

/-- Two different messages with one digest. -/
def Collide (x y : List UInt8) : Prop := x ≠ y ∧ digest x = digest y

/-- Texts with one digest in digits are equal, or their bytes collide. -/
theorem hexOf_eq_iff {s t : String} : hexOf s = hexOf t ↔ s = t ∨ Collide (Text.bytes s) (Text.bytes t) := by
  constructor
  · intro h
    have hd : digest (Text.bytes s) = digest (Text.bytes t) := hexPairs_injective (String.ofList_injective h)
    by_cases hs : s = t
    · exact .inl hs
    · exact .inr ⟨fun hb => hs (Text.bytes_injective hb), hd⟩
  · rintro (rfl | ⟨-, hd⟩)
    · rfl
    · rw [hexOf, hexOf, hd]

end Sha256

/-! ## Keys -/

namespace Cache

/-- The text of a key says the operation, the paths and the parts of the query, and nothing else. -/
theorem material_text_eq_iff {operation operation' : String} {location location' : Option String}
    {files files' : List String} {q q' : Query} :
    (material operation location files q).canonicalText = (material operation' location' files' q').canonicalText ↔
      operation = operation' ∧ filePaths location files = filePaths location' files' ∧ q = q' := by
  refine ⟨material_text_inj, ?_⟩
  rintro ⟨rfl, hpaths, rfl⟩
  rw [material, material, hpaths]

theorem query_eq_iff {q q' : Query} : q = q' ↔
    q.quantity = q'.quantity ∧ q.splits.source = q'.splits.source ∧ q.splits.modulator = q'.splits.modulator ∧
      q.slices.axes = q'.slices.axes ∧ q.rules = q'.rules := by
  obtain ⟨quantity, rules, ⟨source, modulator⟩, ⟨axes⟩⟩ := q
  obtain ⟨quantity', rules', ⟨source', modulator'⟩, ⟨axes'⟩⟩ := q'
  simp only [Query.mk.injEq, Splits.mk.injEq, Slices.mk.injEq]
  grind

/-- The bytes a key is the digest of are unambiguous, so two calls with one key are the same call, or
the digest takes their different bytes to one. -/
theorem key_unambiguous (operation operation' : String) (location location' : Option String)
    (files files' : List String) (q q' : Query) :
    (Text.bytes (material operation location files q).canonicalText =
        Text.bytes (material operation' location' files' q').canonicalText ↔
      operation = operation' ∧ filePaths location files = filePaths location' files' ∧
        q.quantity = q'.quantity ∧ q.splits.source = q'.splits.source ∧
        q.splits.modulator = q'.splits.modulator ∧ q.slices.axes = q'.slices.axes ∧ q.rules = q'.rules) ∧
    (key operation location files q = key operation' location' files' q' ↔
      (operation = operation' ∧ filePaths location files = filePaths location' files' ∧ q = q') ∨
        Sha256.Collide (Text.bytes (material operation location files q).canonicalText)
          (Text.bytes (material operation' location' files' q').canonicalText)) := by
  constructor
  · rw [← query_eq_iff, ← material_text_eq_iff]
    exact ⟨Text.bytes_injective, congrArg _⟩
  · rw [← material_text_eq_iff]
    exact Sha256.hexOf_eq_iff

end Cache
end ShotTally
