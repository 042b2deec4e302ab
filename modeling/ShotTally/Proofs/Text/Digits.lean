/-
Whole numbers written as digits: the digits of a number read back to it, so two numbers in front of
something that is no digit are written alike only when they are equal.
-/
import Mathlib.Data.List.Basic
import ShotTally.Text.Numeral

namespace ShotTally.Text

/-! ## Digits -/

theorem isDigit_digitChar {d : Nat} (h : d < 10) : isDigit (digitChar d) = true := by
  revert d; decide

theorem toNat_of_isDigit {c : Char} (h : isDigit c = true) : 48 ≤ c.toNat ∧ c.toNat ≤ 57 := by
  simpa [isDigit, Char.le_def, UInt32.le_iff_toNat_le] using h

theorem digitValue_digitChar {d : Nat} (h : d < 10) : digitValue (digitChar d) = d := by
  revert d; decide

theorem natDigits_of_lt {n : Nat} (h : n < 10) : natDigits n = [digitChar n] := by
  rw [natDigits, digitsRev, dif_pos h]; rfl

/-- The last digit stands behind those of the tenth part. -/
theorem natDigits_of_le {n : Nat} (h : 10 ≤ n) : natDigits n = natDigits (n / 10) ++ [digitChar (n % 10)] := by
  rw [natDigits, digitsRev, dif_neg (by omega), List.reverse_cons, List.map_append]; rfl

theorem natDigits_ne_nil (n : Nat) : natDigits n ≠ [] := by
  by_cases h : n < 10
  · rw [natDigits_of_lt h]; simp
  · rw [natDigits_of_le (by omega)]; simp

theorem isDigit_of_mem_natDigits {c : Char} {n : Nat} (h : c ∈ natDigits n) : isDigit c = true := by
  induction n using Nat.strongRecOn with
  | _ n ih =>
    by_cases hn : n < 10
    · rw [natDigits_of_lt hn, List.mem_singleton] at h
      rw [h]; exact isDigit_digitChar hn
    · rw [natDigits_of_le (by omega), List.mem_append, List.mem_singleton] at h
      rcases h with h | rfl
      · exact ih (n / 10) (by omega) h
      · exact isDigit_digitChar (by omega)

/-! ## Reading digits -/

theorem readDigits_append (v : List Char) : ∀ (u : List Char) (acc : Nat),
    readDigits acc (u ++ v) = (readDigits acc u).bind fun n => readDigits n v
  | [], _ => rfl
  | c :: u, acc => by
    rw [List.cons_append, readDigits, readDigits]
    split
    · exact readDigits_append v u _
    · rfl

/-- The digits of a number read back to it. -/
theorem readDigits_natDigits (n : Nat) : readDigits 0 (natDigits n) = some n := by
  induction n using Nat.strongRecOn with
  | _ n ih =>
    by_cases h : n < 10
    · rw [natDigits_of_lt h, readDigits, if_pos (isDigit_digitChar h), digitValue_digitChar h, readDigits]
      simp
    · have hd : n % 10 < 10 := by omega
      rw [natDigits_of_le (by omega), readDigits_append, ih (n / 10) (by omega), Option.bind_some, readDigits,
        if_pos (isDigit_digitChar hd), digitValue_digitChar hd, readDigits, Nat.div_add_mod]

theorem natDigits_injective {m n : Nat} (h : natDigits m = natDigits n) : m = n := by
  have hm := readDigits_natDigits m
  rw [h, readDigits_natDigits n] at hm
  exact (Option.some.inj hm).symm

/-! ## Numbers in front of something else -/

/-- Characters of a kind in front of something else are read off. -/
theorem span_append_inj {p : Char → Bool} : ∀ {u v r s : List Char}, (∀ c ∈ u, p c = true) → (∀ c ∈ v, p c = true) →
    (∀ c ∈ r.head?, p c = false) → (∀ c ∈ s.head?, p c = false) → u ++ r = v ++ s → u = v ∧ r = s
  | [], [], _, _, _, _, _, _, h => ⟨rfl, h⟩
  | [], d :: v, r, s, _, hv, hr, _, h => by
    rw [List.nil_append] at h
    have hd := hr d (by rw [h]; rfl)
    rw [hv d (by simp)] at hd; cases hd
  | c :: u, [], r, s, hu, _, _, hs, h => by
    rw [List.nil_append] at h
    have hc := hs c (by rw [← h]; rfl)
    rw [hu c (by simp)] at hc; cases hc
  | c :: u, d :: v, r, s, hu, hv, hr, hs, h => by
    obtain ⟨rfl, ht⟩ := List.cons.inj h
    obtain ⟨rfl, rfl⟩ := span_append_inj (fun e he => hu e (by simp [he])) (fun e he => hv e (by simp [he])) hr hs ht
    exact ⟨rfl, rfl⟩

/-- No digit comes first. -/
def NoDigit (r : List Char) : Prop := ∀ c ∈ r.head?, isDigit c = false

theorem digits_append_inj {u v r s : List Char} (hu : ∀ c ∈ u, isDigit c = true) (hv : ∀ c ∈ v, isDigit c = true)
    (hr : NoDigit r) (hs : NoDigit s) (h : u ++ r = v ++ s) : u = v ∧ r = s := span_append_inj hu hv hr hs h

theorem natDigits_append_inj {m n : Nat} {r s : List Char} (hr : NoDigit r) (hs : NoDigit s)
    (h : natDigits m ++ r = natDigits n ++ s) : m = n ∧ r = s := by
  obtain ⟨hd, hrs⟩ := digits_append_inj (fun _ => isDigit_of_mem_natDigits) (fun _ => isDigit_of_mem_natDigits) hr hs h
  exact ⟨natDigits_injective hd, hrs⟩

/-- A number without a sign starts with a digit. -/
theorem head_natDigits (n : Nat) : ∃ c cs, natDigits n = c :: cs ∧ isDigit c = true := by
  obtain ⟨c, cs, h⟩ := List.exists_cons_of_ne_nil (natDigits_ne_nil n)
  exact ⟨c, cs, h, isDigit_of_mem_natDigits (by rw [h]; simp)⟩

theorem natDigits_ne_minus (m : Nat) (r s : List Char) : natDigits m ++ r ≠ '-' :: s := by
  obtain ⟨c, cs, hc, hd⟩ := head_natDigits m
  intro h
  rw [hc, List.cons_append] at h
  rw [(List.cons.inj h).1] at hd
  cases hd

theorem intDigits_append_inj {i j : Int} {r s : List Char} (hr : NoDigit r) (hs : NoDigit s)
    (h : intDigits i ++ r = intDigits j ++ s) : i = j ∧ r = s := by
  rcases i with m | m <;> rcases j with n | n
  · obtain ⟨rfl, hrs⟩ := natDigits_append_inj hr hs h
    exact ⟨rfl, hrs⟩
  · exact absurd h (natDigits_ne_minus m r _)
  · exact absurd h.symm (natDigits_ne_minus n s _)
  · obtain ⟨hmn, hrs⟩ := natDigits_append_inj hr hs (List.cons.inj h).2
    obtain rfl : m = n := by omega
    exact ⟨rfl, hrs⟩

/-! ## Reading signed numbers -/

/-- The number that digits stand for. -/
def digitsValue (ds : List Char) : Nat := ds.foldl (fun n d => 10 * n + digitValue d) 0

/-- One digit or more behind an optional sign, and the number they stand for. -/
inductive IntegerText : List Char → Int → Prop
  | plain {ds : List Char} (hne : ds ≠ []) (hd : ∀ d ∈ ds, isDigit d = true) : IntegerText ds (digitsValue ds)
  | plus {ds : List Char} (hne : ds ≠ []) (hd : ∀ d ∈ ds, isDigit d = true) : IntegerText ('+' :: ds) (digitsValue ds)
  | minus {ds : List Char} (hne : ds ≠ []) (hd : ∀ d ∈ ds, isDigit d = true) : IntegerText ('-' :: ds) (-digitsValue ds)

theorem readDigits_eq_some {ds : List Char} : ∀ {acc n : Nat}, readDigits acc ds = some n ↔
    (∀ d ∈ ds, isDigit d = true) ∧ n = ds.foldl (fun n d => 10 * n + digitValue d) acc := by
  induction ds with
  | nil =>
    intro acc n
    rw [readDigits, Option.some.injEq, List.foldl_nil, eq_comm, and_iff_right (fun _ hd => by cases hd)]
  | cons d ds ih =>
    intro acc n
    rw [readDigits, List.forall_mem_cons, List.foldl_cons]
    by_cases hd : isDigit d = true
    · rw [if_pos hd, ih, and_iff_right hd]
    · rw [if_neg hd, and_assoc, iff_false_left (by simp)]
      exact fun h => hd h.1

theorem nat?_eq_some {ds : List Char} {n : Nat} :
    nat? ds = some n ↔ ds ≠ [] ∧ (∀ d ∈ ds, isDigit d = true) ∧ n = digitsValue ds := by
  cases ds with
  | nil => simp [nat?]
  | cons d ds => exact readDigits_eq_some.trans (and_iff_right (List.cons_ne_nil d ds)).symm

theorem int64?_of_integerText {cs : List Char} {i : Int} (h : IntegerText cs i) :
    int64? cs = (some i).filter isInt64 := by
  cases h with
  | plus hne hd => rw [int64?, nat?_eq_some.2 ⟨hne, hd, rfl⟩]; rfl
  | minus hne hd => rw [int64?, nat?_eq_some.2 ⟨hne, hd, rfl⟩]; rfl
  | plain hne hd =>
    have hsign : ∀ c rest, isDigit c = false → cs ≠ c :: rest := by
      rintro c rest hc rfl
      rw [hd c List.mem_cons_self] at hc
      cases hc
    unfold int64?
    split
    · exact absurd rfl (hsign '-' _ rfl)
    · exact absurd rfl (hsign '+' _ rfl)
    · rw [nat?_eq_some.2 ⟨hne, hd, rfl⟩]
      rfl

/-- What is read as a signed word is written as a whole number, and this is the number. -/
theorem int64?_eq_some {cs : List Char} {i : Int} : int64? cs = some i ↔ IntegerText cs i ∧ isInt64 i = true := by
  constructor
  · intro h
    obtain ⟨hvalue, hrange⟩ := Option.filter_eq_some_iff.1 h
    refine ⟨?_, hrange⟩
    split at hvalue
    all_goals
      obtain ⟨_, hnat, rfl⟩ := Option.map_eq_some_iff.1 hvalue
      obtain ⟨n, hn, hcast⟩ := Option.bind_eq_some_iff.1 hnat
      cases hcast
      obtain ⟨hne, hd, rfl⟩ := nat?_eq_some.1 hn
    · exact .minus hne hd
    · exact .plus hne hd
    · exact .plain hne hd
  · rintro ⟨htext, hrange⟩
    rw [int64?_of_integerText htext, Option.filter_some, if_pos hrange]

theorem IntegerText.ne_nil {cs : List Char} {i : Int} (h : IntegerText cs i) : cs ≠ [] := by
  cases h with
  | plain hne _ => exact hne
  | plus _ _ => exact List.cons_ne_nil _ _
  | minus _ _ => exact List.cons_ne_nil _ _

/-- A whole number is written with digits and a sign. -/
theorem IntegerText.mem {cs : List Char} {i : Int} (h : IntegerText cs i) {c : Char} (hc : c ∈ cs) :
    isDigit c = true ∨ c = '+' ∨ c = '-' := by
  cases h with
  | plain _ hd => exact .inl (hd c hc)
  | plus _ hd => exact (List.mem_cons.1 hc).elim (fun h => .inr (.inl h)) fun h => .inl (hd c h)
  | minus _ hd => exact (List.mem_cons.1 hc).elim (fun h => .inr (.inr h)) fun h => .inl (hd c h)

theorem digitsValue_natDigits (n : Nat) : digitsValue (natDigits n) = n :=
  (readDigits_eq_some.1 (readDigits_natDigits n)).2.symm

/-- A number as it is written stands for itself. -/
theorem integerText_intDigits (i : Int) : IntegerText (intDigits i) i := by
  rcases i with n | n
  · have h := IntegerText.plain (natDigits_ne_nil n) fun _ => isDigit_of_mem_natDigits
    rwa [digitsValue_natDigits] at h
  · have h := IntegerText.minus (natDigits_ne_nil (n + 1)) fun _ => isDigit_of_mem_natDigits
    rwa [digitsValue_natDigits] at h

end ShotTally.Text
