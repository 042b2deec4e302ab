/-
Numbers set out as text. A numeral is read off its text, and it stands for the decimal that was set out; so the
text of a number, which shows its sign too, says which number it is.
-/
import ShotTally.Decimal.Layout
import ShotTally.Proofs.Decimal.Rounding
import ShotTally.Proofs.Text.Digits

namespace ShotTally.Decimal

open Text

/-! ## Numerals -/

/-- Digits before a point, digits behind it if there is one, and an exponent if there is one. -/
structure Numeral where
  whole : List Char
  part : Option (List Char)
  exponent : Option Int
  whole_ne_nil : whole ≠ []
  digits : ∀ c ∈ whole ++ part.getD [], isDigit c = true

namespace Numeral

def pointText : Option (List Char) → List Char
  | some ds => '.' :: ds
  | none => []

def exponentText : Option Int → List Char
  | some e => 'e' :: (if 0 ≤ e then '+' :: intDigits e else intDigits e)
  | none => []

def text (n : Numeral) : List Char := n.whole ++ (pointText n.part ++ exponentText n.exponent)

/-- The number that a numeral stands for. -/
def value (n : Numeral) : ℚ :=
  ((readDigits 0 (n.whole ++ n.part.getD [])).getD 0 : Nat) * 10 ^ (n.exponent.getD 0 - (n.part.getD []).length)

theorem noDigit_exponentText (e : Option Int) : NoDigit (exponentText e) := by
  intro c hc
  cases e with
  | none => cases hc
  | some e => cases hc; rfl

theorem noDigit_pointText (part : Option (List Char)) (e : Option Int) :
    NoDigit (pointText part ++ exponentText e) := by
  cases part with
  | none => exact noDigit_exponentText e
  | some ds =>
    intro c hc
    cases hc
    rfl

theorem exponentText_injective {e e' : Option Int} (h : exponentText e = exponentText e') : e = e' := by
  have hnone : NoDigit [] := fun c hc => by cases hc
  -- a sign is written on every exponent, a plus where there is no minus
  have hsign : ∀ i j : Int, 0 ≤ i → ¬ 0 ≤ j → '+' :: intDigits i ≠ intDigits j := by
    intro i j _ hj
    cases j with
    | ofNat n => exact absurd (Int.natCast_nonneg n) hj
    | negSucc n => exact fun h => by cases (List.cons.inj h).1
  cases e <;> cases e'
  · rfl
  · cases h
  · cases h
  · rename_i i j
    have h := (List.cons.inj h).2
    by_cases hi : 0 ≤ i <;> by_cases hj : 0 ≤ j
    · rw [if_pos hi, if_pos hj, List.cons.injEq, ← List.append_nil (intDigits i), ← List.append_nil (intDigits j)] at h
      rw [(intDigits_append_inj hnone hnone h.2).1]
    · rw [if_pos hi, if_neg hj] at h
      exact absurd h (hsign i j hi hj)
    · rw [if_neg hi, if_pos hj] at h
      exact absurd h.symm (hsign j i hj hi)
    · rw [if_neg hi, if_neg hj, ← List.append_nil (intDigits i), ← List.append_nil (intDigits j)] at h
      rw [(intDigits_append_inj hnone hnone h).1]

theorem pointText_append_inj {part part' : Option (List Char)} {e e' : Option Int}
    (hp : ∀ c ∈ part.getD [], isDigit c = true) (hp' : ∀ c ∈ part'.getD [], isDigit c = true)
    (h : pointText part ++ exponentText e = pointText part' ++ exponentText e') : part = part' ∧ e = e' := by
  have hmark : ∀ (ds : List Char) (e e' : Option Int), '.' :: ds ++ exponentText e ≠ exponentText e' := by
    intro ds e e' h
    cases e' <;> cases h
  cases part <;> cases part'
  · exact ⟨rfl, exponentText_injective h⟩
  · exact absurd h.symm (hmark _ _ _)
  · exact absurd h (hmark _ _ _)
  · obtain ⟨hds, he⟩ := digits_append_inj hp hp' (noDigit_exponentText e) (noDigit_exponentText e') (List.cons.inj h).2
    exact ⟨congrArg some hds, exponentText_injective he⟩

/-- A numeral is read off its text. -/
theorem value_eq_of_text {m n : Numeral} (h : m.text = n.text) : m.value = n.value := by
  obtain ⟨hwhole, hrest⟩ := digits_append_inj (fun c hc => m.digits c (List.mem_append_left _ hc))
    (fun c hc => n.digits c (List.mem_append_left _ hc)) (noDigit_pointText _ _) (noDigit_pointText _ _) h
  obtain ⟨hpart, hexponent⟩ := pointText_append_inj (fun c hc => m.digits c (List.mem_append_right _ hc))
    (fun c hc => n.digits c (List.mem_append_right _ hc)) hrest
  rw [value, value, hwhole, hpart, hexponent]

end Numeral

/-! ## What is set out -/

theorem readDigits_zeros (acc : Nat) : ∀ k : Nat, readDigits acc (List.replicate k '0') = some (acc * 10 ^ k)
  | 0 => by rw [pow_zero, mul_one]; rfl
  | k + 1 => by
    show readDigits (10 * acc + 0) (List.replicate k '0') = _
    rw [readDigits_zeros, pow_succ', add_zero]
    congr 1
    ring

/-- A numeral sets out a decimal. -/
structure Numeral.SetsOut (n : Numeral) (d : Decimal) (cs : List Char) : Prop where
  text : n.text = cs
  value : n.value = d.value

open Numeral (pointText exponentText)

theorem exists_numeral (whole : List Char) (part : Option (List Char)) (exponent : Option Int)
    {cs : List Char} {m : Nat}
    {d : Decimal} (hne : whole ≠ []) (hread : readDigits 0 (whole ++ part.getD []) = some m)
    (hvalue : (m : ℚ) * 10 ^ (exponent.getD 0 - (part.getD []).length) = d.value)
    (htext : whole ++ (pointText part ++ exponentText exponent) = cs) :
    ∃ n : Numeral, n.SetsOut d cs ∧ n.part = part ∧ n.exponent = exponent := by
  have hdigits := (readDigits_eq_some.1 hread).1
  refine ⟨⟨whole, part, exponent, hne, hdigits⟩, ⟨htext, ?_⟩, rfl, rfl⟩
  rw [Numeral.value, hread, Option.getD_some, hvalue]

theorem exists_plain (pointZero : Bool) (d : Decimal) :
    ∃ n : Numeral, n.SetsOut d (plainDigits pointZero d) ∧ (pointZero = true → n.part.isSome) := by
  unfold plainDigits
  split
  · -- zeros behind the digits
    rename_i h
    obtain ⟨k, hk⟩ := Int.eq_ofNat_of_zero_le h
    have hread : ∀ j, readDigits 0 (natDigits d.digits ++ List.replicate j '0') = some (d.digits * 10 ^ j) := by
      intro j
      rw [readDigits_append, readDigits_natDigits, Option.bind_some, readDigits_zeros]
    have hwhole : natDigits d.digits ++ List.replicate k '0' ≠ [] := by simp [natDigits_ne_nil]
    rw [hk, Int.toNat_natCast]
    cases pointZero with
    | true =>
      have hread' : readDigits 0 (natDigits d.digits ++ List.replicate k '0' ++ ['0']) =
          some (d.digits * 10 ^ (k + 1)) := by
        rw [List.append_assoc, ← List.replicate_succ', hread]
      have hvalue : ((d.digits * 10 ^ (k + 1) : Nat) : ℚ) * 10 ^ (0 - 1 : Int) = d.value := by
        rw [value, hk, zpow_natCast, pow_succ]
        push_cast
        field_simp
      obtain ⟨n, hn, hpart, -⟩ := exists_numeral _ (some ['0']) none hwhole hread' hvalue rfl
      exact ⟨n, by simpa [pointText, exponentText] using hn, fun _ => by rw [hpart]; rfl⟩
    | false =>
      obtain ⟨n, hn, -⟩ := exists_numeral _ none none hwhole (by rw [Option.getD_none, List.append_nil, hread]) (d := d)
        (by simp [value, hk]) rfl
      exact ⟨n, by simpa [pointText, exponentText] using hn, fun h => by cases h⟩
  · rename_i h
    obtain ⟨k, hk⟩ : ∃ k : Nat, d.exponent = -k := ⟨(-d.exponent).toNat, by omega⟩
    rw [hk, neg_neg, Int.toNat_natCast]
    dsimp only
    split
    · -- the point among the digits
      rename_i hlen
      have hread : readDigits 0 ((natDigits d.digits).take ((natDigits d.digits).length - k) ++
          (natDigits d.digits).drop ((natDigits d.digits).length - k)) = some d.digits := by
        rw [List.take_append_drop, readDigits_natDigits]
      have hwhole : (natDigits d.digits).take ((natDigits d.digits).length - k) ≠ [] := by
        simp only [ne_eq, List.take_eq_nil_iff, natDigits_ne_nil, or_false]
        omega
      obtain ⟨n, hn, hpart, -⟩ := exists_numeral _ (some _) none (d := d) hwhole hread (by
        rw [Option.getD_some, List.length_drop, value, hk, Option.getD_none]
        congr 2
        omega) rfl
      exact ⟨n, by simpa [pointText, exponentText] using hn, fun _ => by rw [hpart]; rfl⟩
    · -- zeros before the digits
      rename_i hlen
      have hread : readDigits 0
        (['0'] ++ (List.replicate (k - (natDigits d.digits).length) '0' ++ natDigits d.digits)) =
          some d.digits := by
        show readDigits 0 (List.replicate _ '0' ++ natDigits d.digits) = _
        rw [readDigits_append, readDigits_zeros, Option.bind_some, zero_mul, readDigits_natDigits]
      obtain ⟨n, hn, hpart, -⟩ := exists_numeral ['0'] (some _) none (d := d) (by simp) hread (by
        rw [Option.getD_some, List.length_append, List.length_replicate, value, hk, Option.getD_none]
        congr 2
        omega) rfl
      exact ⟨n, by simpa [pointText, exponentText] using hn, fun _ => by rw [hpart]; rfl⟩

theorem exists_withExponent (d : Decimal) : ∃ n : Numeral, n.SetsOut d (exponentDigits d) ∧ n.exponent.isSome := by
  have hread := readDigits_natDigits d.digits
  have hlen : d.leading = ((natDigits d.digits).length : Int) + d.exponent - 1 := rfl
  unfold exponentDigits
  dsimp only
  split
  · rename_i c hds
    rw [hds] at hread hlen
    obtain ⟨n, hn, -, hexponent⟩ := exists_numeral [c] none (some d.leading) (d := d) (by simp) hread
      (by simp [hlen, value]) rfl
    exact ⟨n, by simpa [pointText, exponentText] using hn, by rw [hexponent]; rfl⟩
  · rename_i c rest _ hds
    rw [hds] at hread hlen
    obtain ⟨n, hn, -, hexponent⟩ := exists_numeral [c] (some rest) (some d.leading) (d := d) (by simp) hread (by
      rw [Option.getD_some, Option.getD_some, hlen, List.length_cons, value]
      congr 2
      omega) rfl
    exact ⟨n, by simpa [pointText, exponentText] using hn, by rw [hexponent]; rfl⟩
  · rename_i hds
    exact absurd hds (natDigits_ne_nil _)

theorem exists_digits (l : Layout) (d : Decimal) :
    ∃ n : Numeral, n.SetsOut d (l.digits d) ∧ (l.pointZero = true → n.part.isSome ∨ n.exponent.isSome) := by
  have hplain : ∃ n : Numeral, n.SetsOut d (plainDigits l.pointZero d) ∧
      (l.pointZero = true → n.part.isSome ∨ n.exponent.isSome) :=
    (exists_plain l.pointZero d).imp fun n hn => ⟨hn.1, fun hpoint => .inl (hn.2 hpoint)⟩
  unfold Layout.digits
  split
  · exact hplain
  · split
    · exact hplain
    · exact (exists_withExponent d).imp fun n hn => ⟨hn.1, fun _ => .inr hn.2⟩

/-! ## The text of a number -/

/-- The sign that stands before the digits. -/
def signText (x : Double) : List Char := if x.isNegative then ['-'] else []

theorem toList_text (l : Layout) {x : Double} (h : x.isFinite = true) :
    (l.text x).toList = signText x ++ l.digits (shortest l.tie x) := by
  have hnan : x.isNaN = false := by rw [Double.isNaN, h]; rfl
  unfold Layout.text
  rw [hnan, if_neg Bool.false_ne_true]
  dsimp only
  rw [if_pos h, String.toList_ofList, signText]

/-- A numeral starts with a digit. -/
theorem Numeral.head_text (n : Numeral) : ∃ c cs, n.text = c :: cs ∧ isDigit c = true := by
  obtain ⟨c, cs, h⟩ := List.exists_cons_of_ne_nil n.whole_ne_nil
  refine ⟨c, _, by rw [text, h, List.cons_append], n.digits c (List.mem_append_left _ ?_)⟩
  rw [h]
  exact List.mem_cons_self

theorem Numeral.text_ne_minus (n : Numeral) (cs : List Char) : n.text ≠ '-' :: cs := by
  obtain ⟨c, cs', h, hc⟩ := n.head_text
  rintro h'
  rw [h] at h'
  rw [(List.cons.inj h').1] at hc
  cases hc

theorem signText_append_inj {x y : Double} {m n : Numeral} (h : signText x ++ m.text = signText y ++ n.text) :
    x.isNegative = y.isNegative ∧ m.text = n.text := by
  unfold signText at h
  cases hx : x.isNegative <;> cases hy : y.isNegative <;> rw [hx, hy] at h
  · exact ⟨rfl, h⟩
  · exact absurd h (m.text_ne_minus _)
  · exact absurd h.symm (n.text_ne_minus _)
  · exact ⟨rfl, (List.cons.inj h).2⟩

/-- Finite numbers with one text are equal. -/
theorem Layout.text_injective (l : Layout) {x y : Double} (hx : x.isFinite = true) (hy : y.isFinite = true)
    (h : l.text x = l.text y) : x = y := by
  obtain ⟨m, hm, -⟩ := exists_digits l (shortest l.tie x)
  obtain ⟨n, hn, -⟩ := exists_digits l (shortest l.tie y)
  have hlist := congrArg String.toList h
  rw [toList_text l hx, toList_text l hy, ← hm.text, ← hn.text] at hlist
  obtain ⟨hsign, htext⟩ := signText_append_inj hlist
  refine eq_of_shortest hsign (?_ : (shortest l.tie x).value = _)
  rw [← hm.value, ← hn.value]
  exact Numeral.value_eq_of_text htext

/-! ## Its characters -/

/-- A character of a number. -/
def isNumberChar (c : Char) : Bool := isDigit c || ['.', 'e', '+', '-'].contains c

theorem isNumberChar_digit {c : Char} (h : isDigit c = true) : isNumberChar c = true := by
  rw [isNumberChar, h, Bool.true_or]

theorem intChar_of_mem {c : Char} : ∀ {i : Int}, c ∈ intDigits i → isDigit c = true ∨ c = '-'
  | .ofNat _, h => .inl (isDigit_of_mem_natDigits h)
  | .negSucc _, h => (List.mem_cons.1 h).elim .inr fun h => .inl (isDigit_of_mem_natDigits h)

theorem isNumberChar_int {c : Char} {i : Int} (h : c ∈ intDigits i) : isNumberChar c = true := by
  rcases intChar_of_mem h with h | rfl
  · exact isNumberChar_digit h
  · rfl

theorem Numeral.isNumberChar_text {n : Numeral} {c : Char} (h : c ∈ n.text) : isNumberChar c = true := by
  -- whole digits, then the part after the point, then the exponent
  rcases List.mem_append.1 h with h | h
  · exact isNumberChar_digit (n.digits c (List.mem_append_left _ h))
  rcases List.mem_append.1 h with h | h
  · cases hpart : n.part with
    | none =>
      rw [hpart] at h
      cases h
    | some ds =>
      rw [hpart] at h
      rcases List.mem_cons.1 h with rfl | h
      · rfl
      · exact isNumberChar_digit (n.digits c (List.mem_append_right _ (by rwa [hpart])))
  · cases hexponent : n.exponent with
    | none =>
      rw [hexponent] at h
      cases h
    | some e =>
      rw [hexponent] at h
      rcases List.mem_cons.1 h with rfl | h
      · rfl
      split at h
      · rcases List.mem_cons.1 h with rfl | h
        · rfl
        · exact isNumberChar_int h
      · exact isNumberChar_int h

/-- The text of a finite number has only these characters. -/
theorem Layout.isNumberChar_text (l : Layout) {x : Double} (hx : x.isFinite = true) {c : Char}
    (h : c ∈ (l.text x).toList) :
    isNumberChar c = true := by
  obtain ⟨n, hn, -⟩ := exists_digits l (shortest l.tie x)
  rw [toList_text l hx, ← hn.text] at h
  rcases List.mem_append.1 h with h | h
  · unfold signText at h
    split at h
    · rw [List.mem_singleton.1 h]
      rfl
    · cases h
  · exact n.isNumberChar_text h

/-- With a fraction on whole numbers every text has a point or an exponent. -/
theorem Layout.exists_mark (l : Layout) (hl : l.pointZero = true) {x : Double} (hx : x.isFinite = true) :
    ∃ c ∈ (l.text x).toList, c = '.' ∨ c = 'e' := by
  obtain ⟨n, hn, hmark⟩ := exists_digits l (shortest l.tie x)
  rw [toList_text l hx, ← hn.text]
  rcases hmark hl with hpart | hexponent
  · obtain ⟨ds, hds⟩ := Option.isSome_iff_exists.1 hpart
    exact ⟨'.', by simp [Numeral.text, hds, pointText], .inl rfl⟩
  · obtain ⟨e, he⟩ := Option.isSome_iff_exists.1 hexponent
    exact ⟨'e', by simp [Numeral.text, he, exponentText], .inr rfl⟩

/-- No whole number is written like a number with a point or an exponent. -/
theorem Layout.text_ne_int (l : Layout) (hl : l.pointZero = true) {x : Double} (hx : x.isFinite = true) (i : Int) :
    (l.text x).toList ≠ intDigits i := by
  intro h
  obtain ⟨c, hc, hmark⟩ := l.exists_mark hl hx
  rw [h] at hc
  rcases intChar_of_mem hc with hd | rfl
  · rcases hmark with rfl | rfl <;> cases hd
  · rcases hmark with h | h <;> cases h

/-- The text of a finite number starts with a sign or a digit. -/
theorem Layout.head_text (l : Layout) {x : Double} (hx : x.isFinite = true) :
    ∃ c cs, (l.text x).toList = c :: cs ∧ (c = '-' ∨ isDigit c = true) := by
  obtain ⟨n, hn, -⟩ := exists_digits l (shortest l.tie x)
  obtain ⟨c, cs, hc, hd⟩ := n.head_text
  rw [toList_text l hx, ← hn.text, signText, hc]
  split
  · exact ⟨'-', _, rfl, .inl rfl⟩
  · exact ⟨c, cs, rfl, .inr hd⟩

/-! ## Numbers that are not finite -/

section

variable {x y : Double}

/-- What is not finite is written as a word. -/
theorem Layout.text_of_not_finite (l : Layout) (h : x.isFinite = false) :
    l.text x = if x.isNaN then "NaN" else if x.isNegative then "-inf" else "inf" := by
  unfold Layout.text
  rw [h]
  cases x.isNaN <;> cases x.isNegative <;> rfl

theorem Layout.exists_letter (l : Layout) (h : x.isFinite = false) :
    ∃ c ∈ (l.text x).toList, isNumberChar c = false := by
  rw [l.text_of_not_finite h]
  cases x.isNaN <;> cases x.isNegative
  · exact ⟨'n', by decide, rfl⟩
  · exact ⟨'n', by decide, rfl⟩
  · exact ⟨'N', by decide, rfl⟩
  · exact ⟨'N', by decide, rfl⟩

/-- The text of a number shows whether it is finite. -/
theorem Layout.isFinite_eq (l : Layout) (h : l.text x = l.text y) : x.isFinite = y.isFinite := by
  have hfinite : ∀ {x y : Double}, l.text x = l.text y → x.isFinite = true → y.isFinite = true := by
    intro x y h hx
    by_contra hy
    obtain ⟨c, hc, hletter⟩ := l.exists_letter (Bool.not_eq_true _ ▸ hy)
    rw [← h] at hc
    rw [l.isNumberChar_text hx hc] at hletter
    cases hletter
  exact Bool.eq_iff_iff.2 ⟨hfinite h, hfinite h.symm⟩

/-- A number that is not NaN is read off its text. -/
theorem Layout.eq_of_text (l : Layout) (hx : x.isNaN = false) (h : l.text x = l.text y) : x = y := by
  have hfinite := l.isFinite_eq h
  cases hxf : x.isFinite with
  | true => exact l.text_injective hxf (hfinite ▸ hxf) h
  | false =>
    have hyf : y.isFinite = false := hfinite ▸ hxf
    rw [l.text_of_not_finite hxf, l.text_of_not_finite hyf, hx] at h
    have hsign : x.isNegative = y.isNegative ∧ y.isNaN = false := by
      revert h
      cases x.isNegative <;> cases y.isNegative <;> cases y.isNaN <;> decide
    refine Double.eq_of_place hsign.1 ?_
    rw [Double.place_of_infinite hxf hx, Double.place_of_infinite hyf hsign.2]

end

end ShotTally.Decimal
