/-
Numbers written with leading zeros. As long as the zeros fill them up to one width, the texts have the order of the
numbers.
-/
import Mathlib.Algebra.Ring.Nat
import ShotTally.Proofs.Text.Digits

namespace ShotTally.Text

/-! ## Digits of one length -/

theorem foldl_digits (ds : List Char) : ∀ acc : Nat,
    ds.foldl (fun n d => 10 * n + digitValue d) acc = acc * 10 ^ ds.length + digitsValue ds := by
  unfold digitsValue
  induction ds with
  | nil => simp
  | cons d ds ih =>
    intro acc
    rw [List.foldl_cons, List.foldl_cons, ih, ih (10 * 0 + _), List.length_cons, Nat.pow_succ, Nat.mul_zero,
      Nat.zero_add,
      Nat.add_mul, ← Nat.add_assoc, Nat.mul_comm 10 acc, Nat.mul_assoc, Nat.mul_comm 10]

theorem digitsValue_cons (d : Char) (ds : List Char) :
    digitsValue (d :: ds) = digitValue d * 10 ^ ds.length + digitsValue ds := by
  rw [digitsValue, List.foldl_cons, foldl_digits, Nat.mul_zero, Nat.zero_add]

theorem digitsValue_lt {ds : List Char} (h : ∀ d ∈ ds, isDigit d = true) : digitsValue ds < 10 ^ ds.length := by
  induction ds with
  | nil => decide
  | cons d ds ih =>
    obtain ⟨hd, hds⟩ := List.forall_mem_cons.1 h
    have hrest := ih hds
    have hdigit : digitValue d + 1 ≤ 10 := by
      have := toNat_of_isDigit hd
      unfold digitValue
      omega
    calc digitsValue (d :: ds)
        = digitValue d * 10 ^ ds.length + digitsValue ds := digitsValue_cons d ds
      _ < (digitValue d + 1) * 10 ^ ds.length := by
        rw [Nat.add_mul, Nat.one_mul]
        omega
      _ ≤ 10 ^ (ds.length + 1) := by
        rw [Nat.pow_succ, Nat.mul_comm]
        exact Nat.mul_le_mul_left _ hdigit

theorem digitValue_lt_of_lt {c d : Char} (hc : isDigit c = true) (h : c < d) : digitValue c < digitValue d := by
  have hlow := toNat_of_isDigit hc
  have hlt : c.toNat < d.toNat := UInt32.lt_iff_toNat_lt.1 h
  unfold digitValue
  omega

/-- Of digits of one length, those that come first stand for the lesser number. -/
theorem digitsValue_lt_of_lt {ds es : List Char} (hd : ∀ d ∈ ds, isDigit d = true) (he : ∀ e ∈ es, isDigit e = true)
    (hlen : ds.length = es.length) (h : ds < es) : digitsValue ds < digitsValue es := by
  induction h with
  | nil => cases hlen
  | @rel c cs d' ds' hcd =>
    obtain ⟨hc, hcs⟩ := List.forall_mem_cons.1 hd
    have hlen' : cs.length = ds'.length := Nat.succ.inj hlen
    have hfirst : digitValue c + 1 ≤ digitValue d' := digitValue_lt_of_lt hc hcd
    calc digitsValue (c :: cs)
        = digitValue c * 10 ^ cs.length + digitsValue cs := digitsValue_cons c cs
      _ < digitValue c * 10 ^ cs.length + 10 ^ cs.length := Nat.add_lt_add_left (digitsValue_lt hcs) _
      _ = (digitValue c + 1) * 10 ^ ds'.length := by rw [Nat.add_mul, Nat.one_mul, hlen']
      _ ≤ digitValue d' * 10 ^ ds'.length := Nat.mul_le_mul_right _ hfirst
      _ ≤ digitsValue (d' :: ds') := by
        rw [digitsValue_cons]
        exact Nat.le_add_right _ _
  | @cons c cs ds' _ ih =>
    have hlen' : cs.length = ds'.length := Nat.succ.inj hlen
    rw [digitsValue_cons, digitsValue_cons, hlen']
    exact Nat.add_lt_add_left (ih (List.forall_mem_cons.1 hd).2 (List.forall_mem_cons.1 he).2 hlen') _

/-- What follows does not matter to the order of texts of one length. -/
theorem append_lt_append {ds es : List Char} (hlen : ds.length = es.length) (h : ds < es) (r s : List Char) :
    ds ++ r < es ++ s := by
  induction h with
  | nil => cases hlen
  | rel hcd => exact .rel hcd
  | cons _ ih => exact .cons (ih (Nat.succ.inj hlen))

/-! ## Leading zeros -/

theorem length_natDigits_le : ∀ {width n : Nat}, 0 < width → n < 10 ^ width → (natDigits n).length ≤ width
  | 1, _, _, h => by
    rw [natDigits_of_lt h]
    exact Nat.le_refl 1
  | width + 2, n, _, h => by
    by_cases hn : n < 10
    · rw [natDigits_of_lt hn]
      exact Nat.le_add_left 1 _
    · have htenth : n / 10 < 10 ^ (width + 1) := Nat.div_lt_of_lt_mul (by rwa [Nat.pow_succ, Nat.mul_comm] at h)
      rw [natDigits_of_le (Nat.not_lt.1 hn), List.length_append]
      exact Nat.succ_le_succ (length_natDigits_le (Nat.succ_pos width) htenth)

theorem toList_padded (width n : Nat) :
    (padded width n).toList = List.replicate (width - (natDigits n).length) '0' ++ natDigits n := String.toList_ofList

theorem isDigit_of_mem_padded {width n : Nat} {c : Char} (h : c ∈ (padded width n).toList) : isDigit c = true := by
  rw [toList_padded] at h
  rcases List.mem_append.1 h with h | h
  · rw [List.eq_of_mem_replicate h]
    rfl
  · exact isDigit_of_mem_natDigits h

/-- Leading zeros add nothing to a number. -/
theorem digitsValue_padded (width n : Nat) : digitsValue (padded width n).toList = n := by
  have hzeros : ∀ k : Nat, digitsValue (List.replicate k '0' ++ natDigits n) = n := by
    intro k
    induction k with
    | zero => exact digitsValue_natDigits n
    | succ k ih =>
      rw [List.replicate_succ, List.cons_append, digitsValue_cons, ih]
      exact (congrArg (· + n) (Nat.zero_mul _)).trans (Nat.zero_add n)
  rw [toList_padded]
  exact hzeros _

theorem padded_injective {width m n : Nat} (h : padded width m = padded width n) : m = n := by
  rw [← digitsValue_padded width m, h, digitsValue_padded]

theorem length_padded {width n : Nat} (hw : 0 < width) (h : n < 10 ^ width) :
    (padded width n).toList.length = width := by
  rw [toList_padded, List.length_append, List.length_replicate]
  exact Nat.sub_add_cancel (length_natDigits_le hw h)

/-- Numbers that the zeros fill up to one width have the order of their texts. -/
theorem padded_lt_padded {width m n : Nat} (hw : 0 < width) (hmn : m < n) (hn : n < 10 ^ width) :
    (padded width m).toList < (padded width n).toList := by
  have hlen : (padded width n).toList.length = (padded width m).toList.length :=
    (length_padded hw hn).trans (length_padded hw (Nat.lt_trans hmn hn)).symm
  rcases Std.lt_trichotomy (padded width m).toList (padded width n).toList with h | h | h
  · exact h
  · exact absurd (padded_injective (String.toList_injective h)) (Nat.ne_of_lt hmn)
  · have hvalue := digitsValue_lt_of_lt (fun _ => isDigit_of_mem_padded) (fun _ => isDigit_of_mem_padded) hlen h
    rw [digitsValue_padded, digitsValue_padded] at hvalue
    exact absurd hvalue (Nat.lt_asymm hmn)

end ShotTally.Text
