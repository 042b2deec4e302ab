/-
Equality as text and equality of numbers. A number that is not NaN is read off its canonical text, so a condition with
a colon before a number selects the shots that have this very number; with an equals sign the other zero is selected
too where the number is a zero. Elsewhere the two conditions select the same shots.
-/
import ShotTally.Proofs.Decimal.Numeral
import ShotTally.Proofs.Number.Order
import ShotTally.Proofs.Rule.Settling
import ShotTally.Proofs.Text.Split

namespace ShotTally.Rule

open Predicate Text
open Decimal (lower exponent? unsigned? magnitude?)

/-! ## Numbers are words -/

instance (c : Char) : Decidable (WordChar c) := inferInstanceAs (Decidable (_ ∧ _))

/-- Digits and capital letters belong to words. -/
theorem wordChar_of_range {c : Char} (h : 48 ≤ c.toNat ∧ c.toNat ≤ 57 ∨ 65 ≤ c.toNat ∧ c.toNat ≤ 90) : WordChar c := by
  refine ⟨isBlank_of_graphic (by omega), fun hmark => ?_⟩
  simp only [marks, List.mem_cons, List.not_mem_nil, or_false] at hmark
  rcases hmark with rfl | rfl | rfl | rfl | rfl | rfl | rfl | rfl | rfl | rfl | rfl <;> revert h <;> decide

theorem wordChar_of_isDigit {c : Char} (h : isDigit c = true) : WordChar c :=
  wordChar_of_range (.inl (toNat_of_isDigit h))

theorem wordChar_of_lower {c : Char} (h : WordChar (lower c)) : WordChar c := by
  unfold lower at h
  split at h
  · rename_i hcapital
    have hrange : 65 ≤ c.toNat ∧ c.toNat ≤ 90 := by simpa [Char.le_def, UInt32.le_iff_toNat_le] using hcapital
    exact wordChar_of_range (.inr hrange)
  · exact h

/-- Only characters of words. -/
def Wordlike (cs : List Char) : Prop := ∀ c ∈ cs, WordChar c

instance (cs : List Char) : Decidable (Wordlike cs) := List.decidableBAll (fun c => WordChar c) cs

theorem Wordlike.cons {c : Char} {cs : List Char} (hc : WordChar c) (h : Wordlike cs) : Wordlike (c :: cs) :=
  List.forall_mem_cons.2 ⟨hc, h⟩

section

variable {cs : List Char} {x : Double}

theorem wordlike_of_nat {n : Nat} (h : nat? cs = some n) : Wordlike cs :=
  fun c hc => wordChar_of_isDigit ((nat?_eq_some.1 h).2.1 c hc)

theorem wordlike_of_exponent {e : Int} (h : exponent? cs = some e) : Wordlike cs := by
  unfold exponent? at h
  split at h
  all_goals
    obtain ⟨_, hnat, -⟩ := Option.map_eq_some_iff.1 h
    obtain ⟨n, hn, -⟩ := Option.bind_eq_some_iff.1 hnat
  · exact (wordlike_of_nat hn).cons (by decide)
  · exact (wordlike_of_nat hn).cons (by decide)
  · exact wordlike_of_nat hn

theorem wordlike_digits (h : Wordlike (cs.dropWhile isDigit)) : Wordlike cs := by
  intro c hc
  rw [← List.takeWhile_append_dropWhile (p := isDigit) (l := cs)] at hc
  rcases List.mem_append.1 hc with hc | hc
  · exact wordChar_of_isDigit (List.mem_takeWhile_imp hc)
  · exact h c hc

/-- Behind the digits there is nothing, or an exponent. -/
theorem wordlike_of_ending {rest : List Char} {whole : Option Double} {value : Int → Option Double}
    (h : (match rest with
      | [] => whole
      | c :: more => if c = 'e' ∨ c = 'E' then (exponent? more).bind value else none) = some x) : Wordlike rest := by
  split at h
  · exact fun c hc => absurd hc List.not_mem_nil
  · split at h
    · rename_i c more hmark
      obtain ⟨e, he, -⟩ := Option.bind_eq_some_iff.1 h
      refine (wordlike_of_exponent he).cons ?_
      rcases hmark with rfl | rfl <;> decide
    · cases h

theorem wordlike_of_unsigned (h : unsigned? cs = some x) : Wordlike cs := by
  refine wordlike_digits ?_
  unfold unsigned? at h
  dsimp only at h
  generalize cs.dropWhile isDigit = after at h ⊢
  -- behind a point there may be digits before the number ends
  by_cases hpoint : ∃ more, after = '.' :: more
  · obtain ⟨more, rfl⟩ := hpoint
    exact (wordlike_digits (wordlike_of_ending h)).cons (by decide)
  · have hend := wordlike_of_ending h
    split at hend
    · exact absurd ⟨_, rfl⟩ hpoint
    · exact hend

theorem wordlike_of_magnitude (h : magnitude? cs = some x) : Wordlike cs := by
  have hword : ∀ word : String, String.ofList (cs.map lower) = word → Wordlike word.toList → Wordlike cs := by
    intro word hword hall c hc
    refine wordChar_of_lower (hall _ ?_)
    rw [← hword, String.toList_ofList]
    exact List.mem_map_of_mem hc
  unfold magnitude? at h
  split at h
  · exact hword "inf" ‹_› (by decide +kernel)
  · exact hword "infinity" ‹_› (by decide +kernel)
  · exact hword "nan" ‹_› (by decide +kernel)
  · exact wordlike_of_unsigned h

/-- A number is written in characters of words. -/
theorem wordlike_of_parse (h : Double.parse? cs = some x) : Wordlike cs := by
  unfold Double.parse? at h
  split at h
  · obtain ⟨y, hy, -⟩ := Option.map_eq_some_iff.1 h
    exact (wordlike_of_magnitude hy).cons (by decide)
  · exact (wordlike_of_magnitude h).cons (by decide)
  · exact wordlike_of_magnitude h

theorem ne_nil_of_parse (h : Double.parse? cs = some x) : cs ≠ [] := by
  rintro rfl
  have hnone : Double.parse? [] = none := by decide +kernel
  rw [hnone] at h
  cases h

end

/-! ## Rules of one condition -/

variable {keyword operand : List Char} {c : Char} {cmp : Comparison}

/-- A word, a comparison and a word are a rule. -/
theorem isRule_condition (hne : keyword ≠ []) (hkeyword : Wordlike keyword) (hc : Comparison.ofSymbol? c = some cmp)
    (hmark : c ∈ marks) (hne' : operand ≠ []) (hoperand : Wordlike operand) (hw : Operand cmp operand) :
    IsRule (.ofList (keyword ++ c :: operand)) (condition keyword cmp operand) := by
  have hlast : Reads operand [.word operand] := by
    have h : Reads (operand ++ []) [.word operand] := .word hne' hoperand (fun _ h => by cases h) .nil
    rwa [List.append_nil] at h
  refine ⟨[.word keyword, .mark c, .word operand], ?_, .alt (.conj (.unary (.primary (.condition hc hw))))⟩
  rw [String.toList_ofList]
  refine .word hne hkeyword ?_ (.mark hmark hlast)
  rintro d hd hword
  cases hd
  exact hword.2 hmark

/-- A condition asks for its column and compares what it gets. -/
theorem evaluate_condition (keyword : List Char) (cmp : Comparison) (operand : List Char) (source : String)
    (accessor : Accessor) : ((condition keyword cmp operand).predicate source).evaluate accessor =
      accessor (.ofList keyword) >>= Atom.onColumn ⟨.ofList keyword, cmp, .ofList operand, Double.parse? operand⟩ := by
  have hlook : ∀ a : Atom, (Tree.atom a).find accessor >>= Finding.look accessor = (Finding.unread a).look accessor :=
    fun a => pure_bind _ _
  rw [evaluate_eq, Tree.inquire_predicate (t := condition keyword cmp operand) source trivial, condition, hlook,
    Finding.look, (Asks.column _).answer_bind fun _ => .given _, answer_column]
  rfl

/-! ## Conditions on numbers -/

theorem onColumn_numbers {a : Atom} {p : Double → Bool} (h : ∀ v, a.onNumber v = p v) (values : List Double) :
    a.onColumn (.numbers values) = .ok (.flags (values.map p)) := by
  rw [Atom.onColumn, funext h]

theorem onColumn_number {a : Atom} {p : Double → Bool} (h : ∀ v, a.onNumber v = p v) (v : Double) :
    a.onColumn (.number v) = .ok (.constant (p v)) := by
  rw [Atom.onColumn, h]

section

variable {x : Double} (hnumber : Double.parse? operand = some x) (hx : x.isNaN = false)

include hnumber hx

/-- Only the number itself has its canonical text. -/
theorem onNumber_textEqual (v : Double) :
    Atom.onNumber ⟨.ofList keyword, .textEqual, .ofList operand, Double.parse? operand⟩ v = decide (v = x) := by
  have htext : v.text = x.text ↔ v = x :=
    ⟨fun h => (Decimal.canonical.eq_of_text hx h.symm).symm, congrArg Double.text⟩
  rw [hnumber]
  exact decide_eq_decide.2 htext

theorem onNumber_numberEqual (v : Double) :
    Atom.onNumber ⟨.ofList keyword, .numberEqual, .ofList operand, Double.parse? operand⟩ v =
      decide (v = x ∨ v.OppositeZeros x) := by
  rw [hnumber, Bool.eq_iff_iff, decide_eq_true_iff]
  refine Double.numEq_iff.trans ⟨fun h => h.2.2, fun h => ⟨?_, hx, h⟩⟩
  rcases h with rfl | ⟨rfl, -⟩ | ⟨rfl, -⟩
  · exact hx
  · rfl
  · rfl

end

/-- A keyword and a number with a colon between them select the shots that have this very number; with an equals sign
they select the other zero too where the number is a zero, and no other shot. The values of the keyword may be any
numbers, one for each shot or one for all. -/
theorem evaluate_equalities {x : Double} (hne : keyword ≠ []) (hkeyword : Wordlike keyword)
    (hnumber : Double.parse? operand = some x) (hx : x.isNaN = false) :
    ∃ byText byNumber, compile (some (.ofList (keyword ++ ':' :: operand))) = .ok byText ∧
      compile (some (.ofList (keyword ++ '=' :: operand))) = .ok byNumber ∧ ∀ accessor : Accessor,
        (∀ values, accessor (.ofList keyword) = .ok (.numbers values) →
          byText.evaluate accessor = .ok (.flags (values.map fun v => decide (v = x))) ∧
          byNumber.evaluate accessor = .ok (.flags (values.map fun v => decide (v = x ∨ v.OppositeZeros x)))) ∧
        ∀ v, accessor (.ofList keyword) = .ok (.number v) →
          byText.evaluate accessor = .ok (.constant (decide (v = x))) ∧
          byNumber.evaluate accessor = .ok (.constant (decide (v = x ∨ v.OppositeZeros x))) := by
  -- both rules are single conditions, and differ in the comparison alone
  have hrule : ∀ {c cmp}, Comparison.ofSymbol? c = some cmp → c ∈ marks →
      IsRule (.ofList (keyword ++ c :: operand)) (condition keyword cmp operand) := fun hc hmark =>
    isRule_condition hne hkeyword hc hmark (ne_nil_of_parse hnumber) (wordlike_of_parse hnumber)
      (.inr (Option.isSome_iff_exists.2 ⟨x, hnumber⟩))
  refine ⟨_, _, (hrule rfl (by decide)).compile, (hrule rfl (by decide)).compile, fun accessor => ⟨?_, ?_⟩⟩
  · intro values hcolumn
    rw [evaluate_condition, evaluate_condition, hcolumn]
    exact ⟨onColumn_numbers (onNumber_textEqual hnumber hx) values,
      onColumn_numbers (onNumber_numberEqual hnumber hx) values⟩
  · intro v hcolumn
    rw [evaluate_condition, evaluate_condition, hcolumn]
    exact ⟨onColumn_number (onNumber_textEqual hnumber hx) v, onColumn_number (onNumber_numberEqual hnumber hx) v⟩

/-- Values on both sides of a rounding, the zeros, and values that are not finite. -/
def mixedColumn : List Double := [.zero, .negZero, .one, .nan, .infinity]

theorem evaluate_equalities_zero : ∃ byText byNumber, compile (some "k:-0.0e5") = .ok byText ∧
    compile (some "k=-0.0e5") = .ok byNumber ∧
    byText.evaluate (.ofColumns (.ofList [("k", .numbers mixedColumn)])) =
      .ok (.flags [false, true, false, false, false]) ∧
    byNumber.evaluate (.ofColumns (.ofList [("k", .numbers mixedColumn)])) =
      .ok (.flags [true, true, false, false, false]) := by
  have hnumber : Double.parse? "-0.0e5".toList = some .negZero := by decide +kernel
  obtain ⟨byText, byNumber, htext, hnum, h⟩ :=
    evaluate_equalities (List.cons_ne_nil 'k' []) (by decide) hnumber rfl
  obtain ⟨ht, hn⟩ := (h (.ofColumns (.ofList [("k", .numbers mixedColumn)]))).1 mixedColumn rfl
  exact ⟨byText, byNumber, htext, hnum, ht.trans (by decide +kernel), hn.trans (by decide +kernel)⟩

/-- The two zeros are equal numbers with different texts. -/
theorem evaluate_equalities_apart : Double.parse? ['0'] = some .zero ∧ Double.negZero.isNaN = false ∧
    ∃ byText byNumber, compile (some "k:0") = .ok byText ∧ compile (some "k=0") = .ok byNumber ∧
      byText.evaluate (.ofColumns (.ofList [("k", .numbers [.negZero])])) = .ok (.flags [false]) ∧
      byNumber.evaluate (.ofColumns (.ofList [("k", .numbers [.negZero])])) = .ok (.flags [true]) := by
  refine ⟨by decide +kernel, rfl, ⟨"k:0", [⟨"k", .textEqual, "0", some .zero⟩], [.atom 0]⟩,
    ⟨"k=0", [⟨"k", .numberEqual, "0", some .zero⟩], [.atom 0]⟩, ?_⟩
  decide +kernel

end ShotTally.Rule
