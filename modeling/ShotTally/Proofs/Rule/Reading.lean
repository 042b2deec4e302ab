/-
The lexemes of a text are the words and marks it falls into: cutting a text from its end, a word
character joins the word behind it, gives the same words as taking each as long as it can be.
-/
import ShotTally.Proofs.Rule.Grammar

namespace ShotTally.Rule

open Text

namespace Lexeme

/-- A lexeme without its place. -/
def sign : Lexeme → Sign
  | word text _ => .word text
  | mark symbol _ => .mark symbol

end Lexeme

theorem isMark_iff {c : Char} : Lexeme.isMark c = true ↔ c ∈ marks := by
  unfold Lexeme.isMark Operator.ofSymbol? Comparison.ofSymbol?
  constructor
  · intro h
    split at h <;> first | decide | skip
    split at h <;> first | decide | skip
    simp only [Option.isSome_none, Bool.or_eq_true, beq_iff_eq, Bool.false_eq_true, false_or] at h
    rcases h with rfl | rfl <;> decide
  · intro h
    simp only [marks, List.mem_cons, List.not_mem_nil, or_false] at h
    rcases h with rfl | rfl | rfl | rfl | rfl | rfl | rfl | rfl | rfl | rfl | rfl <;> rfl

theorem isWordChar_iff {c : Char} : Lexeme.isWordChar c = true ↔ WordChar c := by
  unfold Lexeme.isWordChar WordChar
  rw [Bool.and_eq_true, Bool.not_eq_true', Bool.not_eq_true', ← isMark_iff, Bool.not_eq_true]

/-- No mark is blank. -/
theorem isBlank_of_mem_marks {c : Char} (h : c ∈ marks) : isBlank c = false := by
  simp only [marks, List.mem_cons, List.not_mem_nil, or_false] at h
  rcases h with rfl | rfl | rfl | rfl | rfl | rfl | rfl | rfl | rfl | rfl | rfl <;> decide

/-- Whether the next character goes on with a word. -/
def Continues (cs : List Char) : Prop := ∃ c ∈ cs.head?, WordChar c

theorem continues_iff (cs : List Char) :
    (cs.head?.map Lexeme.isWordChar).getD false = true ↔ Continues cs := by
  cases cs <;> simp [Continues, isWordChar_iff]

namespace Lexeme

theorem scan_blank {p : Nat} {c : Char} {cs : List Char} (h : isBlank c = true) :
    scan p (c :: cs) = scan (p + c.utf8Size) cs := by
  rw [scan]; simp only [h, if_true]

theorem scan_mark {p : Nat} {c : Char} {cs : List Char} (h : c ∈ marks) :
    scan p (c :: cs) = .mark c p :: scan (p + c.utf8Size) cs := by
  rw [scan]; simp [isBlank_of_mem_marks h, isMark_iff.2 h]

theorem scan_last {p : Nat} {c : Char} {cs : List Char} (h : WordChar c) (hn : ¬ Continues cs) :
    scan p (c :: cs) = .word [c] p :: scan (p + c.utf8Size) cs := by
  have hm : isMark c = false := by rw [← Bool.not_eq_true, isMark_iff]; exact h.2
  have hc : (cs.head?.map isWordChar).getD false = false := by
    rw [← Bool.not_eq_true, continues_iff]; exact hn
  rw [scan]; simp only [h.1, hm, hc, Bool.false_eq_true, if_false]

theorem scan_more {p : Nat} {c : Char} {cs : List Char} (h : WordChar c) (hc : Continues cs)
    {w : List Char} {q : Nat} {rest : List Lexeme} (hr : scan (p + c.utf8Size) cs = .word w q :: rest) :
    scan p (c :: cs) = .word (c :: w) p :: rest := by
  have hm : isMark c = false := by rw [← Bool.not_eq_true, isMark_iff]; exact h.2
  rw [scan]; simp only [h.1, hm, (continues_iff cs).2 hc, hr, Bool.false_eq_true, if_true, if_false]

/-- A word that is as long as it can be is one lexeme. -/
theorem scan_word {cs : List Char} (hmax : ∀ c ∈ cs.head?, ¬ WordChar c) :
    ∀ {w : List Char} (p : Nat), w ≠ [] → (∀ c ∈ w, WordChar c) →
      ∃ q, scan p (w ++ cs) = .word w p :: scan q cs
  | [c], p, _, hw => ⟨_, scan_last (hw c (by simp)) fun ⟨d, hd, h⟩ => hmax d hd h⟩
  | c :: d :: w, p, _, hw => by
    obtain ⟨q, hq⟩ := scan_word hmax (w := d :: w) (p + c.utf8Size) (by simp)
      fun e he => hw e (List.mem_cons_of_mem c he)
    exact ⟨q, scan_more (hw c (by simp)) ⟨d, rfl, hw d (by simp)⟩ hq⟩

end Lexeme

/-- The signs a text falls into are those of its lexemes. -/
theorem Reads.scan_eq {cs : List Char} {l : List Sign} (h : Reads cs l) :
    ∀ p, (Lexeme.scan p cs).map Lexeme.sign = l := by
  induction h with
  | nil => intro p; rfl
  | blank hb _ ih => intro p; rw [Lexeme.scan_blank hb]; exact ih _
  | mark hm _ ih => intro p; rw [Lexeme.scan_mark hm, List.map_cons, ih]; rfl
  | word ne all max _ ih =>
    intro p
    obtain ⟨q, hq⟩ := Lexeme.scan_word max p ne all
    rw [hq, List.map_cons, ih]; rfl

/-- A text that starts with a word character falls into a word and the rest. -/
theorem Reads.exists_word {cs : List Char} {l : List Sign} (h : Reads cs l) (hc : Continues cs) :
    ∃ w rest m, w ≠ [] ∧ (∀ c ∈ w, WordChar c) ∧ (∀ c ∈ rest.head?, ¬ WordChar c) ∧ Reads rest m ∧
      cs = w ++ rest ∧ l = .word w :: m := by
  cases h with
  | nil => obtain ⟨c, hc, -⟩ := hc; cases hc
  | blank hb _ => obtain ⟨c, hc, h⟩ := hc; cases hc; rw [h.1] at hb; cases hb
  | mark hm _ => obtain ⟨c, hc, h⟩ := hc; cases hc; exact absurd hm h.2
  | word ne all max r => exact ⟨_, _, _, ne, all, max, r, rfl, rfl⟩

/-- Every text falls into the signs of its lexemes. -/
theorem reads_scan : ∀ (cs : List Char) (p : Nat), Reads cs ((Lexeme.scan p cs).map Lexeme.sign)
  | [], _ => .nil
  | c :: cs, p => by
    have ih := reads_scan cs (p + c.utf8Size)
    by_cases hb : isBlank c = true
    · rw [Lexeme.scan_blank hb]; exact .blank hb ih
    · by_cases hm : c ∈ marks
      · rw [Lexeme.scan_mark hm]; exact .mark hm ih
      · have hw : WordChar c := ⟨Bool.not_eq_true _ ▸ hb, hm⟩
        by_cases hc : Continues cs
        · obtain ⟨w, rest, m, hne, hall, hmax, hr, rfl, hl⟩ := ih.exists_word hc
          obtain ⟨q, hq⟩ := Lexeme.scan_word hmax (p + c.utf8Size) hne hall
          rw [Lexeme.scan_more hw hc hq, List.map_cons, hr.scan_eq]
          exact .word (List.cons_ne_nil c w) (List.forall_mem_cons.2 ⟨hw, hall⟩) hmax hr
        · rw [Lexeme.scan_last hw hc]
          exact .word (w := [c]) (by simp) (by simpa using hw) (fun d hd h => hc ⟨d, hd, h⟩) ih

/-- A text without signs is blank. -/
theorem reads_nil_iff {cs : List Char} : Reads cs [] ↔ ∀ c ∈ cs, isBlank c = true := by
  constructor
  · intro h
    generalize hl : ([] : List Sign) = l at h
    induction h with
    | nil => simp
    | blank hb _ ih => exact List.forall_mem_cons.2 ⟨hb, ih hl⟩
    | mark | word => cases hl
  · induction cs with
    | nil => exact fun _ => .nil
    | cons c cs ih => exact fun h => .blank (h c (by simp)) (ih fun d hd => h d (by simp [hd]))

end ShotTally.Rule
