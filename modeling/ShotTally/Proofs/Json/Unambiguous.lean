/-
A record whose numbers are finite is read off its text on one line: two such records in front of
whatever may follow a record are written alike only when they are equal.
-/
import ShotTally.Json.Writing
import ShotTally.Proofs.Decimal.Numeral

namespace ShotTally.Json

open Text
open Decimal (record isNumberChar isNumberChar_int)

/-! ## Characters within quotes -/

/-- The value of a hexadecimal digit below ten, and of the letters behind. -/
def hexValue (c : Char) : Nat := if c.toNat < 58 then c.toNat - 48 else c.toNat - 87

/-- Reads one character within quotes from the front. -/
def readEscaped : List Char → Option (Char × List Char)
  | '\\' :: 'u' :: _ :: _ :: a :: b :: rest => some (Char.ofNat (16 * hexValue a + hexValue b), rest)
  | '\\' :: 'n' :: rest => some ('\n', rest)
  | '\\' :: 'r' :: rest => some ('\r', rest)
  | '\\' :: 't' :: rest => some ('\t', rest)
  | '\\' :: 'b' :: rest => some ('\x08', rest)
  | '\\' :: 'f' :: rest => some ('\x0c', rest)
  | '\\' :: c :: rest => some (c, rest)
  | c :: rest => some (c, rest)
  | [] => none

/-- What is written for a character is read back to it. -/
theorem readEscaped_escape (c : Char) (rest : List Char) : readEscaped (escape c ++ rest) = some (c, rest) := by
  unfold escape
  split <;> try rfl
  split
  · rename_i h
    have hc : ∀ n < 0x20, readEscaped (['\\', 'u', '0', '0', hexDigit (n / 16), hexDigit (n % 16)] ++ rest) =
        some (Char.ofNat n, rest) := by
      intro n hn
      have hx : 16 * hexValue (hexDigit (n / 16)) + hexValue (hexDigit (n % 16)) = n := by
        revert n; decide
      show some (Char.ofNat _, rest) = _
      rw [hx]
    rw [hc c.toNat h, Char.ofNat_toNat]
  · rename_i hb _ _ _ _ _ _
    show readEscaped (c :: rest) = _
    unfold readEscaped
    split <;> simp_all

theorem escape_ne_quote (c : Char) (u r : List Char) : escape c ++ u ≠ '"' :: r := by
  intro h
  unfold escape at h
  split at h <;> try cases (List.cons.inj h).1
  split at h
  · cases (List.cons.inj h).1
  · rename_i hq _ _ _ _ _ _ _
    exact hq (List.cons.inj h).1

theorem escaped_append_inj : ∀ {u v r s : List Char},
    u.flatMap escape ++ '"' :: r = v.flatMap escape ++ '"' :: s → u = v ∧ r = s
  | [], [], _, _, h => ⟨rfl, (List.cons.inj h).2⟩
  | [], d :: v, r, s, h => by
    rw [List.flatMap_cons, List.append_assoc] at h
    exact absurd h.symm (escape_ne_quote d _ _)
  | c :: u, [], r, s, h => by
    rw [List.flatMap_cons, List.append_assoc] at h
    exact absurd h (escape_ne_quote c _ _)
  | c :: u, d :: v, r, s, h => by
    rw [List.flatMap_cons, List.flatMap_cons, List.append_assoc, List.append_assoc] at h
    have hc := readEscaped_escape c (u.flatMap escape ++ '"' :: r)
    rw [h, readEscaped_escape] at hc
    obtain ⟨rfl, ht⟩ := Prod.mk.inj (Option.some.inj hc)
    obtain ⟨rfl, rfl⟩ := escaped_append_inj ht.symm
    exact ⟨rfl, rfl⟩

/-- A text within quotes is read off, whatever follows. -/
theorem quoted_append_inj {s t : String} {r r' : List Char} (h : quoted s ++ r = quoted t ++ r') : s = t ∧ r = r' := by
  unfold quoted at h
  simp only [List.cons_append, List.append_assoc, List.nil_append, List.cons.injEq, true_and] at h
  obtain ⟨hl, hr⟩ := escaped_append_inj h
  exact ⟨String.toList_injective hl, hr⟩

/-! ## Records -/

mutual

/-- Without numbers that are not finite. -/
def Exact : Json → Prop
  | .float x => x.isFinite = true
  | .list items => ExactItems items
  | .object members => ExactMembers members
  | _ => True

def ExactItems : List Json → Prop
  | [] => True
  | j :: rest => Exact j ∧ ExactItems rest

def ExactMembers : List (String × Json) → Prop
  | [] => True
  | (_, j) :: rest => Exact j ∧ ExactMembers rest

end

theorem exactItems_iff : ∀ {items : List Json}, ExactItems items ↔ ∀ j ∈ items, Exact j
  | [] => by simp [ExactItems]
  | j :: rest => by rw [ExactItems, exactItems_iff]; simp

theorem exactMembers_iff : ∀ {members : List (String × Json)}, ExactMembers members ↔ ∀ m ∈ members, Exact m.2
  | [] => by simp [ExactMembers]
  | (k, j) :: rest => by rw [ExactMembers, exactMembers_iff]; simp

/-- What may follow a record: nothing, a comma or a closing bracket. -/
def Ends (r : List Char) : Prop := ∀ c ∈ r.head?, c = ',' ∨ c = ']' ∨ c = '\x7d'

theorem Ends.noDigit {r : List Char} (h : Ends r) : NoDigit r := by
  intro c hc
  rcases h c hc with rfl | rfl | rfl <;> rfl

theorem Ends.noNumberChar {r : List Char} (h : Ends r) : ∀ c ∈ r.head?, isNumberChar c = false := by
  intro c hc
  rcases h c hc with rfl | rfl | rfl <;> rfl

/-- The kinds of records. -/
inductive Kind where
  | null | bool | number | text | list | object
  deriving DecidableEq

def kind : Json → Kind
  | .null => .null
  | .bool _ => .bool
  | .int _ | .float _ => .number
  | .text _ => .text
  | .list _ => .list
  | .object _ => .object

/-- The kind of a record by its first character. -/
def kindOf? (c : Char) : Option Kind :=
  if c = 'n' then some .null
  else if c = 't' ∨ c = 'f' then some .bool
  else if c = '-' ∨ isDigit c = true then some .number
  else if c = '"' then some .text
  else if c = '[' then some .list
  else if c = '\x7b' then some .object
  else none

section

variable {x y : Double}

theorem numberWord_eq (hx : x.isFinite = true) : numberWord x = (record.text x).toList := by
  rw [numberWord, if_pos hx]

theorem isNumberChar_numberWord (hx : x.isFinite = true) {c : Char} (h : c ∈ numberWord x) : isNumberChar c = true := by
  rw [numberWord_eq hx] at h
  exact record.isNumberChar_text hx h

theorem numberWord_append_inj (hx : x.isFinite = true) {word r r' : List Char} (hr : Ends r) (hr' : Ends r')
    (hword : ∀ c ∈ word, isNumberChar c = true) (h : numberWord x ++ r = word ++ r') : numberWord x = word ∧ r = r' :=
  span_append_inj (fun _ => isNumberChar_numberWord hx) hword hr.noNumberChar hr'.noNumberChar h

theorem numberWord_ne_int (hx : x.isFinite = true) (i : Int) : numberWord x ≠ intDigits i := by
  rw [numberWord_eq hx]
  exact record.text_ne_int rfl hx i

theorem numberWord_injective (hx : x.isFinite = true) (hy : y.isFinite = true) (h : numberWord x = numberWord y) :
    x = y := by
  rw [numberWord_eq hx, numberWord_eq hy] at h
  exact record.text_injective hx hy (String.toList_injective h)

end

theorem kindOf_digit {c : Char} (h : isDigit c = true) : kindOf? c = some .number := by
  have hn : ∀ d : Char, isDigit d = false → c ≠ d := by
    rintro d hd rfl
    rw [h] at hd; cases hd
  unfold kindOf?
  rw [if_neg (hn 'n' rfl), if_neg (not_or.2 ⟨hn 't' rfl, hn 'f' rfl⟩), if_pos (.inr h)]

/-- A record starts with a character of its kind. -/
theorem head_compact {j : Json} (hj : Exact j) : ∃ c cs, compact j = c :: cs ∧ kindOf? c = some j.kind := by
  cases j with
  | null => exact ⟨_, _, rfl, rfl⟩
  | bool b => cases b <;> exact ⟨_, _, rfl, rfl⟩
  | int i =>
    rcases i with n | n
    · obtain ⟨c, cs, h, hd⟩ := head_natDigits n
      exact ⟨c, cs, h, kindOf_digit hd⟩
    · exact ⟨_, _, rfl, rfl⟩
  | float x =>
    obtain ⟨c, cs, h, hc⟩ := record.head_text hj
    refine ⟨c, cs, (numberWord_eq hj).trans h, ?_⟩
    rcases hc with rfl | hd
    · rfl
    · exact kindOf_digit hd
  | text s => exact ⟨_, _, rfl, rfl⟩
  | list items => exact ⟨_, _, rfl, rfl⟩
  | object members => exact ⟨_, _, rfl, rfl⟩

theorem kind_eq {j k : Json} (hj : Exact j) (hk : Exact k) {r r' : List Char}
    (h : compact j ++ r = compact k ++ r') : j.kind = k.kind := by
  obtain ⟨c, cs, hc, hcj⟩ := head_compact hj
  obtain ⟨d, ds, hd, hdk⟩ := head_compact hk
  rw [hc, hd, List.cons_append, List.cons_append] at h
  rw [(List.cons.inj h).1, hdk] at hcj
  exact (Option.some.inj hcj).symm

/-- No record starts with a closing bracket. -/
theorem compact_ne_closing {j : Json} (hj : Exact j) {c : Char} (hc : kindOf? c = none) (r s : List Char) :
    compact j ++ r ≠ c :: s := by
  obtain ⟨d, ds, hd, hk⟩ := head_compact hj
  intro h
  rw [hd, List.cons_append] at h
  rw [(List.cons.inj h).1, hc] at hk
  cases hk

/-- What follows the first item of a list, and the value of the first member of an object. -/
def itemsAfter : List Json → List Char
  | [] => [']']
  | j :: rest => ',' :: compactItems (j :: rest)

def membersAfter : List (String × Json) → List Char
  | [] => ['\x7d']
  | m :: rest => ',' :: compactMembers (m :: rest)

theorem compactItems_cons (j : Json) (rest : List Json) : compactItems (j :: rest) = compact j ++ itemsAfter rest := by
  cases rest <;> rfl

theorem compactMembers_cons (k : String) (j : Json) (rest : List (String × Json)) :
    compactMembers ((k, j) :: rest) = quoted k ++ ':' :: (compact j ++ membersAfter rest) := by
  cases rest <;> rfl

theorem ends_itemsAfter (items : List Json) (r : List Char) : Ends (itemsAfter items ++ r) := by
  cases items <;> simp [Ends, itemsAfter]

theorem ends_membersAfter (members : List (String × Json)) (r : List Char) : Ends (membersAfter members ++ r) := by
  cases members <;> simp [Ends, membersAfter]

mutual

/-- A record is read off its text, whatever may follow. -/
theorem compact_append_inj : ∀ {j k : Json}, Exact j → Exact k → ∀ {r r' : List Char}, Ends r → Ends r' →
    compact j ++ r = compact k ++ r' → j = k ∧ r = r'
  | .null, k, hj, hk, r, r', _, _, h => by
    -- the first character tells the kind, but for the two kinds of numbers
    have hkind := kind_eq hj hk h
    cases k <;> cases hkind
    exact ⟨rfl, List.append_cancel_left h⟩
  | .bool b, k, hj, hk, r, r', _, _, h => by
    have hkind := kind_eq hj hk h
    cases k <;> cases hkind
    rename_i c
    cases b <;> cases c <;> first
      | exact ⟨rfl, List.append_cancel_left h⟩
      | cases (List.cons.inj h).1
  | .int i, k, hj, hk, r, r', hr, hr', h => by
    have hkind := kind_eq hj hk h
    cases k <;> cases hkind
    · obtain ⟨rfl, hrr⟩ := intDigits_append_inj hr.noDigit hr'.noDigit h
      exact ⟨rfl, hrr⟩
    · exact absurd (numberWord_append_inj hk hr' hr (fun _ => isNumberChar_int) h.symm).1 (numberWord_ne_int hk i)
  | .float x, k, hj, hk, r, r', hr, hr', h => by
    have hkind := kind_eq hj hk h
    cases k <;> cases hkind
    · rename_i i
      exact absurd (numberWord_append_inj hj hr hr' (fun _ => isNumberChar_int) h).1 (numberWord_ne_int hj i)
    · rename_i y
      obtain ⟨hword, hrr⟩ := numberWord_append_inj hj hr hr' (fun _ => isNumberChar_numberWord hk) h
      exact ⟨by rw [numberWord_injective hj hk hword], hrr⟩
  | .text s, k, hj, hk, r, r', _, _, h => by
    have hkind := kind_eq hj hk h
    cases k <;> cases hkind
    obtain ⟨rfl, hrr⟩ := quoted_append_inj h
    exact ⟨rfl, hrr⟩
  | .list items, k, hj, hk, r, r', _, _, h => by
    have hkind := kind_eq hj hk h
    cases k <;> cases hkind
    obtain ⟨rfl, hrr⟩ := compactItems_append_inj hj hk (List.cons.inj h).2
    exact ⟨rfl, hrr⟩
  | .object members, k, hj, hk, r, r', _, _, h => by
    have hkind := kind_eq hj hk h
    cases k <;> cases hkind
    obtain ⟨rfl, hrr⟩ := compactMembers_append_inj hj hk (List.cons.inj h).2
    exact ⟨rfl, hrr⟩

theorem compactItems_append_inj : ∀ {l m : List Json}, ExactItems l → ExactItems m → ∀ {r r' : List Char},
    compactItems l ++ r = compactItems m ++ r' → l = m ∧ r = r'
  | [], [], _, _, _, _, h => ⟨rfl, (List.cons.inj h).2⟩
  | [], k :: m, _, hm, r, r', h => by
    rw [compactItems_cons, List.append_assoc] at h
    exact absurd h.symm (compact_ne_closing hm.1 rfl _ _)
  | j :: l, [], hl, _, r, r', h => by
    rw [compactItems_cons, List.append_assoc] at h
    exact absurd h (compact_ne_closing hl.1 rfl _ _)
  | j :: l, k :: m, hl, hm, r, r', h => by
    rw [compactItems_cons, compactItems_cons, List.append_assoc, List.append_assoc] at h
    obtain ⟨rfl, ht⟩ := compact_append_inj hl.1 hm.1 (ends_itemsAfter l r) (ends_itemsAfter m r') h
    -- what follows an item is a comma or the closing bracket
    rcases l with _ | ⟨j', l⟩ <;> rcases m with _ | ⟨k', m⟩
    · exact ⟨rfl, (List.cons.inj ht).2⟩
    · cases (List.cons.inj ht).1
    · cases (List.cons.inj ht).1
    · obtain ⟨hlm, hrr⟩ := compactItems_append_inj hl.2 hm.2 (List.cons.inj ht).2
      exact ⟨by rw [hlm], hrr⟩

theorem compactMembers_append_inj : ∀ {l m : List (String × Json)}, ExactMembers l → ExactMembers m →
    ∀ {r r' : List Char}, compactMembers l ++ r = compactMembers m ++ r' → l = m ∧ r = r'
  | [], [], _, _, _, _, h => ⟨rfl, (List.cons.inj h).2⟩
  | [], (k, j) :: m, _, hm, r, r', h => by
    rw [compactMembers_cons] at h
    cases (List.cons.inj h).1
  | (k, j) :: l, [], hl, _, r, r', h => by
    rw [compactMembers_cons] at h
    cases (List.cons.inj h).1
  | (a, j) :: l, (b, k) :: m, hl, hm, r, r', h => by
    rw [compactMembers_cons, compactMembers_cons, List.append_assoc, List.append_assoc] at h
    obtain ⟨rfl, hv⟩ := quoted_append_inj h
    have hv : compact j ++ membersAfter l ++ r = compact k ++ membersAfter m ++ r' := (List.cons.inj hv).2
    rw [List.append_assoc, List.append_assoc] at hv
    obtain ⟨rfl, ht⟩ := compact_append_inj hl.1 hm.1 (ends_membersAfter l r) (ends_membersAfter m r') hv
    -- what follows a member is a comma or the closing brace
    rcases l with _ | ⟨x, l⟩ <;> rcases m with _ | ⟨y, m⟩
    · exact ⟨rfl, (List.cons.inj ht).2⟩
    · cases (List.cons.inj ht).1
    · cases (List.cons.inj ht).1
    · obtain ⟨hlm, hrr⟩ := compactMembers_append_inj hl.2 hm.2 (List.cons.inj ht).2
      exact ⟨by rw [hlm], hrr⟩

end

/-- Two records whose numbers are finite have one text on one line only when they are equal. -/
theorem compact_injective {j k : Json} (hj : Exact j) (hk : Exact k) (h : compact j = compact k) : j = k := by
  have hr : Ends [] := by simp [Ends]
  exact (compact_append_inj hj hk hr hr (by rw [h])).1

end ShotTally.Json
