/-
The canonical form of records. What a record means does not depend on the order in which the members of its objects
were given, and of members with one name only the last one counts. Records with one meaning, and no others, have one
canonical form: within every object of it the names are in increasing order of their bytes, and a record without
numbers that are not finite is determined by its meaning once its names are in order.
-/
import ShotTally.Digest.Sha256
import ShotTally.Proofs.Json.Unambiguous
import ShotTally.Proofs.Keyed
import ShotTally.Proofs.Text.Order

namespace ShotTally.Json

/-! ## Meaning -/

/-- What a record says. An object is what it has under each name. -/
inductive Meaning where
  | null
  | bool (b : Bool)
  | int (i : Int)
  | float (x : Double)
  | text (s : String)
  | list (items : List Meaning)
  | object (members : String → Option Meaning)

mutual

/-- The meaning of a record. A number that is not finite means nothing. -/
def meaning : Json → Meaning
  | .null => .null
  | .bool b => .bool b
  | .int i => .int i
  | .float x => if x.isFinite then .float x else .null
  | .text s => .text s
  | .list items => .list (meaningItems items)
  | .object members => .object (meaningMembers members)

def meaningItems : List Json → List Meaning
  | [] => []
  | j :: rest => meaning j :: meaningItems rest

/-- What is found under a name: the last member that has it. -/
def meaningMembers : List (String × Json) → String → Option Meaning
  | [], _ => none
  | (k, j) :: rest, name => (meaningMembers rest name).or (if name = k then some (meaning j) else none)

end

theorem meaning_float {x : Double} (hx : x.isFinite = true) : meaning (.float x) = .float x := by
  rw [meaning, if_pos hx]

theorem meaningMembers_eq (members : List (String × Json)) (name : String) :
    meaningMembers members name = (members.reverse.lookup name).map meaning := by
  induction members with
  | nil => rfl
  | cons m rest ih =>
    obtain ⟨k, j⟩ := m
    rw [meaningMembers, ih, List.reverse_cons, List.lookup_append, Keyed.lookup_cons]
    cases rest.reverse.lookup name with
    | some v => rfl
    | none => split <;> rfl

/-- Members put in order, the later of two with one name over the earlier one, mean what they meant. -/
theorem meaningMembers_ofList (members : List (String × Json)) :
    meaningMembers (Keyed.ofList members).entries = meaningMembers members := by
  funext name
  rw [meaningMembers_eq, meaningMembers_eq, ← Keyed.get?_ofList, ← Keyed.get?_ofList, Keyed.ofList_entries]

/-- Neighbours with different names may change places. -/
theorem meaningMembers_swap {a b : String} (h : a ≠ b) (j k : Json) (rest : List (String × Json)) :
    meaningMembers ((a, j) :: (b, k) :: rest) = meaningMembers ((b, k) :: (a, j) :: rest) := by
  funext name
  simp only [meaningMembers, Option.or_assoc]
  by_cases ha : name = a
  · rw [if_neg (fun hb => h (ha.symm.trans hb)), Option.none_or, Option.or_none]
  · rw [if_neg ha, Option.none_or, Option.or_none]

/-- A member does not count where a later one has its name. -/
theorem meaningMembers_covered {k : String} {rest : List (String × Json)} (h : ∃ m ∈ rest, m.1 = k) (j : Json) :
    meaningMembers ((k, j) :: rest) = meaningMembers rest := by
  obtain ⟨m, hm, rfl⟩ := h
  funext name
  rw [meaningMembers]
  split
  · rename_i hname
    have hsome : (rest.reverse.lookup name).isSome :=
      List.lookup_isSome_iff.2 ⟨m, List.mem_reverse.2 hm, beq_iff_eq.2 hname⟩
    obtain ⟨j', hj'⟩ := Option.isSome_iff_exists.1 hsome
    rw [meaningMembers_eq, hj']
    rfl
  · exact Option.or_none

/-! ## Order -/

mutual

/-- Within every object the names are in strictly increasing order of their bytes. -/
def Ordered : Json → Prop
  | .list items => OrderedItems items
  | .object members => (members.Pairwise fun a b => Text.bytes a.1 < Text.bytes b.1) ∧ OrderedMembers members
  | _ => True

def OrderedItems : List Json → Prop
  | [] => True
  | j :: rest => Ordered j ∧ OrderedItems rest

def OrderedMembers : List (String × Json) → Prop
  | [] => True
  | (_, j) :: rest => Ordered j ∧ OrderedMembers rest

end

theorem orderedItems_iff : ∀ {items : List Json}, OrderedItems items ↔ ∀ j ∈ items, Ordered j
  | [] => by simp [OrderedItems]
  | j :: rest => by rw [OrderedItems, orderedItems_iff]; simp

theorem orderedMembers_iff : ∀ {members : List (String × Json)}, OrderedMembers members ↔ ∀ m ∈ members, Ordered m.2
  | [] => by simp [OrderedMembers]
  | (k, j) :: rest => by rw [OrderedMembers, orderedMembers_iff]; simp

/-- In order and without numbers that are not finite. -/
def Settled (j : Json) : Prop := j.Exact ∧ j.Ordered

theorem settled_list {items : List Json} : Settled (.list items) ↔ ∀ j ∈ items, Settled j := by
  unfold Settled
  rw [Exact, Ordered, exactItems_iff, orderedItems_iff, forall₂_and]

theorem settled_object {members : List (String × Json)} : Settled (.object members) ↔
    (members.Pairwise fun a b => a.1 < b.1) ∧ ∀ m ∈ members, Settled m.2 := by
  unfold Settled
  rw [Exact, Ordered, exactMembers_iff, orderedMembers_iff, forall₂_and, and_left_comm]
  simp only [Text.bytes_lt_iff]

/-! ## The canonical form -/

theorem canonical_object (members : List (String × Json)) :
    (Json.object members).canonical = .object (Keyed.ofList (canonicalMembers members)).entries := by
  rw [canonical, Keyed.entries_ofList]

mutual

theorem meaning_canonical : ∀ j : Json, j.canonical.meaning = j.meaning
  | .null | .bool _ | .int _ | .text _ => rfl
  | .float x => by
    rw [canonical]
    split
    · rfl
    · rw [meaning, meaning, if_neg ‹_›]
  | .list items => by rw [canonical, meaning, meaning, meaningItems_canonical items]
  | .object members => by
    rw [canonical_object, meaning, meaning, meaningMembers_ofList, meaningMembers_canonical members]

theorem meaningItems_canonical : ∀ items : List Json, meaningItems (canonicalItems items) = meaningItems items
  | [] => rfl
  | j :: rest => by
    rw [canonicalItems, meaningItems, meaningItems, meaning_canonical j, meaningItems_canonical rest]

theorem meaningMembers_canonical : ∀ members : List (String × Json),
    meaningMembers (canonicalMembers members) = meaningMembers members
  | [] => rfl
  | (k, j) :: rest => by
    funext name
    rw [canonicalMembers, meaningMembers, meaningMembers, meaning_canonical j, meaningMembers_canonical rest]

end

mutual

theorem settled_canonical : ∀ j : Json, j.canonical.Settled
  | .null | .bool _ | .int _ | .text _ => ⟨trivial, trivial⟩
  | .float x => by
    rw [canonical]
    split
    · exact ⟨‹_›, trivial⟩
    · exact ⟨trivial, trivial⟩
  | .list items => settled_list.2 (settled_canonicalItems items)
  | .object members => by
    rw [canonical_object]
    exact settled_object.2 ⟨(Keyed.ofList _).sorted, fun m hm =>
      settled_canonicalMembers members m (Keyed.mem_of_mem_ofList hm)⟩

theorem settled_canonicalItems : ∀ items : List Json, ∀ j ∈ canonicalItems items, j.Settled
  | [], _, h => absurd h List.not_mem_nil
  | j :: rest, k, h => by
    rcases List.mem_cons.1 h with rfl | h
    · exact settled_canonical j
    · exact settled_canonicalItems rest k h

theorem settled_canonicalMembers : ∀ members : List (String × Json), ∀ m ∈ canonicalMembers members, m.2.Settled
  | [], _, h => absurd h List.not_mem_nil
  | (k, j) :: rest, m, h => by
    rcases List.mem_cons.1 h with rfl | h
    · exact settled_canonical j
    · exact settled_canonicalMembers rest m h

end

/-! ## One meaning, one form -/

section

variable {k : String} {j : Json} {rest : List (String × Json)}

theorem meaningMembers_eq_none {name : String} (h : ∀ m ∈ rest, name < m.1) : meaningMembers rest name = none := by
  induction rest with
  | nil => rfl
  | cons m rest ih =>
    obtain ⟨k, j⟩ := m
    have hne : name ≠ k := fun he => String.lt_irrefl k (he ▸ h _ List.mem_cons_self)
    rw [meaningMembers, ih fun m hm => h m (List.mem_cons_of_mem _ hm), if_neg hne]
    rfl

/-- The least name has one member. -/
theorem meaningMembers_head (h : ((k, j) :: rest).Pairwise fun a b => a.1 < b.1) :
    meaningMembers ((k, j) :: rest) k = some j.meaning := by
  rw [meaningMembers, meaningMembers_eq_none (List.pairwise_cons.1 h).1, if_pos rfl]
  rfl

/-- Behind the least name all other names are found. -/
theorem meaningMembers_tail (h : ((k, j) :: rest).Pairwise fun a b => a.1 < b.1) (name : String) :
    meaningMembers rest name = if name = k then none else meaningMembers ((k, j) :: rest) name := by
  split
  · rename_i hk
    rw [hk]
    exact meaningMembers_eq_none (List.pairwise_cons.1 h).1
  · rename_i hk
    rw [meaningMembers, if_neg hk, Option.or_none]

end

/-- In two orders that find the same the least names are one. -/
theorem least_eq {l m : List (String × Json)} {a b : String} {j k : Json}
    (hl : ((a, j) :: l).Pairwise fun a b => a.1 < b.1) (hm : ((b, k) :: m).Pairwise fun a b => a.1 < b.1)
    (h : ∀ name, meaningMembers ((a, j) :: l) name = meaningMembers ((b, k) :: m) name) : a = b := by
  have hle : ∀ {l m : List (String × Json)} {a b : String} {j k : Json},
      ((a, j) :: l).Pairwise (fun a b => a.1 < b.1) → ((b, k) :: m).Pairwise (fun a b => a.1 < b.1) →
      (∀ name, meaningMembers ((a, j) :: l) name = meaningMembers ((b, k) :: m) name) → ¬ a < b := by
    intro l m a b j k hl hm h hab
    have hnone : meaningMembers ((b, k) :: m) a = none := meaningMembers_eq_none (List.forall_mem_cons.2
      ⟨hab, fun e he => String.lt_trans hab ((List.pairwise_cons.1 hm).1 e he)⟩)
    rw [← h, meaningMembers_head hl] at hnone
    cases hnone
  exact String.le_antisymm (String.not_lt.1 (hle hm hl fun name => (h name).symm)) (String.not_lt.1 (hle hl hm h))

/-- The meaning of a record without numbers that are not finite is built like the record. -/
theorem ctorIdx_meaning : ∀ {j : Json}, j.Exact → j.meaning.ctorIdx = j.ctorIdx
  | .null, _ | .bool _, _ | .int _, _ | .text _, _ | .list _, _ | .object _, _ => rfl
  | .float _, h => by rw [meaning_float h]; rfl

theorem ctorIdx_eq {j k : Json} (hj : j.Settled) (hk : k.Settled) (h : j.meaning = k.meaning) :
    j.ctorIdx = k.ctorIdx := by
  rw [← ctorIdx_meaning hj.1, h, ctorIdx_meaning hk.1]

mutual

/-- A record in order is determined by its meaning. -/
theorem eq_of_meaning : ∀ {j k : Json}, j.Settled → k.Settled → j.meaning = k.meaning → j = k
  | .null, k, hj, hk, h => by
    -- values of equal meaning are of one kind, so each case compares a value with its like
    have hidx := ctorIdx_eq hj hk h
    cases k <;> cases hidx
    rfl
  | .bool b, k, hj, hk, h => by
    have hidx := ctorIdx_eq hj hk h
    cases k <;> cases hidx
    exact congrArg Json.bool (Meaning.bool.inj h)
  | .int i, k, hj, hk, h => by
    have hidx := ctorIdx_eq hj hk h
    cases k <;> cases hidx
    exact congrArg Json.int (Meaning.int.inj h)
  | .float x, k, hj, hk, h => by
    have hidx := ctorIdx_eq hj hk h
    cases k <;> cases hidx
    rw [meaning_float hj.1, meaning_float hk.1] at h
    exact congrArg Json.float (Meaning.float.inj h)
  | .text s, k, hj, hk, h => by
    have hidx := ctorIdx_eq hj hk h
    cases k <;> cases hidx
    exact congrArg Json.text (Meaning.text.inj h)
  | .list items, k, hj, hk, h => by
    have hidx := ctorIdx_eq hj hk h
    cases k <;> cases hidx
    rw [meaning, meaning] at h
    rw [items_eq_of_meaning (settled_list.1 hj) (settled_list.1 hk) (Meaning.list.inj h)]
  | .object members, k, hj, hk, h => by
    have hidx := ctorIdx_eq hj hk h
    cases k <;> cases hidx
    rw [meaning, meaning] at h
    obtain ⟨hsorted, hall⟩ := settled_object.1 hj
    obtain ⟨hsorted', hall'⟩ := settled_object.1 hk
    rw [members_eq_of_meaning hsorted hsorted' hall hall' (congrFun (Meaning.object.inj h))]

theorem items_eq_of_meaning : ∀ {l m : List Json}, (∀ j ∈ l, j.Settled) → (∀ j ∈ m, j.Settled) →
    meaningItems l = meaningItems m → l = m
  | [], [], _, _, _ => rfl
  | [], _ :: _, _, _, h => by cases h
  | _ :: _, [], _, _, h => by cases h
  | j :: l, k :: m, hl, hm, h => by
    rw [meaningItems, meaningItems] at h
    obtain ⟨hjk, hlm⟩ := List.cons.inj h
    obtain ⟨hj, hl⟩ := List.forall_mem_cons.1 hl
    obtain ⟨hk, hm⟩ := List.forall_mem_cons.1 hm
    rw [eq_of_meaning hj hk hjk, items_eq_of_meaning hl hm hlm]

theorem members_eq_of_meaning : ∀ {l m : List (String × Json)}, (l.Pairwise fun a b => a.1 < b.1) →
    (m.Pairwise fun a b => a.1 < b.1) → (∀ e ∈ l, e.2.Settled) → (∀ e ∈ m, e.2.Settled) →
    (∀ name, meaningMembers l name = meaningMembers m name) → l = m
  | [], [], _, _, _, _, _ => rfl
  | [], (k, j) :: m, _, hm, _, _, h => by
    have hk := h k
    rw [meaningMembers_head hm] at hk
    cases hk
  | (k, j) :: l, [], hl, _, _, _, h => by
    have hk := h k
    rw [meaningMembers_head hl] at hk
    cases hk
  | (a, j) :: l, (b, k) :: m, hl, hm, hsl, hsm, h => by
    obtain ⟨hj, hrl⟩ := List.forall_mem_cons.1 hsl
    obtain ⟨hk, hrm⟩ := List.forall_mem_cons.1 hsm
    -- both lists are in order, so their heads have the least name that is found
    obtain rfl : a = b := least_eq hl hm h
    have hhead := h a
    rw [meaningMembers_head hl, meaningMembers_head hm] at hhead
    have htail : ∀ name, meaningMembers l name = meaningMembers m name := fun name => by
      rw [meaningMembers_tail hl, meaningMembers_tail hm, h]
    obtain rfl : j = k := eq_of_meaning hj hk (Option.some.inj hhead)
    rw [members_eq_of_meaning (List.pairwise_cons.1 hl).2 (List.pairwise_cons.1 hm).2 hrl hrm htail]

end

/-- Records with one meaning have one canonical form, and no others have. -/
theorem canonical_eq_iff {j k : Json} : j.canonical = k.canonical ↔ j.meaning = k.meaning := by
  constructor
  · intro h
    rw [← meaning_canonical j, h, meaning_canonical]
  · intro h
    refine eq_of_meaning (settled_canonical j) (settled_canonical k) ?_
    rw [meaning_canonical, meaning_canonical, h]

theorem canonicalText_eq_iff {j k : Json} : j.canonicalText = k.canonicalText ↔ j.meaning = k.meaning := by
  rw [← canonical_eq_iff]
  refine ⟨fun h => ?_, fun h => congrArg (fun j => String.ofList (compact j)) h⟩
  exact compact_injective (settled_canonical j).1 (settled_canonical k).1 (String.ofList_injective h)

/-- A record with a member given twice and the members of an inner object the other way round. -/
def unsorted : Json :=
  .object [("b", .int 0), ("a", .list [.object [("y", .bool true), ("x", .float .one)], .null]), ("b", .text "z")]

def sorted : Json :=
  .object [("a", .list [.object [("x", .float .one), ("y", .bool true)], .null]), ("b", .text "z")]

theorem meaning_unsorted : unsorted.meaning = sorted.meaning := by
  have hinner : (Json.object [("y", .bool true), ("x", .float .one)]).meaning =
      (Json.object [("x", .float .one), ("y", .bool true)]).meaning :=
    congrArg Meaning.object (meaningMembers_swap (by decide) _ _ [])
  have hlist : (Json.list [.object [("y", .bool true), ("x", .float .one)], .null]).meaning =
      (Json.list [.object [("x", .float .one), ("y", .bool true)], .null]).meaning := by
    rw [meaning, meaningItems, hinner]
    rfl
  unfold unsorted sorted
  rw [meaning, meaningMembers_covered ⟨("b", .text "z"), by simp, rfl⟩, meaning]
  congr 1
  funext name
  rw [meaningMembers, hlist]
  rfl

example : unsorted.canonicalText = "\x7b\"a\":[\x7b\"x\":1.0,\"y\":true\x7d,null],\"b\":\"z\"\x7d" := by decide +kernel

end ShotTally.Json
