/-
Collections whose entries are named by text. The entries are held in increasing order of their
names (byte order of the names), each name once, so two collections with the same entries are
equal and printing one needs no sorting.
-/

namespace ShotTally

/-- Entries in strictly increasing order of their names. -/
structure Keyed (α : Type) where
  entries : List (String × α)
  sorted : entries.Pairwise (fun a b => a.1 < b.1)

namespace Keyed

variable {α β : Type}

instance [DecidableEq α] : DecidableEq (Keyed α) := fun a b =>
  match decEq a.entries b.entries with
  | .isTrue h => .isTrue (by cases a; cases b; cases h; rfl)
  | .isFalse h => .isFalse (fun e => h (e ▸ rfl))

def empty : Keyed α := ⟨[], .nil⟩

instance : Inhabited (Keyed α) := ⟨empty⟩

/-- The names, in increasing order. -/
def keys (m : Keyed α) : List String := m.entries.map (·.1)

def size (m : Keyed α) : Nat := m.entries.length

def isEmpty (m : Keyed α) : Bool := m.entries.isEmpty

/-- The value under a name. -/
def get? (m : Keyed α) (k : String) : Option α := m.entries.lookup k

def contains (m : Keyed α) (k : String) : Bool := (m.get? k).isSome

/-- Puts an entry in its place in an increasing list, over an entry of the same name. -/
def place (k : String) (v : α) : List (String × α) → List (String × α)
  | [] => [(k, v)]
  | (j, w) :: rest =>
    if k < j then (k, v) :: (j, w) :: rest
    else if j < k then (j, w) :: place k v rest
    else (k, v) :: rest

theorem mem_place {k : String} {v : α} {l : List (String × α)} {e : String × α}
    (h : e ∈ place k v l) : e = (k, v) ∨ e ∈ l := by
  induction l with
  | nil => exact .inl (List.mem_singleton.mp h)
  | cons a rest ih =>
    obtain ⟨j, w⟩ := a
    unfold place at h
    split at h
    · exact List.mem_cons.mp h
    · split at h
      · rcases List.mem_cons.mp h with h | h
        · exact .inr (h ▸ List.mem_cons_self)
        · exact (ih h).imp_right (List.mem_cons_of_mem _)
      · exact (List.mem_cons.mp h).imp_right (List.mem_cons_of_mem _)

theorem place_sorted (k : String) (v : α) {l : List (String × α)}
    (h : l.Pairwise (fun a b => a.1 < b.1)) :
    (place k v l).Pairwise (fun a b => a.1 < b.1) := by
  induction l with
  | nil => simp [place]
  | cons a rest ih =>
    obtain ⟨j, w⟩ := a
    have hrest := List.pairwise_cons.mp h
    unfold place
    split
    · rename_i hk
      refine List.pairwise_cons.mpr ⟨?_, h⟩
      intro e he
      rcases List.mem_cons.mp he with he | he
      · exact he ▸ hk
      · exact String.lt_trans hk (hrest.1 e he)
    · split
      · rename_i hj
        refine List.pairwise_cons.mpr ⟨?_, ih hrest.2⟩
        intro e he
        rcases mem_place he with he | he
        · exact he ▸ hj
        · exact hrest.1 e he
      · rename_i h1 h2
        have hjk : j = k := String.le_antisymm (String.not_lt.mp h1) (String.not_lt.mp h2)
        refine List.pairwise_cons.mpr ⟨?_, hrest.2⟩
        intro e he
        exact hjk ▸ hrest.1 e he

/-- Sets the value under a name; an older value under the name is lost. -/
def insert (m : Keyed α) (k : String) (v : α) : Keyed α :=
  ⟨place k v m.entries, place_sorted k v m.sorted⟩

/-- Sets the value under a name unless the name is taken. -/
def insertNew (m : Keyed α) (k : String) (v : α) : Keyed α :=
  if m.contains k then m else m.insert k v

/-- Collects entries in the order given, so the last of two entries with one name stays. -/
def ofList (l : List (String × α)) : Keyed α :=
  l.foldl (fun m e => m.insert e.1 e.2) empty

def erase (m : Keyed α) (k : String) : Keyed α :=
  ⟨m.entries.filter (·.1 != k), m.sorted.filter _⟩

def mapValues (f : α → β) (m : Keyed α) : Keyed β :=
  ⟨m.entries.map (fun e => (e.1, f e.2)), List.pairwise_map.mpr m.sorted⟩

end Keyed
end ShotTally
