import Mathlib.Order.Lattice
import Mathlib.Data.List.Basic
import Mathlib.Data.List.Pairwise

/-! Finite maps as lists of entries in strictly ascending order of their keys. -/

/-- A finite map, kept as its entries in strictly ascending order of their keys. -/
structure SortedMap (K V : Type) [LinearOrder K] where
  entries : List (K × V)
  sorted : entries.Pairwise fun a b => a.1 < b.1

namespace SortedMap

variable {K V : Type} [LinearOrder K]

theorem ext {m m' : SortedMap K V} (same : m.entries = m'.entries) : m = m' := by
  cases m
  cases m'
  cases same
  rfl

instance [DecidableEq V] : DecidableEq (SortedMap K V) := fun m m' =>
  decidable_of_iff (m.entries = m'.entries) ⟨ext, fun same => same ▸ rfl⟩

def empty : SortedMap K V := ⟨[], .nil⟩

def lookup (m : SortedMap K V) (k : K) : Option V :=
  (m.entries.find? fun e => e.1 = k).map (·.2)

theorem eq_of_key_eq {m : SortedMap K V} {e e' : K × V} (member : e ∈ m.entries)
    (member' : e' ∈ m.entries) (same : e.1 = e'.1) : e = e' := by
  have symm : Std.Symm fun a b : K × V => a.1 = b.1 → a = b :=
    ⟨fun _ _ unique same => (unique same.symm).symm⟩
  have unique : m.entries.Pairwise fun a b => a.1 = b.1 → a = b :=
    m.sorted.imp fun less same => absurd same (ne_of_lt less)
  exact unique.forall_of_forall (fun _ _ _ => rfl) member member' same

/-- A key leads to a value exactly if their entry is in the map. -/
theorem lookup_eq_some {m : SortedMap K V} {k : K} {v : V} :
    m.lookup k = some v ↔ (k, v) ∈ m.entries := by
  rw [lookup, Option.map_eq_some_iff]
  constructor
  · rintro ⟨⟨k', v'⟩, found, rfl⟩
    have same : k' = k := by simpa using List.find?_some found
    exact same ▸ List.mem_of_find?_eq_some found
  · intro member
    -- The entry that the search stops at has the same key, so it is this one.
    cases found : m.entries.find? fun e => e.1 = k with
    | none => simpa using List.find?_eq_none.mp found _ member
    | some e =>
      have same : e.1 = k := by simpa using List.find?_some found
      exact ⟨e, rfl, by rw [eq_of_key_eq (List.mem_of_find?_eq_some found) member same]⟩

theorem entries_eq_nil {m : SortedMap K V} (none : ∀ k, m.lookup k = none) : m.entries = [] := by
  cases same : m.entries with
  | nil => rfl
  | cons e rest =>
    have found : m.lookup e.1 = some e.2 := lookup_eq_some.mpr (by simp [same])
    rw [none] at found
    cases found

/-! ## Insertion -/

/-- Place an entry in order, replacing one with the same key. -/
def insertEntry (k : K) (v : V) : List (K × V) → List (K × V)
  | [] => [(k, v)]
  | e :: rest =>
    if k < e.1 then (k, v) :: e :: rest
    else if k = e.1 then (k, v) :: rest
    else e :: insertEntry k v rest

theorem mem_insertEntry {k : K} {v : V} {entries : List (K × V)}
    (sorted : entries.Pairwise fun a b => a.1 < b.1) {e : K × V} :
    e ∈ insertEntry k v entries ↔ e = (k, v) ∨ e ∈ entries ∧ e.1 ≠ k := by
  induction entries with
  | nil => simp [insertEntry]
  | cons first rest ih =>
    obtain ⟨smallest, sorted⟩ := List.pairwise_cons.mp sorted
    unfold insertEntry
    rcases lt_trichotomy k first.1 with below | same | above
    · -- Every entry that is there has a larger key.
      rw [if_pos below]
      have other : e ∈ first :: rest → e.1 ≠ k := by
        intro member
        rcases List.mem_cons.mp member with rfl | later
        · exact ne_of_gt below
        · exact ne_of_gt (lt_trans below (smallest e later))
      rw [List.mem_cons]
      exact or_congr_right ⟨fun member => ⟨member, other member⟩, And.left⟩
    · rw [if_neg (same ▸ lt_irrefl k), if_pos same, List.mem_cons, List.mem_cons]
      have other : e ∈ rest → e.1 ≠ k := fun later => same ▸ ne_of_gt (smallest e later)
      constructor
      · rintro (new | later)
        · exact .inl new
        · exact .inr ⟨.inr later, other later⟩
      · rintro (new | ⟨rfl | later, different⟩)
        · exact .inl new
        · exact absurd same.symm different
        · exact .inr later
    · rw [if_neg (not_lt_of_gt above), if_neg (ne_of_gt above), List.mem_cons, ih sorted,
        List.mem_cons]
      constructor
      · rintro (rfl | new | ⟨later, different⟩)
        · exact .inr ⟨.inl rfl, ne_of_lt above⟩
        · exact .inl new
        · exact .inr ⟨.inr later, different⟩
      · rintro (new | ⟨rfl | later, different⟩)
        · exact .inr (.inl new)
        · exact .inl rfl
        · exact .inr (.inr ⟨later, different⟩)

theorem sorted_insertEntry (k : K) (v : V) {entries : List (K × V)}
    (sorted : entries.Pairwise fun a b => a.1 < b.1) :
    (insertEntry k v entries).Pairwise fun a b => a.1 < b.1 := by
  induction entries with
  | nil => simp [insertEntry]
  | cons first rest ih =>
    obtain ⟨smallest, tail⟩ := List.pairwise_cons.mp sorted
    unfold insertEntry
    rcases lt_trichotomy k first.1 with below | same | above
    · rw [if_pos below]
      refine List.pairwise_cons.mpr ⟨fun e member => ?_, sorted⟩
      rcases List.mem_cons.mp member with rfl | later
      · exact below
      · exact lt_trans below (smallest e later)
    · rw [if_neg (same ▸ lt_irrefl k), if_pos same]
      exact List.pairwise_cons.mpr ⟨fun e later => same ▸ smallest e later, tail⟩
    · rw [if_neg (not_lt_of_gt above), if_neg (ne_of_gt above)]
      refine List.pairwise_cons.mpr ⟨fun e member => ?_, ih tail⟩
      rcases (mem_insertEntry tail).mp member with rfl | ⟨later, -⟩
      · exact above
      · exact smallest e later

def insert (m : SortedMap K V) (k : K) (v : V) : SortedMap K V :=
  ⟨insertEntry k v m.entries, sorted_insertEntry k v m.sorted⟩

def remove (m : SortedMap K V) (k : K) : SortedMap K V :=
  ⟨m.entries.filter fun e => e.1 ≠ k, m.sorted.filter _⟩

theorem lookup_eq_of_mem_iff {m m' : SortedMap K V} {k k' : K}
    (same : ∀ v, (k, v) ∈ m.entries ↔ (k', v) ∈ m'.entries) : m.lookup k = m'.lookup k' := by
  apply Option.ext
  intro v
  rw [lookup_eq_some, lookup_eq_some, same]

@[simp]
theorem lookup_insert_self (m : SortedMap K V) (k : K) (v : V) : (m.insert k v).lookup k = some v :=
  lookup_eq_some.mpr ((mem_insertEntry m.sorted).mpr (.inl rfl))

theorem lookup_insert_ne (m : SortedMap K V) {k k' : K} (v : V) (other : k' ≠ k) :
    (m.insert k v).lookup k' = m.lookup k' := by
  apply lookup_eq_of_mem_iff
  intro v'
  rw [insert, mem_insertEntry m.sorted]
  simp [other]

@[simp]
theorem lookup_remove_self (m : SortedMap K V) (k : K) : (m.remove k).lookup k = none := by
  rw [lookup, Option.map_eq_none_iff, List.find?_eq_none]
  intro e member
  simpa [remove] using (List.mem_filter.mp member).2

theorem lookup_remove_ne (m : SortedMap K V) {k k' : K} (other : k' ≠ k) :
    (m.remove k).lookup k' = m.lookup k' := by
  apply lookup_eq_of_mem_iff
  intro v
  simp [remove, other]

/-- An entry with a larger key than all others goes to the end. -/
theorem insertEntry_of_lt {k : K} {entries : List (K × V)} (larger : ∀ e ∈ entries, e.1 < k)
    (v : V) : insertEntry k v entries = entries ++ [(k, v)] := by
  induction entries with
  | nil => rfl
  | cons first rest ih =>
    have above := larger first List.mem_cons_self
    rw [insertEntry, if_neg (not_lt_of_gt above), if_neg (ne_of_gt above),
      ih fun e later => larger e (List.mem_cons_of_mem first later)]
    rfl

theorem foldl_insertEntry_of_sorted {E : Type} (key : E → K) (value : E → V) {list : List E}
    (ascending : list.Pairwise fun a b => key a < key b) {entries : List (K × V)}
    (above : ∀ e ∈ list, ∀ old ∈ entries, old.1 < key e) :
    list.foldl (fun entries e => insertEntry (key e) (value e) entries) entries =
      entries ++ list.map fun e => (key e, value e) := by
  induction list generalizing entries with
  | nil => simp
  | cons first rest ih =>
    obtain ⟨smallest, ascending⟩ := List.pairwise_cons.mp ascending
    rw [List.foldl_cons, insertEntry_of_lt (above first List.mem_cons_self), ih ascending]
    · simp
    · intro e later old member
      rcases List.mem_append.mp member with old | new
      · exact above e (List.mem_cons_of_mem _ later) _ old
      · rw [List.mem_singleton.mp new]
        exact smallest e later

theorem length_insertEntry_le (k : K) (v : V) (entries : List (K × V)) :
    (insertEntry k v entries).length ≤ entries.length + 1 := by
  induction entries with
  | nil => exact Nat.le_refl 1
  | cons first rest ih =>
    unfold insertEntry
    split
    · exact Nat.le_refl _
    · split
      · exact Nat.le_succ _
      · exact Nat.succ_le_succ ih

theorem lookup_eq_none_of_lt {m : SortedMap K V} {k : K} (larger : ∀ e ∈ m.entries, e.1 < k) :
    m.lookup k = none := by
  rw [lookup, Option.map_eq_none_iff, List.find?_eq_none]
  intro e member
  simpa using ne_of_lt (larger e member)

/-- The entries split in two: all keys of the first part are below those of the second. -/
theorem lt_of_append {m : SortedMap K V} {low : List (K × V)} {e : K × V} {high : List (K × V)}
    (split : m.entries = low ++ e :: high) : ∀ e' ∈ low, e'.1 < e.1 := by
  have sorted := m.sorted
  rw [split, List.pairwise_append] at sorted
  exact fun e' member => sorted.2.2 e' member e List.mem_cons_self

end SortedMap
