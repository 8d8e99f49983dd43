import Jar.Lib.SortedMap
import Mathlib.Algebra.Group.Basic

/-! Sums over association lists, in which only the first entry of a key counts. -/

namespace AssocSum

variable {K V M : Type} [LinearOrder K] [AddCommMonoid M] (value : V → M)

/-- The sum over the first entries of the keys that were not seen before. -/
def firstSum : (seen : List K) → List (K × V) → M
  | _, [] => 0
  | seen, e :: rest => (if e.1 ∈ seen then 0 else value e.2) + firstSum (e.1 :: seen) rest

/-- The value of a key, zero without an entry. -/
def valueAt (key : K) (entries : List (K × V)) : M :=
  ((entries.find? fun e => e.1 = key).map fun e => value e.2).getD 0

variable {value} {seen seen' : List K} {key key' : K}

theorem firstSum_congr (same : ∀ k, k ∈ seen ↔ k ∈ seen') (entries : List (K × V)) :
    firstSum value seen entries = firstSum value seen' entries := by
  induction entries generalizing seen seen' with
  | nil => rfl
  | cons e rest ih =>
    unfold firstSum
    have next : ∀ k, k ∈ e.1 :: seen ↔ k ∈ e.1 :: seen' := fun k => by simp [same k]
    rw [ih next]
    simp only [same]

theorem firstSum_cons_of_mem (old : key ∈ seen) (entries : List (K × V)) :
    firstSum value (key :: seen) entries = firstSum value seen entries := by
  refine firstSum_congr (fun k => ?_) entries
  rw [List.mem_cons]
  exact ⟨fun either => either.elim (fun same => same ▸ old) id, .inr⟩

theorem firstSum_swap (entries : List (K × V)) :
    firstSum value (key :: key' :: seen) entries = firstSum value (key' :: key :: seen) entries := by
  refine firstSum_congr (fun k => ?_) entries
  simp only [List.mem_cons]
  exact or_left_comm

theorem firstSum_eq_valueAt_add (fresh : key ∉ seen) (entries : List (K × V)) :
    firstSum value seen entries = valueAt value key entries + firstSum value (key :: seen) entries := by
  induction entries generalizing seen with
  | nil => simp [firstSum, valueAt]
  | cons e rest ih =>
    unfold firstSum
    by_cases here : e.1 = key
    · -- The first entry of the key is here, and later ones do not count.
      rw [here, firstSum_cons_of_mem List.mem_cons_self, if_neg fresh,
        if_pos List.mem_cons_self, zero_add]
      simp [valueAt, here]
    · have skip : valueAt value key (e :: rest) = valueAt value key rest := by
        simp [valueAt, here]
      rw [ih (by simp [Ne.symm here, fresh]), skip, firstSum_swap]
      simp only [List.mem_cons, here, false_or]
      exact add_left_comm ..

theorem firstSum_insertEntry_of_mem (old : key ∈ seen) (v : V) (entries : List (K × V)) :
    firstSum value seen (SortedMap.insertEntry key v entries) = firstSum value seen entries := by
  induction entries generalizing seen with
  | nil => simp [SortedMap.insertEntry, firstSum, old]
  | cons e rest ih =>
    unfold SortedMap.insertEntry
    split
    · rw [firstSum, if_pos old, zero_add, firstSum_cons_of_mem old]
    · split
      next same =>
        rw [firstSum, firstSum, ← same]
        simp [old]
      · rw [firstSum, firstSum, ih (List.mem_cons_of_mem _ old)]

theorem firstSum_insertEntry (fresh : key ∉ seen) (v : V) (entries : List (K × V)) :
    firstSum value seen (SortedMap.insertEntry key v entries) =
      value v + firstSum value (key :: seen) entries := by
  induction entries generalizing seen with
  | nil => simp [SortedMap.insertEntry, firstSum, fresh]
  | cons e rest ih =>
    unfold SortedMap.insertEntry
    split
    · rw [firstSum, if_neg fresh]
    · split
      next same =>
        -- The entry that was replaced had been counted for the same key.
        rw [firstSum, if_neg fresh, firstSum, ← same, if_pos List.mem_cons_self, zero_add,
          firstSum_cons_of_mem List.mem_cons_self]
      next different =>
        rw [firstSum, firstSum, ih (by simp [different, fresh]), firstSum_swap]
        simp only [List.mem_cons, Ne.symm different, false_or]
        exact add_left_comm ..

theorem firstSum_insertEntry_eq (key : K) (v : V) (entries : List (K × V)) :
    firstSum value seen (SortedMap.insertEntry key v entries) =
      firstSum value seen ((key, v) :: entries) := by
  rw [firstSum]
  by_cases old : key ∈ seen
  · rw [firstSum_insertEntry_of_mem old, if_pos old, zero_add, firstSum_cons_of_mem old]
  · rw [firstSum_insertEntry old, if_neg old]

theorem firstSum_filter (key : K) (entries : List (K × V)) :
    firstSum value seen (entries.filter fun e => e.1 ≠ key) =
      firstSum value (key :: seen) entries := by
  induction entries generalizing seen with
  | nil => rfl
  | cons e rest ih =>
    by_cases here : e.1 = key
    · rw [List.filter_cons_of_neg (by simpa using here), ih, firstSum, here,
        if_pos List.mem_cons_self, zero_add, firstSum_cons_of_mem List.mem_cons_self]
    · rw [List.filter_cons_of_pos (by simpa using here), firstSum, firstSum, ih, firstSum_swap]
      simp only [List.mem_cons, here, false_or]

end AssocSum
