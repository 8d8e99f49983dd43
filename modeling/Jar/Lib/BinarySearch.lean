import Mathlib.Order.Lattice

/-! Binary search of a sorted list, in the form that halves to one position and compares there. -/

namespace BinarySearch

variable {κ : Type*} [LinearOrder κ]

/-- The position that the search ends at, from a range of the given size. -/
def position (keys : List κ) (key : κ) : (fuel base size : Nat) → Nat
  | 0, base, _ => base
  | fuel + 1, base, size =>
    if size ≤ 1 then base
    else
      let half := size / 2
      let mid := base + half
      position keys key fuel (if keys[mid]?.any (key < ·) then base else mid) (size - half)

/-- The index of a key, absent when the position that the search ends at holds another one. -/
def search (keys : List κ) (key : κ) : Option Nat :=
  let base := position keys key keys.length 0 keys.length
  if keys[base]? = some key then some base else none

variable {keys : List κ} {key : κ}

theorem position_eq (sorted : keys.Pairwise (· < ·)) {i : Nat} (held : keys[i]? = some key)
    (fuel base size : Nat) (enough : size ≤ fuel) (fits : base + size ≤ keys.length)
    (above : base ≤ i) (below : i < base + size) : position keys key fuel base size = i := by
  obtain ⟨inside, rfl⟩ := List.getElem?_eq_some_iff.mp held
  have ordered := List.pairwise_iff_getElem.mp sorted
  -- The range around the index shrinks to one position.
  induction fuel generalizing base size with
  | zero => omega
  | succ fuel ih =>
    unfold position
    split
    · omega
    next large =>
      have middle : base + size / 2 < keys.length := by omega
      simp only [List.getElem?_eq_getElem middle, Option.any_some, decide_eq_true_eq]
      split
      next less =>
        -- The key lies before the middle.
        have before : i < base + size / 2 := by
          by_contra other
          rcases Nat.lt_or_eq_of_le (Nat.le_of_not_lt other) with after | same
          · exact lt_asymm less (ordered _ _ middle inside after)
          · exact absurd less (by simp [same])
        exact ih base (size - size / 2) (by omega) (by omega) above (by omega)
      next notLess =>
        have after : base + size / 2 ≤ i := by
          by_contra other
          exact notLess (ordered _ _ inside middle (by omega))
        exact ih (base + size / 2) (size - size / 2) (by omega) (by omega) after (by omega)

theorem search_eq_some_iff (sorted : keys.Pairwise (· < ·)) {i : Nat} :
    search keys key = some i ↔ keys[i]? = some key := by
  unfold search
  constructor
  · intro found
    dsimp only at found
    split at found
    next held =>
      cases found
      exact held
    next => cases found
  · intro held
    have inside := (List.getElem?_eq_some_iff.mp held).1
    have ends := position_eq sorted held keys.length 0 keys.length (Nat.le_refl _) (by omega)
      (Nat.zero_le i) (by omega)
    simp only [ends, held, if_true]

end BinarySearch
