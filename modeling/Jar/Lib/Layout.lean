import Mathlib.Algebra.BigOperators.Group.List.Basic
import Mathlib.Algebra.GroupWithZero.Nat

/-! Sequences of variable-length items laid out from offset zero. -/

namespace Layout

variable {α : Type} (len : α → Nat)

def size (items : List α) : Nat := (items.map len).sum

/-- Change the item that ends at an offset, with the position of the first item given. -/
def modifyEnding (change : α → α) (stop : Nat) : Nat → List α → List α
  | _, [] => []
  | pos, item :: rest =>
    (if pos + len item = stop then change item else item)
      :: modifyEnding change stop (pos + len item) rest

@[simp]
theorem size_nil : size len [] = 0 := rfl

@[simp]
theorem size_cons (item : α) (rest : List α) :
    size len (item :: rest) = len item + size len rest := by
  simp [size]

@[simp]
theorem size_append (left right : List α) :
    size len (left ++ right) = size len left + size len right := by
  simp [size]

theorem size_modifyEnding {change : α → α} (keeps : ∀ item, len (change item) = len item)
    (stop pos : Nat) (items : List α) :
    size len (modifyEnding len change stop pos items) = size len items := by
  induction items generalizing pos with
  | nil => rfl
  | cons item rest ih =>
    rw [modifyEnding, size_cons, size_cons, ih]
    split
    · rw [keeps]
    · rfl

section

variable {len} (positive : ∀ item, 0 < len item) (change : α → α)

include positive

theorem modifyEnding_of_le {stop pos : Nat} (past : stop ≤ pos) (items : List α) :
    modifyEnding len change stop pos items = items := by
  induction items generalizing pos with
  | nil => rfl
  | cons item rest ih =>
    have here := positive item
    rw [modifyEnding, if_neg (by omega), ih (by omega)]

/-- Of items that take up space, only the one that ends at the offset changes. -/
theorem modifyEnding_append (pos : Nat) (left : List α) (item : α) (right : List α) :
    modifyEnding len change (pos + size len left + len item) pos (left ++ item :: right) =
      left ++ change item :: right := by
  induction left generalizing pos with
  | nil =>
    rw [size_nil, Nat.add_zero, List.nil_append, modifyEnding, if_pos rfl]
    exact congrArg _ (modifyEnding_of_le positive change (Nat.le_refl _) right)
  | cons first left ih =>
    have here := positive item
    have later := ih (pos + len first)
    rw [size_cons, List.cons_append, modifyEnding, if_neg (by omega)]
    rw [← Nat.add_assoc, later, List.cons_append]

end

end Layout
