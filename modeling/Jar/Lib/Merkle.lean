import Mathlib.Data.Set.Function
import Mathlib.Data.Set.Insert
import Mathlib.Algebra.Group.Nat.Defs

/-! Binary Merkle trees: how a level of nodes becomes a root, and what equal roots say about the
levels below when no two of the hashed pairs collide. -/

namespace Merkle

section Climb

variable {H : Type*} (pair : H → H → H)

/-- The root of a tree of some height whose leaves are all the same. -/
def zeroRoot (zero : H) : Nat → H
  | 0 => zero
  | height + 1 => pair (zeroRoot zero height) (zeroRoot zero height)

/-- One level up: neighbours become their parent, and a last node without a neighbour is paired
with `pad`. -/
def pairUp (pad : H) : List H → List H
  | [] => []
  | [left] => [pair left pad]
  | left :: right :: rest => pair left right :: pairUp pad rest

/-- Several levels up, the padding of each level being the parent of two of the level below. -/
def climb : Nat → H → List H → List H
  | 0, _, level => level
  | height + 1, pad, level => climb height (pair pad pad) (pairUp pair pad level)

theorem length_pairUp (pad : H) : ∀ level : List H,
    (pairUp pair pad level).length = (level.length + 1) / 2
  | [] => by simp [pairUp]
  | [_] => by simp [pairUp]
  | _ :: _ :: rest => by
    rw [pairUp, List.length_cons, length_pairUp pad rest]
    simp only [List.length_cons]
    omega

/-- The root of the perfect tree of some height over a supply of leaves. -/
def root : Nat → (Nat → H) → H
  | 0, leaf => leaf 0
  | height + 1, leaf => pair (root height leaf) (root height fun i => leaf (i + 2 ^ height))

/-- Only the leaves below the width of a tree matter to its root. -/
theorem root_congr {leaf leaf' : Nat → H} {height : Nat}
    (same : ∀ i < 2 ^ height, leaf i = leaf' i) : root pair height leaf = root pair height leaf' := by
  induction height generalizing leaf leaf' with
  | zero => exact same 0 (by decide)
  | succ height ih =>
    have width : 2 ^ (height + 1) = 2 ^ height + 2 ^ height := by rw [Nat.pow_succ, Nat.mul_two]
    rw [root, root, ih fun i below => same i (by omega),
      ih fun i below => same (i + 2 ^ height) (by omega)]

theorem root_const (zero : H) (height : Nat) :
    root pair height (fun _ => zero) = zeroRoot pair zero height := by
  induction height with
  | zero => rfl
  | succ height ih => rw [root, zeroRoot, ih]

theorem root_succ (leaf : Nat → H) (height : Nat) :
    root pair (height + 1) leaf =
      root pair height fun i => pair (leaf (2 * i)) (leaf (2 * i + 1)) := by
  induction height generalizing leaf with
  | zero => rfl
  | succ height ih =>
    -- Both halves are turned one level down, where the shift by a half doubles.
    have shift (i : Nat) : 2 * (i + 2 ^ height) = 2 * i + 2 ^ (height + 1) := by
      rw [Nat.mul_add, Nat.pow_succ, Nat.mul_comm 2 (2 ^ height)]
    rw [root, ih, ih, root]
    simp only [shift, Nat.add_right_comm]

/-- The parents of a level, read past its end as the parent of the padding. -/
theorem getD_pairUp (pad : H) : ∀ (level : List H) (i : Nat),
    (pairUp pair pad level).getD i (pair pad pad) =
      pair (level.getD (2 * i) pad) (level.getD (2 * i + 1) pad)
  | [], i => by simp [pairUp]
  | [left], 0 => rfl
  | [left], i + 1 => by simp [pairUp]
  | left :: right :: rest, 0 => rfl
  | left :: right :: rest, i + 1 => by
    rw [pairUp, List.getD_cons_succ, getD_pairUp pad rest i, Nat.mul_add]
    rfl

/-- Climbing from a level gives the root of the tree that the level and the padding fill. -/
theorem head?_climb {height : Nat} {level : List H} (pad : H) (some : level ≠ [])
    (fits : level.length ≤ 2 ^ height) :
    (climb pair height pad level).head? = Option.some (root pair height fun i => level.getD i pad) := by
  induction height generalizing pad level with
  | zero =>
    match level, some with
    | [only], _ => rfl
    | first :: second :: rest, _ => simp at fits
  | succ height ih =>
    have up := length_pairUp pair pad level
    have : level.length ≠ 0 := fun none => some (List.length_eq_zero_iff.mp none)
    have nonempty : pairUp pair pad level ≠ [] := by
      intro none
      rw [none] at up
      simp only [List.length_nil] at up
      omega
    have halved : (pairUp pair pad level).length ≤ 2 ^ height := by
      rw [up]
      rw [Nat.pow_succ] at fits
      omega
    rw [climb, ih (pair pad pad) nonempty halved, root_succ]
    simp only [getD_pairUp]

end Climb

end Merkle
