import Mathlib.Algebra.Group.Nat.Defs

/-! The bump allocator of `nub-rt`, between its resets. -/

namespace Jar.Guest

/-- A request to Rust's `GlobalAlloc`; its size, rounded up to the alignment, is at most
`isize::MAX`. -/
structure Layout where
  size : ℕ
  align : ℕ
  power : ∃ k < 64, align = 2 ^ k
  fits : size + align ≤ 2 ^ 63

/-- Where an allocator of `N` bytes lies. Rust orders the two fields as it likes, and only the word
`pos` has an alignment. -/
structure BumpAlloc (N : ℕ) where
  address : ℕ
  heapOffset : ℕ
  posOffset : ℕ
  aligned : 8 ∣ address ∧ 8 ∣ posOffset
  apart : heapOffset + N ≤ posOffset ∨ posOffset + 8 ≤ heapOffset
  small : heapOffset + N < 2 ^ 63
  mapped : 0 < address ∧ address + heapOffset + N < 2 ^ 64

/-- An addition in `usize`; none on an overflow. -/
def addUsize (a b : ℕ) : Option ℕ := if a + b < 2 ^ 64 then some (a + b) else none

namespace BumpAlloc

variable {N : ℕ} (arena : BumpAlloc N)

def heap : ℕ := arena.address + arena.heapOffset

/-- The pointer, null without room for the request, and the next `pos`; none on an overflow. -/
def alloc (pos : ℕ) (layout : Layout) : Option (Option ℕ × ℕ) := do
  -- `!x` is `usize::MAX - x`.
  let aligned := ((← addUsize pos layout.align) - 1) &&& (2 ^ 64 - 1 - (layout.align - 1))
  let next ← addUsize aligned layout.size
  if next > N then return (none, pos)
  else return (some (← addUsize arena.heap aligned), next)

/-- What a guest does with its allocator. -/
inductive Op where
  | alloc (layout : Layout)
  | dealloc
  | reset

/-- The allocator, with the blocks that it handed out since the last reset. -/
structure State where
  pos : ℕ
  blocks : List (Layout × ℕ)

def step (s : State) : Op → Option State
  | .alloc layout => do
    let (ptr, pos) ← arena.alloc s.pos layout
    return ⟨pos, s.blocks ++ (ptr.map (layout, ·)).toList⟩
  | .dealloc => some s
  | .reset => some ⟨0, []⟩

def run (ops : List Op) : Option State := ops.foldlM arena.step ⟨0, []⟩

end BumpAlloc

end Jar.Guest
