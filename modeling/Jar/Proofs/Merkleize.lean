import Mathlib.Order.Bounds.Defs
import Jar.Ssz.Merkleize

/-! The level-wise fold computes the root of the perfect tree that the padded chunks fill. -/

namespace Jar.Ssz

/-! ## The height of the tree -/

theorem le_two_pow_ceilLog2 (n : Nat) : n ≤ 2 ^ ceilLog2 n := by
  unfold ceilLog2
  split
  · omega
  · have := @Nat.lt_log2_self (n - 1)
    omega

theorem ceilLog2_le {n k : Nat} (enough : n ≤ 2 ^ k) : ceilLog2 n ≤ k := by
  unfold ceilLog2
  split
  · exact Nat.zero_le k
  · exact (Nat.log2_lt (by omega)).mpr (by omega)

/-- The power of two of the height is the least one that is not below the number of leaves. -/
theorem isLeast_ceilLog2 (n : Nat) :
    IsLeast { width | (∃ k, width = 2 ^ k) ∧ n ≤ width } (2 ^ ceilLog2 n) := by
  refine ⟨⟨⟨_, rfl⟩, le_two_pow_ceilLog2 n⟩, ?_⟩
  rintro _ ⟨⟨k, rfl⟩, enough⟩
  exact Nat.pow_le_pow_right (by decide) (ceilLog2_le enough)

/-- The bits below the highest one of a 64-bit number. -/
theorem shiftRight_ones {k : Nat} (small : k < 64) :
    (2 ^ 64 - 1) >>> (63 - k) = 2 ^ (k + 1) - 1 := by
  have split : 2 ^ 64 = 2 ^ (k + 1) * 2 ^ (63 - k) := by
    rw [← Nat.pow_add]
    congr 1
    omega
  have upper : 0 < 2 ^ (k + 1) := Nat.two_pow_pos _
  have lower : 0 < 2 ^ (63 - k) := Nat.two_pow_pos _
  have whole : 2 ^ (63 - k) ≤ 2 ^ (k + 1) * 2 ^ (63 - k) := Nat.le_mul_of_pos_left _ upper
  rw [Nat.shiftRight_eq_div_pow, split]
  refine Nat.div_eq_of_lt_le ?_ ?_
  · rw [Nat.sub_mul, Nat.one_mul]
    omega
  · rw [Nat.sub_add_cancel upper]
    omega

/-- A limit below half the address space has a power of two above it. -/
theorem nextPowerOfTwo_eq {n : Nat} (small : n ≤ 2 ^ 63) : nextPowerOfTwo n = 2 ^ ceilLog2 n := by
  unfold nextPowerOfTwo ceilLog2 leadingZeros
  split
  · rfl
  next large =>
    have top : (n - 1).log2 < 63 := (Nat.log2_lt (by omega)).mpr (by omega)
    have fits : 2 ^ ((n - 1).log2 + 1) < 2 ^ 64 := Nat.pow_lt_pow_right (by decide) (by omega)
    have positive : 0 < 2 ^ ((n - 1).log2 + 1) := Nat.two_pow_pos _
    rw [if_neg (by omega : ¬ n - 1 = 0), shiftRight_ones (by omega), Nat.sub_add_cancel positive,
      Nat.mod_eq_of_lt fits]

theorem trailingZeros_two_pow {bits k : Nat} (fits : k < bits) : trailingZeros bits (2 ^ k) = k := by
  induction bits generalizing k with
  | zero => omega
  | succ bits ih =>
    cases k with
    | zero => rfl
    | succ k =>
      have even : ¬ 2 ^ (k + 1) % 2 = 1 := by
        rw [Nat.pow_succ]
        omega
      have half : 2 ^ (k + 1) / 2 = 2 ^ k := by
        rw [Nat.pow_succ]
        omega
      rw [trailingZeros, if_neg even, half, ih (by omega)]

theorem packBytes_zeros (n : Nat) :
    packBytes (List.replicate (32 * n) 0) = List.replicate n zeroChunk := by
  have chunk (i : Nat) (below : i < n) :
      padChunk ((List.replicate (32 * n) 0).drop (32 * i)) = zeroChunk := by
    apply Subtype.ext
    simp only [padChunk, List.drop_replicate, List.take_replicate, List.length_replicate,
      List.replicate_append_replicate, Radix.empty]
    congr 1
    omega
  rw [packBytes, List.length_replicate, show (32 * n + 31) / 32 = n by omega]
  refine List.eq_replicate_iff.mpr ⟨by simp, fun b member => ?_⟩
  obtain ⟨i, inside, rfl⟩ := List.mem_map.mp member
  exact chunk i (List.mem_range.mp inside)

/-! ## The levels -/

theorem merkleize_eq_root {H : Type} (h : Hasher H) (nodes : List H) (limit : Nat) :
    merkleize h nodes limit =
      Merkle.root h.pair (ceilLog2 (max (max limit nodes.length) 1))
        fun i => nodes.getD i (h.chunk zeroChunk) := by
  unfold merkleize
  dsimp only
  split
  next none =>
    obtain rfl := List.isEmpty_iff.mp none
    exact (Merkle.root_const h.pair (h.chunk zeroChunk) _).symm
  next some =>
    have fits := le_two_pow_ceilLog2 (max (max limit nodes.length) 1)
    have nonempty : nodes ≠ [] := fun none => some (List.isEmpty_iff.mpr none)
    rw [List.headD_eq_head?_getD, Merkle.head?_climb h.pair _ nonempty (by omega), Option.getD_some]

section

variable (d : Digest)

theorem nextLevel_eq (level : List (ByteVector 32)) (zeroH : ByteVector 32) :
    nextLevel d level zeroH = Merkle.pairUp (hashPair d) zeroH level := by
  have lengths := Merkle.length_pairUp (hashPair d) zeroH level
  refine List.ext_getElem (by rw [nextLevel, List.length_ofFn, lengths]) fun i below inside => ?_
  have parent := Merkle.getD_pairUp (hashPair d) zeroH level i
  have left : 2 * i < level.length := by omega
  rw [List.getD_eq_getElem?_getD, List.getElem?_eq_getElem inside, Option.getD_some,
    List.getD_eq_getElem?_getD, List.getElem?_eq_getElem left, Option.getD_some,
    List.getD_eq_getElem?_getD] at parent
  rw [parent]
  simp [nextLevel]

/-- Folding over the table of zero hashes climbs one level with each of them. -/
theorem foldl_nextLevel (more : Nat) (curZero : ByteVector 32) (level : List (ByteVector 32)) :
    (zeroHTable d more curZero).foldl (nextLevel d) level =
      Merkle.climb (hashPair d) (more + 1) curZero level := by
  induction more generalizing curZero level with
  | zero => rw [zeroHTable, List.foldl_cons, List.foldl_nil, nextLevel_eq]; rfl
  | succ more ih => rw [zeroHTable, List.foldl_cons, ih, nextLevel_eq]; rfl

theorem length_zeroHTable (more : Nat) (curZero : ByteVector 32) :
    (zeroHTable d more curZero).length = more + 1 := by
  induction more generalizing curZero with
  | zero => rfl
  | succ more ih => rw [zeroHTable, List.length_cons, ih]

theorem ChunkSlice.merkleize_eq (chunks : ChunkSlice) {limit : Nat} (small : limit < 2 ^ 63) :
    chunks.merkleize d limit = some (Ssz.merkleize d.hasher chunks.1 limit) := by
  have slice := chunks.2
  have target : max (max limit chunks.1.length) 1 ≤ 2 ^ 63 := by omega
  have fits := le_two_pow_ceilLog2 (max (max limit chunks.1.length) 1)
  have height : ceilLog2 (max (max limit chunks.1.length) 1) ≤ 63 := ceilLog2_le target
  unfold ChunkSlice.merkleize
  dsimp only
  rw [nextPowerOfTwo_eq target, trailingZeros_two_pow (by omega), merkleize_eq_root]
  generalize ceilLog2 (max (max limit chunks.1.length) 1) = depth at fits height
  split
  next single =>
    -- The tree is its one leaf.
    obtain rfl : depth = 0 := by
      cases depth with
      | zero => rfl
      | succ depth => have := Nat.two_pow_pos depth; rw [Nat.pow_succ] at single; omega
    rw [Merkle.root, List.getD_eq_getElem?_getD, List.head?_eq_getElem?]
    rfl
  next several =>
    split
    next none =>
      rw [List.isEmpty_iff.mp none]
      exact congrArg some (Merkle.root_const _ _ depth).symm
    next nonempty =>
      obtain ⟨more, rfl⟩ : ∃ more, depth = more + 1 := by
        cases depth with
        | zero => exact absurd rfl several
        | succ more => exact ⟨more, rfl⟩
      have all : (zeroHTable d (more + 1 - 1) zeroChunk).take (more + 1) =
          zeroHTable d more zeroChunk :=
        List.take_of_length_le (by rw [length_zeroHTable]; omega)
      rw [all, foldl_nextLevel, ← List.head?_eq_getElem?]
      exact Merkle.head?_climb _ _ (fun none => nonempty (List.isEmpty_iff.mpr none)) (by omega)

/-- Merkleization returns the root of the perfect tree whose width is the least power of two that
the limit, the chunks and a single leaf fit in, with the chunks in order and then zero chunks. -/
theorem merkleize_perfectRoot (chunks : ChunkSlice) {limit : Nat} (small : limit < 2 ^ 63) :
    ∃ height, IsLeast { width | (∃ k, width = 2 ^ k) ∧ max (max limit chunks.1.length) 1 ≤ width }
        (2 ^ height) ∧
      chunks.merkleize d limit =
        some (Merkle.root (hashPair d) height fun i => chunks.1.getD i zeroChunk) :=
  ⟨_, isLeast_ceilLog2 _, by rw [chunks.merkleize_eq d small, merkleize_eq_root]; rfl⟩

/-- Three chunks fill a tree of four leaves. -/
theorem merkleize_perfectRoot_three :
    3 < 2 ^ 63 ∧ ∃ height, IsLeast { width | (∃ k, width = 2 ^ k) ∧ 3 ≤ width } (2 ^ height) ∧
      ChunkSlice.merkleize (fun bytes => padChunk bytes)
          ⟨[padChunk [1], padChunk [2], padChunk [3]], by decide⟩ 3 =
        some (Merkle.root (hashPair fun bytes => padChunk bytes) height fun i =>
          [padChunk [1], padChunk [2], padChunk [3]].getD i zeroChunk) :=
  ⟨by decide, merkleize_perfectRoot (fun bytes => padChunk bytes)
    ⟨[padChunk [1], padChunk [2], padChunk [3]], by decide⟩ (by decide : 3 < 2 ^ 63)⟩

end

end Jar.Ssz
