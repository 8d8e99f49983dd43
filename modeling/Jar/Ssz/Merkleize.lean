import Jar.Ssz.Merkle

/-! The merkleization of chunks as the source computes it: a table of zero hashes, a fold a level. -/

namespace Jar.Ssz

/-- A slice of chunks, whose bytes span less than half of the address space. -/
def ChunkSlice := { chunks : List (ByteVector 32) // 32 * chunks.length < 2 ^ 63 }

def leadingZeros (n : Nat) : Nat := if n = 0 then 64 else 63 - n.log2

def trailingZeros : (bits n : Nat) → Nat
  | 0, _ => 0
  | bits + 1, n => if n % 2 = 1 then 0 else trailingZeros bits (n / 2) + 1

/-- The least power of two that is not below a 64-bit number, wrapping where there is none. -/
def nextPowerOfTwo (n : Nat) : Nat :=
  if n ≤ 1 then 1 else ((2 ^ 64 - 1) >>> leadingZeros (n - 1) + 1) % 2 ^ 64

section

variable (d : Digest)

/-- The zero hashes from one on, each the parent of two of the one before. -/
def zeroHTable : (more : Nat) → (curZero : ByteVector 32) → List (ByteVector 32)
  | 0, curZero => [curZero]
  | more + 1, curZero => curZero :: zeroHTable more (hashPair d curZero curZero)

/-- The next level; a missing right sibling is the zero hash of this one. -/
def nextLevel (level : List (ByteVector 32)) (zeroH : ByteVector 32) : List (ByteVector 32) :=
  List.ofFn fun i : Fin ((level.length + 1) / 2) =>
    hashPair d (level.get ⟨2 * i.val, by omega⟩) (level[2 * i.val + 1]?.getD zeroH)

/-- The root of the chunks padded up to a limit, absent if the last level were empty. -/
def ChunkSlice.merkleize (chunks : ChunkSlice) (limit : Nat) : Option (ByteVector 32) :=
  let target := max (max limit chunks.1.length) 1
  let paddedLen := nextPowerOfTwo target
  let depth := trailingZeros 64 paddedLen
  if paddedLen = 1 then some (chunks.1.head?.getD zeroChunk)
  else if chunks.1.isEmpty then some (zeroHash d.hasher depth)
  else (((zeroHTable d (depth - 1) zeroChunk).take depth).foldl (nextLevel d) chunks.1)[0]?

end

end Jar.Ssz
