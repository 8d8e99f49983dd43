import Jar.Ssz.Merkle

/-! Sparse lists with cached subtree roots: their updates and their root. -/

namespace Jar.Ssz

open scoped Word

/-- A sparse list together with the subtree roots that are cached for it. -/
structure CachedSparseList (T : Type) extends SparseList T where
  /-- The cached roots, by the heap index of their node. -/
  cachedSubtreeRoots : SortedMap (BitVec 64) (ByteVector 32)

namespace CachedSparseList

variable {T : Type}

def new : CachedSparseList T := ⟨⟨0, .empty⟩, .empty⟩

/-- Put an entry at an index, which must be below the capacity. -/
def insert (capacity : Nat) (list : CachedSparseList T) (idx : BitVec 64) (value : MissingOr T) :
    Except DecodeError (CachedSparseList T) :=
  if capacity ≤ idx.toNat then .error (.boundExceeded ((idx.toNat + 1) % 2 ^ 64) capacity)
  else
    .ok { list with
      len := if list.len ≤ idx + 1 then idx + 1 else list.len
      entries := list.entries.insert idx value }

/-- Remove and return the entry at an index; the length stays. -/
def remove (list : CachedSparseList T) (idx : BitVec 64) :
    Option (MissingOr T) × CachedSparseList T :=
  (list.entries.lookup idx, { list with entries := list.entries.remove idx })

/-- Set the length, which the capacity bounds; the entries stay. -/
def setLen (capacity : Nat) (list : CachedSparseList T) (len : BitVec 64) :
    Except DecodeError (CachedSparseList T) :=
  if capacity < len.toNat then .error (.boundExceeded len.toNat capacity)
  else .ok { list with len }

/-- The heap index of a node, from its depth and its index there. -/
def coordToKey (depth : Nat) (idx : BitVec 64) : BitVec 64 := (1#64 <<< (depth % 64)) ||| idx

def cacheSubtreeRoot (list : CachedSparseList T) (depth : Nat) (idx : BitVec 64)
    (root : ByteVector 32) : CachedSparseList T :=
  { list with cachedSubtreeRoots := list.cachedSubtreeRoots.insert (coordToKey depth idx) root }

variable [HashTreeRoot T]

/-- The root of a subtree: cached, a leaf, empty, or the parent of its two halves. -/
def computeSubtreeRoot (d : Digest) (list : CachedSparseList T) :
    (levelsBelow nodeDepth : Nat) → (nodeIndexAtDepth : BitVec 64) → ByteVector 32
  | 0, nodeDepth, nodeIndexAtDepth =>
    match list.cachedSubtreeRoots.lookup (coordToKey nodeDepth nodeIndexAtDepth) with
    | some cached => cached
    | none => ((list.entries.lookup nodeIndexAtDepth).map (hashTreeRoot d)).getD zeroChunk
  | levels + 1, nodeDepth, nodeIndexAtDepth =>
    match list.cachedSubtreeRoots.lookup (coordToKey nodeDepth nodeIndexAtDepth) with
    | some cached => cached
    | none =>
      let leavesPerSubtree := 1#64 <<< (levels + 1)
      let lo := nodeIndexAtDepth * leavesPerSubtree
      let hi := lo + leavesPerSubtree
      let pos := Radix.partitionPoint list.entries.entries fun e => e.1 < lo
      let hasEntries := (list.entries.entries[pos]?).any fun e => e.1 < hi
      if !hasEntries then zeroHash d.hasher (levels + 1)
      else
        hashPair d (computeSubtreeRoot d list levels (nodeDepth + 1) (nodeIndexAtDepth * 2))
          (computeSubtreeRoot d list levels (nodeDepth + 1) (nodeIndexAtDepth * 2 + 1))

def rootOf (capacity : Nat) (d : Digest) (list : CachedSparseList T) : ByteVector 32 :=
  mixInLength d.hasher (computeSubtreeRoot d list (ceilLog2 capacity) 0 0) list.len.toNat

omit [HashTreeRoot T]

/-- A call that changes a list. -/
inductive Call (T : Type) where
  | insert (idx : BitVec 64) (value : MissingOr T)
  | remove (idx : BitVec 64)
  | setLen (len : BitVec 64)
  | cacheSubtreeRoot (depth : Nat) (idx : BitVec 64) (root : ByteVector 32)

/-- The list after a call, unchanged by one that fails. -/
def after (capacity : Nat) (list : CachedSparseList T) : Call T → CachedSparseList T
  | .insert idx value => (list.insert capacity idx value).toOption.getD list
  | .remove idx => (list.remove idx).2
  | .setLen len => (list.setLen capacity len).toOption.getD list
  | .cacheSubtreeRoot depth idx root => list.cacheSubtreeRoot depth idx root

end CachedSparseList

end Jar.Ssz
