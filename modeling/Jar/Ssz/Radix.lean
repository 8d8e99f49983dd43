import Jar.Ssz.Collections
import Jar.Lib.RadixTree

/-! The root of radix maps, and the verification of membership proofs against it. -/

namespace Jar.Ssz

open scoped Word

/-- A digest with 32 bytes of output. -/
abbrev Digest := List Byte → ByteVector 32

/-- Values with a Merkle root. -/
class HashTreeRoot (T : Type) where
  /-- The root of a value. -/
  hashTreeRoot : Digest → T → ByteVector 32

export HashTreeRoot (hashTreeRoot)

/-- A hash stands for the value whose root it is. -/
instance {T : Type} [HashTreeRoot T] : HashTreeRoot (MissingOr T) where
  hashTreeRoot
    | d, .materialized value => hashTreeRoot d value
    | _, .missing hash => hash

namespace Radix

/-- The hash of an empty subtree, the all-zero chunk. -/
def empty : ByteVector 32 := ⟨List.replicate 32 0, length_zeroChunk⟩

def leafTag : Byte := 0x00

def branchTag : Byte := 0x01

/-- Bit `i` of a key, from the most significant one of its first byte. -/
def bit (key : List Byte) (i : Nat) : Byte := (key.getD (i >>> 3) 0 >>> (7 - (i &&& 7))) &&& 1

variable {keyBytes : Nat} {V : Type} [HashTreeRoot V]

/-- The hash of a leaf commits to the whole key and to the root of the value. -/
def leafHash (d : Digest) (key : ByteVector keyBytes) (valueRoot : ByteVector 32) :
    ByteVector 32 :=
  d (leafTag :: (key.1 ++ valueRoot.1))

def branchHash (d : Digest) (left right : ByteVector 32) : ByteVector 32 :=
  d (branchTag :: (left.1 ++ right.1))

/-- The first position of a partitioned slice at which the predicate fails. -/
def partitionPoint {T : Type} (s : List T) (p : T → Bool) : Nat := (s.takeWhile p).length

/-- The root of entries that share the first `depth` bits; `levels` bits of the keys are left. -/
def radixNode (d : Digest) :
    (levels : Nat) → (s : List (ByteVector keyBytes × MissingOr V)) → (depth : Nat) → ByteVector 32
  | _, [], _ => empty
  | _, [e], _ => leafHash d e.1 (hashTreeRoot d e.2)
  -- Only equal keys could get here.
  | 0, e :: _ :: _, _ => leafHash d e.1 (hashTreeRoot d e.2)
  | levels + 1, s, depth =>
    let mid := partitionPoint s fun e => bit e.1.1 depth = 0
    branchHash d (radixNode d levels (s.take mid) (depth + 1))
      (radixNode d levels (s.drop mid) (depth + 1))

/-- The root of a map. -/
instance : HashTreeRoot (RadixMap V keyBytes) where
  hashTreeRoot d m := radixNode d (keyBytes * 8) m.entries 0

/-! ## Operations -/

def get (m : RadixMap V keyBytes) (key : ByteVector keyBytes) : Option (MissingOr V) := m.lookup key

/-- Insert or overwrite a value; the value that was there is returned. -/
def insert (m : RadixMap V keyBytes) (key : ByteVector keyBytes) (value : MissingOr V) :
    RadixMap V keyBytes × Option (MissingOr V) :=
  (SortedMap.insert m key value, m.lookup key)

def remove (m : RadixMap V keyBytes) (key : ByteVector keyBytes) :
    RadixMap V keyBytes × Option (MissingOr V) :=
  (SortedMap.remove m key, m.lookup key)

/-- A change of a map. -/
inductive Op (V : Type) (keyBytes : Nat) where
  | insert (key : ByteVector keyBytes) (value : MissingOr V)
  | remove (key : ByteVector keyBytes)

def apply (m : RadixMap V keyBytes) : Op V keyBytes → RadixMap V keyBytes
  | .insert key value => (insert m key value).1
  | .remove key => (remove m key).1

/-- The map after a sequence of changes to the new, empty one. -/
def run (ops : List (Op V keyBytes)) : RadixMap V keyBytes := ops.foldl apply SortedMap.empty

/-! ## Proofs of membership -/

/-- The node that the walk along a key ends on. -/
inductive RadixTerminal (V : Type) (keyBytes : Nat) where
  /-- The leaf of the key. -/
  | leaf (value : MissingOr V)
  | empty
  /-- The leaf of another key with the same bits so far. -/
  | divergingLeaf (otherKey : ByteVector keyBytes) (otherValueRoot : ByteVector 32)

/-- A proof that one key is in a map, or is not. -/
structure RadixProof (V : Type) (keyBytes : Nat) where
  /-- The number of branches on the way to the terminal. -/
  termDepth : BitVec 32
  /-- The hashes next to the way that are not of empty subtrees, with their levels. -/
  siblings : List (BitVec 32 × ByteVector 32)
  /-- Where the way ends. -/
  terminal : RadixTerminal V keyBytes

/-- The terminal at an entry that is alone in its subtree. -/
def proveEntry (d : Digest) (q : ByteVector keyBytes) (e : ByteVector keyBytes × MissingOr V) :
    RadixTerminal V keyBytes :=
  if e.1.1 = q.1 then .leaf e.2 else .divergingLeaf e.1 (hashTreeRoot d e.2)

/-- Walk the path of a key through entries that share `depth` bits: the terminal, its depth and the
siblings next to the path that are not empty. -/
def proveWalk (d : Digest) (q : ByteVector keyBytes) :
    (levels : Nat) → (s : List (ByteVector keyBytes × MissingOr V)) → (depth : Nat) →
      RadixTerminal V keyBytes × Nat × List (BitVec 32 × ByteVector 32)
  | _, [], depth => (.empty, depth, [])
  | _, [e], depth => (proveEntry d q e, depth, [])
  | 0, e :: _ :: _, depth => (proveEntry d q e, depth, [])
  | levels + 1, s, depth =>
    let mid := partitionPoint s fun e => bit e.1.1 depth = 0
    let (chosen, siblingSlice) :=
      if bit q.1 depth = 0 then (s.take mid, s.drop mid) else (s.drop mid, s.take mid)
    let sibRoot := radixNode d levels siblingSlice (depth + 1)
    let (terminal, termDepth, siblings) := proveWalk d q levels chosen (depth + 1)
    (terminal, termDepth,
      if sibRoot ≠ empty then (BitVec.ofNat 32 depth, sibRoot) :: siblings else siblings)

/-- The proof that a key is in a map, or is not; depths are cut to 32 bits. -/
def prove (d : Digest) (m : RadixMap V keyBytes) (key : ByteVector keyBytes) :
    RadixProof V keyBytes :=
  let (terminal, termDepth, siblings) := proveWalk d key (keyBytes * 8) m.entries 0
  ⟨BitVec.ofNat 32 termDepth, siblings, terminal⟩

/-- What a proof shows. -/
inductive RadixVerdict where
  | present
  | absent
  deriving DecidableEq

def sharedPrefixBits : List Byte → List Byte → Nat
  | x :: xs, y :: ys =>
    if x ^^^ y = 0 then 8 + sharedPrefixBits xs ys else (x ^^^ y).clz.toNat
  | _, _ => 0

/-- The levels are strictly ascending and above the terminal. -/
def siblingLevels (td : Nat) : Option (BitVec 32) → List (BitVec 32 × ByteVector 32) → Bool
  | _, [] => true
  | prev, (lvl, _) :: rest =>
    if td ≤ lvl.toNat then false
    else if prev.any (lvl ≤ ·) then false
    else siblingLevels td (some lvl) rest

/-- The sibling at a level, the hash of no entries where the proof has none. -/
def siblingAt (siblings : List (BitVec 32 × ByteVector 32)) (level : Nat) : ByteVector 32 :=
  ((siblings.find? fun s => s.1.toNat = level).map (·.2)).getD empty

def terminalNode (d : Digest) (key : ByteVector keyBytes) (td : Nat) :
    RadixTerminal V keyBytes → Option (ByteVector 32 × RadixVerdict)
  | .leaf value => some (leafHash d key (hashTreeRoot d value), .present)
  | .empty => some (empty, .absent)
  | .divergingLeaf otherKey otherValueRoot =>
    if otherKey.1 = key.1 then none
    else if sharedPrefixBits otherKey.1 key.1 < td then none
    else some (leafHash d otherKey otherValueRoot, .absent)

def foldLevel (d : Digest) (key : ByteVector keyBytes)
    (siblings : List (BitVec 32 × ByteVector 32)) (cur : ByteVector 32) (level : Nat) :
    ByteVector 32 :=
  let sib := siblingAt siblings level
  if bit key.1 level = 0 then branchHash d cur sib else branchHash d sib cur

/-- Check a proof for a key against a root. -/
def verify (d : Digest) (root : ByteVector 32) (key : ByteVector keyBytes)
    (proof : RadixProof V keyBytes) : Option RadixVerdict :=
  let td := proof.termDepth.toNat
  if td > keyBytes * 8 then none
  else if !siblingLevels td none proof.siblings then none
  else do
    let (cur, verdict) ← terminalNode d key td proof.terminal
    if (List.range td).reverse.foldl (foldLevel d key proof.siblings) cur = root then some verdict
    else none

end Radix

end Jar.Ssz
