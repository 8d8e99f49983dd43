import Jar.Lib.Merkle
import Jar.Ssz.Radix

/-! Merkleization: the roots of scalars, byte strings, lists and containers. -/

namespace Jar.Ssz

def hashPair (d : Digest) (left right : ByteVector 32) : ByteVector 32 := d (left.1 ++ right.1)

/-- What roots are made of: merkleization only places chunks and joins nodes. -/
structure Hasher (H : Type) where
  chunk : ByteVector 32 → H
  pair : H → H → H

def Digest.hasher (d : Digest) : Hasher (ByteVector 32) := ⟨id, hashPair d⟩

/-- The chunk of zeros. -/
abbrev zeroChunk : ByteVector 32 := Radix.empty

def padChunk (bytes : List Byte) : ByteVector 32 :=
  ⟨bytes.take 32 ++ List.replicate (32 - bytes.length) 0, by
    simp only [List.length_append, List.length_take, List.length_replicate]
    omega⟩

def packBytes (bytes : List Byte) : List (ByteVector 32) :=
  (List.range ((bytes.length + 31) / 32)).map fun i => padChunk (bytes.drop (32 * i))

/-- The height of a tree with some number of leaves. -/
def ceilLog2 (n : Nat) : Nat := if n ≤ 1 then 0 else (n - 1).log2 + 1

section

variable {H : Type} (h : Hasher H)

def zeroHash (depth : Nat) : H := Merkle.zeroRoot h.pair (h.chunk zeroChunk) depth

/-- The root of nodes, padded with zeros to the next power of two that is at least the limit. -/
def merkleize (nodes : List H) (limit : Nat) : H :=
  let depth := ceilLog2 (max (max limit nodes.length) 1)
  if nodes.isEmpty then zeroHash h depth
  else (Merkle.climb h.pair depth (h.chunk zeroChunk) nodes).headD (h.chunk zeroChunk)

def mixInLength (root : H) (len : Nat) : H :=
  h.pair root (h.chunk (padChunk (LittleEndian.encode 8 len)))

def uintRoot (width value : Nat) : H := h.chunk (padChunk (LittleEndian.encode width value))

def bytesRoot (bytes : List Byte) : H :=
  merkleize h ((packBytes bytes).map h.chunk) (max ((bytes.length + 31) / 32) 1)

def containerRoot (roots : List H) : H := merkleize h roots roots.length

end

end Jar.Ssz
