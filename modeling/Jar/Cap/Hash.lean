import Jar.Cap.Graph
import Jar.Ssz.Merkle

/-! The content hash of pages and data. -/

namespace Jar.Javm

open Ssz
open scoped Word

/-- A hash is its own root. -/
instance : HashTreeRoot CapHash where
  hashTreeRoot _ hash := hash

/-- A page by its bytes, zero-padded or cut off to the size of a page. -/
def pageArray (bytes : List Byte) : List Byte :=
  bytes.take pageSize ++ List.replicate (pageSize - bytes.length) 0

def pageContentHash (d : Digest) (bytes : List Byte) : CapHash :=
  bytesRoot d.hasher (pageArray bytes)

/-- The root of a page: zero pages have no hash, and that of the others is not computed again. -/
def PageSlot.root : PageSlot → CapHash
  | .empty => zeroHash
  | .loaded page => page.hash
  | .missing elided => elided

section

variable {H : Type} (h : Hasher H)

def PageSlab.root (slab : PageSlab) : H :=
  merkleize h ((List.range slab.pageCount).map fun i => h.chunk (slab.page i).root)
    (max slab.pageCount 1)

/-- The root of data; one with an overlay panics. -/
def DataCap.root (cap : DataCap) : Option H :=
  if cap.overlay.entries = [] then
    some (containerRoot h [uintRoot h 8 cap.backing.size, cap.backing.root h])
  else none

end

end Jar.Javm
