import Jar.Exec.Memory
import Jar.Lib.SortedMap
import Jar.Ssz.Wire
import Mathlib.Data.List.DropRight

/-! Data capabilities: immutable pages below a copy-on-write overlay. -/

namespace Jar.Javm

open Ssz

/-- The digest that identifies capabilities. -/
abbrev CapHash := ByteVector 32

/-- One page's bytes with their content hash. -/
structure PageBytes where
  hash : CapHash
  bytes : List Byte
  deriving DecidableEq

/-- A page that is zero, present, or known only by its hash. -/
inductive PageSlot where
  | empty
  | loaded (page : PageBytes)
  | missing (hash : CapHash)
  deriving DecidableEq

/-- A page of content, padded with zeros; `pageContentHash` is the hash of pages. -/
def PageBytes.fromContent (pageContentHash : List Byte → CapHash) (content : List Byte) :
    PageBytes where
  hash := pageContentHash content
  bytes := content.take pageSize ++ List.replicate (pageSize - content.length) 0

/-- A size in bytes, and the pages without the zero pages at the end. -/
structure PageSlab where
  size : Nat
  pages : List PageSlot
  deriving DecidableEq

namespace PageSlab

def pageCount (slab : PageSlab) : Nat := slab.size / pageSize

/-- A page by its index; the ones past the end are zero. -/
def page (slab : PageSlab) (i : Nat) : PageSlot := slab.pages.getD i .empty

/-- Cut off the zero pages at the end. -/
def trim (pages : List PageSlot) : List PageSlot := pages.rdropWhile (· = .empty)

/-- Store a page, after as many zero pages as it takes. -/
def setPage (pages : List PageSlot) (p : Nat) (slot : PageSlot) : List PageSlot :=
  (pages ++ List.replicate (p + 1 - pages.length) PageSlot.empty).set p slot

/-- The page of some content, zero if all of it is. -/
def contentSlot (pageContentHash : List Byte → CapHash) (content : List Byte) : PageSlot :=
  if content.all (· = 0) then .empty else .loaded (PageBytes.fromContent pageContentHash content)

def putPageIdx (pageContentHash : List Byte → CapHash) (slab : PageSlab) (p : Nat)
    (content : List Byte) : PageSlab :=
  { slab with pages := trim (setPage slab.pages p (contentSlot pageContentHash content)) }

def fromSparsePages (pageContentHash : List Byte → CapHash) (size : Nat)
    (pages : List (Nat × List Byte)) : PageSlab :=
  pages.foldl (fun slab e => slab.putPageIdx pageContentHash e.1 e.2)
    ⟨max ((size + (pageSize - 1)) / pageSize * pageSize) pageSize, []⟩

/-- Contiguous content, with at least the given size and at least one page. -/
def fromBytesSized (pageContentHash : List Byte → CapHash) (content : List Byte)
    (targetSize : Nat) : PageSlab :=
  let size := max ((max targetSize content.length + (pageSize - 1)) / pageSize * pageSize) pageSize
  { size
    pages := trim ((List.range (size / pageSize)).map fun p =>
      contentSlot pageContentHash ((content.drop (p * pageSize)).take pageSize)) }

end PageSlab

/-- An immutable backing, and the pages that were modified since. -/
structure DataCap where
  backing : PageSlab
  overlay : SortedMap Nat PageSlot
  deriving DecidableEq

/-- What a page of a data capability holds. -/
inductive PageResolution where
  | zero
  | bytes (bytes : List Byte)
  | missing (hash : CapHash)
  deriving DecidableEq

namespace DataCap

def empty : DataCap := ⟨⟨0, []⟩, SortedMap.empty⟩

def contentLen (cap : DataCap) : Nat := cap.backing.size

def pageCount (cap : DataCap) : Nat := cap.backing.pageCount

/-- The effective page at an index; the overlay has indices of 32 bits. -/
def pageSlot (cap : DataCap) (i : Nat) : PageSlot :=
  match cap.overlay.lookup (i % 2 ^ 32) with
  | some (.loaded page) => .loaded page
  | some (.missing hash) => .missing hash
  | _ => cap.backing.page i

/-- The effective page around a byte offset. -/
def pageAt (cap : DataCap) (off : Nat) : PageResolution :=
  match cap.pageSlot (off / pageSize) with
  | .loaded page => .bytes page.bytes
  | .missing hash => .missing hash
  | .empty => .zero

/-- Read `left` bytes page by page, in at most `fuel` steps; a missing page panics. -/
def copyFrom (cap : DataCap) : (fuel off left : Nat) → Option (List Byte)
  | 0, _, _ => some []
  | fuel + 1, off, left =>
    if left = 0 then some []
    else
      let pageOff := off % pageSize
      let take := min (pageSize - pageOff) left
      let chunk := match cap.pageAt off with
        | .bytes bytes =>
          let present := (bytes.drop pageOff).take take
          some (present ++ List.replicate (take - present.length) 0)
        | .zero => some (List.replicate take 0)
        | .missing _ => none
      chunk.bind fun chunk => (cap.copyFrom fuel (off + take) (left - take)).map (chunk ++ ·)

/-- Read `len` bytes of the effective content; a missing page panics. -/
def copyInto (cap : DataCap) (start len : Nat) : Option (List Byte) := cap.copyFrom len start len

/-- Store content as the page of the backing around an offset. -/
def putPage (pageContentHash : List Byte → CapHash) (cap : DataCap) (off : Nat)
    (content : List Byte) : DataCap :=
  { cap with backing := cap.backing.putPageIdx pageContentHash (off / pageSize) content }

/-- Store content as the page of the overlay around an offset, also if all of it is zero. -/
def writePage (pageContentHash : List Byte → CapHash) (cap : DataCap) (off : Nat)
    (content : List Byte) : DataCap :=
  { cap with
    overlay := cap.overlay.insert (off / pageSize % 2 ^ 32)
      (.loaded (PageBytes.fromContent pageContentHash content)) }

def insertOverlayPage (cap : DataCap) (p : Nat) (slot : PageSlot) : DataCap :=
  { cap with overlay := cap.overlay.insert p slot }

/-- Share the effective pages of another capability from an offset on, up to the own size. -/
def placeShared (cap : DataCap) (dstOff : Nat) (src : DataCap) : DataCap :=
  let base := dstOff / pageSize
  let total := cap.backing.pageCount
  let pages := (List.range (min src.pageCount (total - base))).foldl
    (fun pages i => PageSlab.setPage pages (base + i) (src.pageSlot i)) cap.backing.pages
  { cap with backing := { cap.backing with pages := PageSlab.trim pages } }

/-- Clean content of at least the given size. -/
def fromBytesSized (pageContentHash : List Byte → CapHash) (content : List Byte)
    (targetSize : Nat) : DataCap :=
  ⟨PageSlab.fromBytesSized pageContentHash content targetSize, SortedMap.empty⟩

def fromSparsePages (pageContentHash : List Byte → CapHash) (size : Nat)
    (pages : List (Nat × List Byte)) : DataCap :=
  ⟨PageSlab.fromSparsePages pageContentHash size pages, SortedMap.empty⟩

/-- Fold one page of the overlay into the backing; a missing one panics. -/
def foldPage (pageContentHash : List Byte → CapHash) (backing : PageSlab)
    (e : Nat × PageSlot) : Option PageSlab :=
  match e.2 with
  | .loaded page => some (backing.putPageIdx pageContentHash e.1 page.bytes)
  | .empty => some backing
  | .missing _ => none

/-- Fold the overlay into the backing. -/
def flush (pageContentHash : List Byte → CapHash) (cap : DataCap) : Option DataCap :=
  if cap.overlay.entries = [] then some cap
  else (cap.overlay.entries.foldlM (foldPage pageContentHash) cap.backing).map
    (⟨·, SortedMap.empty⟩)

/-- Clean content, rounded up to whole pages. -/
def fromBytes (pageContentHash : List Byte → CapHash) (content : List Byte) : DataCap :=
  fromBytesSized pageContentHash content content.length

end DataCap

end Jar.Javm
