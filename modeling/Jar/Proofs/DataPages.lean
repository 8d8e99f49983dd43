import Jar.Cap.Hash
import Mathlib.Data.List.GetD

/-! What the operations on data do to single pages and bytes. -/

namespace Jar.Javm

open Ssz

theorem pageSize_pos : 0 < pageSize := by decide

/-! ## Pages -/

/-- The byte at a position of a page; a missing page has none. -/
def PageSlot.byteAt : PageSlot → Nat → Option Byte
  | .empty, _ => some 0
  | .loaded page, j => some (page.bytes.getD j 0)
  | .missing _, _ => none

/-- A page in the one form that its bytes have: the zero page is not stored, and any other is one
page long and has the hash of its content. -/
def PageSlot.Canonical (d : Digest) : PageSlot → Prop
  | .empty => True
  | .loaded page =>
    page.bytes.length = pageSize ∧ page.hash = pageContentHash d page.bytes ∧
      ∃ b ∈ page.bytes, b ≠ 0
  | .missing _ => False

theorem length_pageArray (bytes : List Byte) : (pageArray bytes).length = pageSize := by
  simp only [pageArray, List.length_append, List.length_take, List.length_replicate]
  omega

theorem pageArray_of_length {bytes : List Byte} (length : bytes.length = pageSize) :
    pageArray bytes = bytes := by
  rw [pageArray, length, Nat.sub_self, List.replicate_zero, List.append_nil,
    List.take_of_length_le (Nat.le_of_eq length)]

theorem getD_pageArray {bytes : List Byte} {j : Nat} (below : j < pageSize) :
    (pageArray bytes).getD j 0 = bytes.getD j 0 := by
  simp only [pageArray, List.getD_eq_getElem?_getD, List.getElem?_append, List.getElem?_take,
    List.length_take, List.getElem?_replicate]
  split
  · rfl
  · -- Past the content there are zeros, here and there.
    rw [List.getElem?_eq_none (show bytes.length ≤ j by omega)]
    split <;> rfl

theorem pageContentHash_pageArray (d : Digest) (bytes : List Byte) :
    pageContentHash d (pageArray bytes) = pageContentHash d bytes := by
  rw [pageContentHash, pageContentHash, pageArray_of_length (length_pageArray bytes)]

theorem getD_of_all_zero {bytes : List Byte} (zero : bytes.all (· = 0)) (j : Nat) :
    bytes.getD j 0 = 0 := by
  rw [List.getD_eq_getElem?_getD]
  cases found : bytes[j]? with
  | none => rfl
  | some b =>
    exact of_decide_eq_true (List.all_eq_true.mp zero b (List.mem_of_getElem? found))

theorem byteAt_contentSlot (hash : List Byte → CapHash) (content : List Byte) {j : Nat}
    (below : j < pageSize) :
    (PageSlab.contentSlot hash content).byteAt j = some (content.getD j 0) := by
  unfold PageSlab.contentSlot
  split
  · next zero => rw [PageSlot.byteAt, getD_of_all_zero zero]
  · exact congrArg some (getD_pageArray below)

theorem canonical_contentSlot (d : Digest) {content : List Byte}
    (fits : content.length ≤ pageSize) :
    (PageSlab.contentSlot (pageContentHash d) content).Canonical d := by
  unfold PageSlab.contentSlot
  split
  · trivial
  · next nonzero =>
    refine ⟨length_pageArray content, (pageContentHash_pageArray d content).symm, ?_⟩
    rw [List.all_eq_true] at nonzero
    push Not at nonzero
    obtain ⟨b, member, different⟩ := nonzero
    refine ⟨b, List.mem_append_left _ ?_, by simpa using different⟩
    rwa [List.take_of_length_le fits]

theorem PageSlot.Canonical.eq_empty {d : Digest} {slot : PageSlot} (canonical : slot.Canonical d)
    (zero : ∀ j < pageSize, slot.byteAt j = some 0) : slot = .empty := by
  match slot with
  | .empty => rfl
  | .loaded page =>
    obtain ⟨length, -, b, member, nonzero⟩ := canonical
    obtain ⟨j, below, is⟩ := List.getElem_of_mem member
    have read := Option.some.inj (zero j (length ▸ below))
    rw [List.getD_eq_getElem _ _ below, is] at read
    exact absurd read nonzero

theorem PageSlot.Canonical.ext {d : Digest} {slot slot' : PageSlot} (canonical : slot.Canonical d)
    (canonical' : slot'.Canonical d)
    (same : ∀ j < pageSize, slot.byteAt j = slot'.byteAt j) : slot = slot' := by
  match slot, slot' with
  | .empty, _ => exact (canonical'.eq_empty fun j below => (same j below).symm).symm
  | .loaded page, .empty => exact canonical.eq_empty same
  | .loaded ⟨hash, bytes⟩, .loaded ⟨hash', bytes'⟩ =>
    obtain ⟨length, hashed, -⟩ := canonical
    obtain ⟨length', hashed', -⟩ := canonical'
    have agree : bytes = bytes' := by
      refine List.ext_getElem (by rw [length, length']) fun j below below' => ?_
      have read := Option.some.inj (same j (length ▸ below))
      rwa [List.getD_eq_getElem _ _ below, List.getD_eq_getElem _ _ below'] at read
    simp only at hashed hashed' agree
    rw [hashed, hashed', agree]

/-! ## Slabs -/

namespace PageSlab

theorem getD_trim (pages : List PageSlot) (i : Nat) :
    (trim pages).getD i .empty = pages.getD i .empty := by
  have whole := List.rdropWhile_append_rtakeWhile (p := fun s => decide (s = .empty)) (l := pages)
  have cut : ∀ slot ∈ pages.rtakeWhile (· = .empty), slot = .empty := fun slot member =>
    of_decide_eq_true (List.mem_rtakeWhile_imp (p := fun s => decide (s = PageSlot.empty)) member)
  conv_rhs => rw [← whole]
  rw [trim, List.getD_eq_getElem?_getD, List.getD_eq_getElem?_getD, List.getElem?_append]
  split
  · rfl
  · next past =>
    -- What was cut off is zero, like what is past the end.
    rw [List.getElem?_eq_none (Nat.le_of_not_lt past)]
    generalize i - _ = k
    cases found : (pages.rtakeWhile (· = .empty))[k]? with
    | none => rfl
    | some slot => exact (cut slot (List.mem_of_getElem? found)).symm

theorem getD_setPage (pages : List PageSlot) (p : Nat) (slot : PageSlot) (i : Nat) :
    (setPage pages p slot).getD i .empty = if i = p then slot else pages.getD i .empty := by
  simp only [setPage, List.getD_eq_getElem?_getD, List.getElem?_set, List.getElem?_append,
    List.getElem?_replicate, List.length_append, List.length_replicate]
  by_cases here : p = i
  · subst here
    rw [if_pos rfl, if_pos (by omega), if_pos rfl]
    rfl
  · rw [if_neg here, if_neg (Ne.symm here)]
    split
    · rfl
    · next past =>
      rw [List.getElem?_eq_none (Nat.le_of_not_lt past)]
      split <;> rfl

variable (hash : List Byte → CapHash)

theorem page_putPageIdx (slab : PageSlab) (p : Nat) (content : List Byte) (i : Nat) :
    (slab.putPageIdx hash p content).page i =
      if i = p then contentSlot hash content else slab.page i := by
  rw [page, putPageIdx, getD_trim, getD_setPage]
  rfl

theorem page_fromBytesSized (content : List Byte) (targetSize i : Nat) :
    (fromBytesSized hash content targetSize).page i =
      contentSlot hash ((content.drop (i * pageSize)).take pageSize) := by
  simp only [page, fromBytesSized]
  rw [getD_trim, List.getD_eq_getElem?_getD, List.getElem?_map]
  by_cases within : i < max ((max targetSize content.length + (pageSize - 1)) / pageSize *
      pageSize) pageSize / pageSize
  · rw [List.getElem?_range within]
    rfl
  · -- There is no content past the size.
    have covered : content.length ≤ i * pageSize := by
      simp only [pageSize] at within ⊢
      omega
    rw [List.getElem?_eq_none (by rw [List.length_range]; exact Nat.le_of_not_lt within),
      List.drop_eq_nil_of_le covered]
    rfl

end PageSlab

/-! ## Data -/

namespace DataCap

/-- The effective byte at an address; a missing page has none. -/
def byteAt (cap : DataCap) (a : Nat) : Option Byte :=
  (cap.pageSlot (a / pageSize)).byteAt (a % pageSize)

theorem pageSlot_of_clean {cap : DataCap} (clean : cap.overlay.entries = []) (i : Nat) :
    cap.pageSlot i = cap.backing.page i := by
  have none : cap.overlay.lookup (i % 2 ^ 32) = none := by rw [SortedMap.lookup, clean]; rfl
  rw [pageSlot, none]

theorem root_of_clean {H : Type} (h : Hasher H) {cap : DataCap}
    (clean : cap.overlay.entries = []) :
    cap.root h = some (containerRoot h [uintRoot h 8 cap.backing.size, cap.backing.root h]) :=
  if_pos clean

theorem byteAt_fromBytesSized (hash : List Byte → CapHash) (content : List Byte)
    (targetSize a : Nat) :
    (fromBytesSized hash content targetSize).byteAt a = some (content.getD a 0) := by
  have offset := Nat.mod_lt a pageSize_pos
  rw [byteAt, pageSlot_of_clean rfl, fromBytesSized, PageSlab.page_fromBytesSized,
    byteAt_contentSlot _ _ offset]
  simp only [List.getD_eq_getElem?_getD, List.getElem?_take, if_pos offset, List.getElem?_drop]
  rw [Nat.mul_comm, Nat.div_add_mod]

/-- The pages that are shared cover the own ones from the offset on, up to the size. -/
theorem page_placeShared (cap : DataCap) (dstOff : Nat) (src : DataCap) (i : Nat) :
    (cap.placeShared dstOff src).backing.page i =
      if dstOff / pageSize ≤ i ∧ i - dstOff / pageSize < src.pageCount ∧ i < cap.pageCount then
        src.pageSlot (i - dstOff / pageSize)
      else cap.backing.page i := by
  -- After `n` pages, those from the base on are shared.
  have placed : ∀ n, ((List.range n).foldl
      (fun pages k => PageSlab.setPage pages (dstOff / pageSize + k) (src.pageSlot k))
      cap.backing.pages).getD i .empty =
      if dstOff / pageSize ≤ i ∧ i - dstOff / pageSize < n then
        src.pageSlot (i - dstOff / pageSize)
      else cap.backing.page i := by
    intro n
    induction n with
    | zero => simp [PageSlab.page]
    | succ n ih =>
      rw [List.range_succ, List.foldl_append, List.foldl_cons, List.foldl_nil,
        PageSlab.getD_setPage, ih]
      by_cases last : i = dstOff / pageSize + n
      · rw [if_pos last, if_pos ⟨by omega, by omega⟩, last, Nat.add_sub_cancel_left]
      · rw [if_neg last]
        exact if_congr (by omega) rfl rfl
  rw [PageSlab.page, placeShared, PageSlab.getD_trim, placed]
  refine if_congr ?_ rfl rfl
  simp only [pageCount]
  omega

/-! ## Flushing -/

/-- Folding pages into the backing replaces those that are there and keeps the others. -/
theorem foldlM_foldPage (hash : List Byte → CapHash) {entries : List (Nat × PageSlot)}
    (sorted : entries.Pairwise fun a b => a.1 < b.1)
    (present : ∀ e ∈ entries, ∀ elided, e.2 ≠ .missing elided) (backing : PageSlab) :
    ∃ slab, entries.foldlM (foldPage hash) backing = some slab ∧ slab.size = backing.size ∧
      (∀ p page, (p, PageSlot.loaded page) ∈ entries →
        slab.page p = PageSlab.contentSlot hash page.bytes) ∧
      ∀ p, (∀ page, (p, PageSlot.loaded page) ∉ entries) → slab.page p = backing.page p := by
  induction entries generalizing backing with
  | nil => exact ⟨backing, rfl, rfl, fun _ _ none => absurd none List.not_mem_nil, fun _ _ => rfl⟩
  | cons e rest ih =>
    obtain ⟨p, slot⟩ := e
    obtain ⟨smallest, tail⟩ := List.pairwise_cons.mp sorted
    have later : ∀ slot', (p, slot') ∉ rest := fun slot' member =>
      Nat.lt_irrefl p (smallest (p, slot') member)
    have presentRest : ∀ e ∈ rest, ∀ elided, e.2 ≠ .missing elided := fun e member =>
      present e (List.mem_cons_of_mem _ member)
    cases slot with
    | missing elided => exact absurd rfl (present _ (List.mem_cons_self ..) elided)
    | empty =>
      obtain ⟨slab, folded, size, covered, kept⟩ := ih tail presentRest backing
      refine ⟨slab, folded, size, fun q page member => ?_, fun q none => ?_⟩
      · rcases List.mem_cons.mp member with same | member
        · cases same
        · exact covered q page member
      · exact kept q fun page member => none page (List.mem_cons_of_mem _ member)
    | loaded page =>
      obtain ⟨slab, folded, size, covered, kept⟩ :=
        ih tail presentRest (backing.putPageIdx hash p page.bytes)
      refine ⟨slab, folded, size, fun q page' member => ?_, fun q none => ?_⟩
      · rcases List.mem_cons.mp member with same | member
        · cases same
          rw [kept p fun page' => later _, PageSlab.page_putPageIdx, if_pos rfl]
        · exact covered q page' member
      · have other : q ≠ p := fun same => none page (same ▸ List.mem_cons_self ..)
        rw [kept q fun page' member => none page' (List.mem_cons_of_mem _ member),
          PageSlab.page_putPageIdx, if_neg other]

/-- Flushing leaves a clean capability of the same size, with every page of the overlay in its
place. -/
theorem exists_flush (hash : List Byte → CapHash) {cap : DataCap}
    (present : ∀ e ∈ cap.overlay.entries, ∀ elided, e.2 ≠ .missing elided) :
    ∃ slab, cap.flush hash = some ⟨slab, SortedMap.empty⟩ ∧ slab.size = cap.backing.size ∧
      (∀ p page, cap.overlay.lookup p = some (.loaded page) →
        slab.page p = PageSlab.contentSlot hash page.bytes) ∧
      ∀ p, (∀ page, cap.overlay.lookup p ≠ some (.loaded page)) →
        slab.page p = cap.backing.page p := by
  obtain ⟨slab, folded, size, covered, kept⟩ :=
    foldlM_foldPage hash cap.overlay.sorted present cap.backing
  refine ⟨slab, ?_, size, fun p page found => covered p page (SortedMap.lookup_eq_some.mp found),
    fun p none => kept p fun page member => none page (SortedMap.lookup_eq_some.mpr member)⟩
  unfold flush
  split
  · next clean =>
    rw [clean] at folded
    rw [← Option.some.inj folded]
    exact congrArg (fun overlay => some (DataCap.mk cap.backing overlay)) (SortedMap.ext clean)
  · rw [folded]
    rfl

end DataCap

end Jar.Javm
