import Jar.Proofs.DataPages
import Jar.Proofs.Merkleize

/-! The identity of data: after a flush the hash is a function of the size and the bytes, however
the data was built, as long as only canonical pages are shared. -/

namespace Jar.Javm

open Ssz

/-! ## Reading -/

namespace DataCap

def Present (cap : DataCap) : Prop := ∀ i elided, cap.pageSlot i ≠ .missing elided

theorem getD_present {bytes : List Byte} {pageOff take k : Nat} (below : k < take) :
    (((bytes.drop pageOff).take take) ++
      List.replicate (take - ((bytes.drop pageOff).take take).length) 0).getD k 0 =
      bytes.getD (pageOff + k) 0 := by
  simp only [List.getD_eq_getElem?_getD, List.getElem?_append, List.getElem?_take,
    List.getElem?_drop, List.length_take, List.length_drop, List.getElem?_replicate]
  split
  · rfl
  · rw [List.getElem?_eq_none (show bytes.length ≤ pageOff + k by omega)]
    split <;> rfl

def readChunk (cap : DataCap) (off take : Nat) : Option (List Byte) :=
  match cap.pageAt off with
  | .bytes bytes =>
    let present := (bytes.drop (off % pageSize)).take take
    some (present ++ List.replicate (take - present.length) 0)
  | .zero => some (List.replicate take 0)
  | .missing _ => none

theorem copyFrom_of_pos (cap : DataCap) (fuel off : Nat) {left : Nat} (more : left ≠ 0) :
    cap.copyFrom (fuel + 1) off left =
      (cap.readChunk off (min (pageSize - off % pageSize) left)).bind fun chunk =>
        (cap.copyFrom fuel (off + min (pageSize - off % pageSize) left)
          (left - min (pageSize - off % pageSize) left)).map (chunk ++ ·) := by
  rw [copyFrom, if_neg more]
  rfl

/-- One step of a read gives the bytes up to the end of the page. -/
theorem exists_readChunk {cap : DataCap} (present : cap.Present) (off take : Nat)
    (within : off % pageSize + take ≤ pageSize) :
    ∃ chunk, cap.readChunk off take = some chunk ∧ chunk.length = take ∧
      ∀ k < take, cap.byteAt (off + k) = some (chunk.getD k 0) := by
  -- The bytes that are read are all on the same page.
  have samePage : ∀ k < take, (off + k) / pageSize = off / pageSize ∧
      (off + k) % pageSize = off % pageSize + k := fun k below => by
    simp only [pageSize] at within ⊢
    omega
  rw [readChunk, pageAt]
  cases slot : cap.pageSlot (off / pageSize) with
  | empty =>
    refine ⟨_, rfl, List.length_replicate, fun k below => ?_⟩
    rw [byteAt, (samePage k below).1, slot, List.getD_replicate _ below]
    rfl
  | loaded page =>
    refine ⟨_, rfl, ?_, fun k below => ?_⟩
    · simp only [List.length_append, List.length_take, List.length_drop, List.length_replicate]
      omega
    · rw [byteAt, (samePage k below).1, (samePage k below).2, slot, getD_present below]
      rfl
  | missing elided => exact absurd slot (present _ _)

theorem exists_copyFrom {cap : DataCap} (present : cap.Present) {fuel : Nat} (off left : Nat)
    (enough : left ≤ fuel) :
    ∃ bytes, cap.copyFrom fuel off left = some bytes ∧ bytes.length = left ∧
      ∀ k < left, cap.byteAt (off + k) = some (bytes.getD k 0) := by
  induction fuel generalizing off left with
  | zero => exact ⟨[], rfl, by simp; omega, fun k below => by omega⟩
  | succ fuel ih =>
    by_cases done : left = 0
    · exact ⟨[], by rw [copyFrom, if_pos done], done.symm, fun k below => by omega⟩
    · have offset := Nat.mod_lt off pageSize_pos
      obtain ⟨chunk, read, length, bytes⟩ := exists_readChunk present off
        (min (pageSize - off % pageSize) left) (by omega)
      obtain ⟨rest, later, restLength, restBytes⟩ :=
        ih (off + min (pageSize - off % pageSize) left)
          (left - min (pageSize - off % pageSize) left) (by omega)
      rw [copyFrom_of_pos _ _ _ done, read, Option.bind_some, later]
      refine ⟨chunk ++ rest, rfl, by rw [List.length_append]; omega, fun k below => ?_⟩
      by_cases early : k < min (pageSize - off % pageSize) left
      · rw [bytes k early, List.getD_append _ _ _ _ (by rwa [length])]
      · have := restBytes (k - min (pageSize - off % pageSize) left) (by omega)
        rw [List.getD_append_right _ _ _ _ (by omega), length, ← this]
        congr 1
        omega

end DataCap

/-! ## The invariant -/

/-- A page of the overlay: there, and no longer than a page. -/
def PageSlot.Fits : PageSlot → Prop
  | .empty => True
  | .loaded page => page.bytes.length ≤ pageSize
  | .missing _ => False

namespace DataCap

/-- Data whose backing is canonical and whose overlay lies within its size. -/
structure Sound (d : Digest) (cap : DataCap) : Prop where
  aligned : cap.contentLen = cap.pageCount * pageSize
  nonempty : 0 < cap.pageCount
  small : cap.pageCount ≤ 2 ^ 32
  canonical : ∀ i, (cap.backing.page i).Canonical d
  within : ∀ i, cap.pageCount ≤ i → cap.backing.page i = .empty
  overlay : ∀ p slot, cap.overlay.lookup p = some slot → p < cap.pageCount ∧ slot.Fits

variable {d : Digest} {cap : DataCap}

theorem Sound.present (sound : cap.Sound d) : cap.Present := by
  intro i elided is
  unfold pageSlot at is
  split at is
  · cases is
  · next found => exact (sound.overlay _ _ found).2
  · have canonical := sound.canonical i
    rwa [is] at canonical

/-- An operation that only changes pages of the backing keeps the invariant if the new pages are
canonical and lie within the size. -/
theorem Sound.of_backing (sound : cap.Sound d) {slab : PageSlab}
    (size : slab.size = cap.backing.size) (canonical : ∀ i, (slab.page i).Canonical d)
    (within : ∀ i, cap.pageCount ≤ i → slab.page i = .empty) :
    ({ cap with backing := slab } : DataCap).Sound d := by
  have count : ({ cap with backing := slab } : DataCap).pageCount = cap.pageCount :=
    congrArg (· / pageSize) size
  refine ⟨?_, count ▸ sound.nonempty, count ▸ sound.small, canonical, count ▸ within,
    count ▸ sound.overlay⟩
  rw [count, ← sound.aligned]
  exact size

theorem Sound.insert (sound : cap.Sound d) {p : Nat} {slot : PageSlot} (below : p < cap.pageCount)
    (fits : slot.Fits) : ({ cap with overlay := cap.overlay.insert p slot } : DataCap).Sound d := by
  refine ⟨sound.aligned, sound.nonempty, sound.small, sound.canonical, sound.within,
    fun q slot' found => ?_⟩
  by_cases here : q = p
  · subst here
    rw [SortedMap.lookup_insert_self] at found
    cases found
    exact ⟨below, fits⟩
  · rw [SortedMap.lookup_insert_ne _ _ here] at found
    exact sound.overlay q slot' found

theorem Sound.clean (sound : cap.Sound d) : (DataCap.mk cap.backing SortedMap.empty).Sound d :=
  ⟨sound.aligned, sound.nonempty, sound.small, sound.canonical, sound.within,
    fun _ _ found => nomatch found⟩

theorem Sound.of_slab {slab : PageSlab} (aligned : slab.size = slab.pageCount * pageSize)
    (nonempty : 0 < slab.pageCount) (small : slab.pageCount ≤ 2 ^ 32)
    (canonical : ∀ i, (slab.page i).Canonical d)
    (within : ∀ i, slab.pageCount ≤ i → slab.page i = .empty) :
    (DataCap.mk slab SortedMap.empty).Sound d :=
  ⟨aligned, nonempty, small, canonical, within, fun _ _ found => nomatch found⟩

theorem Sound.putPageIdx (sound : cap.Sound d) {p : Nat} {content : List Byte}
    (below : p < cap.pageCount) (fits : content.length ≤ pageSize) :
    ({ cap with backing := cap.backing.putPageIdx (pageContentHash d) p content } :
      DataCap).Sound d := by
  refine sound.of_backing rfl (fun i => ?_) (fun i past => ?_) <;>
    rw [PageSlab.page_putPageIdx]
  · split
    · exact canonical_contentSlot d fits
    · exact sound.canonical i
  · rw [if_neg (by omega), sound.within i past]

theorem Sound.placeShared (sound : cap.Sound d) {dstOff : Nat} {src : DataCap}
    (canonical : ∀ i < src.pageCount, (src.pageSlot i).Canonical d) :
    (cap.placeShared dstOff src).Sound d := by
  refine sound.of_backing rfl (fun i => ?_) (fun i past => ?_)
  · have page := page_placeShared cap dstOff src i
    simp only [DataCap.placeShared] at page
    rw [page]
    split
    · next shared => exact canonical _ shared.2.1
    · exact sound.canonical i
  · have page := page_placeShared cap dstOff src i
    simp only [DataCap.placeShared] at page
    rw [page, if_neg (by omega), sound.within i past]

/-- Flushing keeps the invariant, the size and every byte. -/
theorem Sound.flush (sound : cap.Sound d) :
    ∃ slab, cap.flush (pageContentHash d) = some ⟨slab, SortedMap.empty⟩ ∧
      (DataCap.mk slab SortedMap.empty).Sound d ∧ slab.size = cap.backing.size ∧
      ∀ a < 2 ^ 44, (DataCap.mk slab SortedMap.empty).byteAt a = cap.byteAt a := by
  have present : ∀ e ∈ cap.overlay.entries, ∀ elided, e.2 ≠ .missing elided := by
    intro e member elided is
    have fits := (sound.overlay e.1 e.2 (SortedMap.lookup_eq_some.mpr member)).2
    rw [is] at fits
    exact fits
  obtain ⟨slab, flushed, size, covered, kept⟩ := exists_flush (pageContentHash d) present
  have count : slab.pageCount = cap.pageCount := congrArg (· / pageSize) size
  refine ⟨slab, flushed, ?_, size, fun a below => ?_⟩
  · have backing : ∀ i, (slab.page i).Canonical d ∧ (cap.pageCount ≤ i → slab.page i = .empty) := by
      intro i
      -- A page either comes from the overlay or stays.
      by_cases overlaid : ∃ page, cap.overlay.lookup i = some (.loaded page)
      · obtain ⟨page, found⟩ := overlaid
        obtain ⟨inside, fits⟩ := sound.overlay i _ found
        rw [covered i page found]
        exact ⟨canonical_contentSlot d fits, fun past => by omega⟩
      · rw [kept i (not_exists.mp overlaid)]
        exact ⟨sound.canonical i, sound.within i⟩
    exact (sound.of_backing size (fun i => (backing i).1) fun i => (backing i).2).clean
  · have index : a / pageSize % 2 ^ 32 = a / pageSize :=
      Nat.mod_eq_of_lt (by simp only [pageSize]; omega)
    rw [byteAt, byteAt, pageSlot_of_clean rfl, pageSlot, index]
    split
    · next page found =>
      rw [covered _ page found, byteAt_contentSlot _ _ (Nat.mod_lt _ pageSize_pos)]
      rfl
    · next elided found => exact ((sound.overlay _ _ found).2).elim
    · next other _ => rw [kept _ other]

end DataCap

/-! ## Builds -/

/-- How data came about: a new capability, and the operations on it. -/
inductive DataBuild where
  | fromBytesSized (content : List Byte) (targetSize : Nat)
  | fromSparsePages (size : Nat) (pages : List (Nat × List Byte))
  | putPage (built : DataBuild) (off : Nat) (content : List Byte)
  | writePage (built : DataBuild) (off : Nat) (content : List Byte)
  | insertOverlayPage (built : DataBuild) (p : Nat) (slot : PageSlot)
  | placeShared (built : DataBuild) (dstOff : Nat) (src : DataBuild)
  | flush (built : DataBuild)

namespace DataBuild

variable (d : Digest)

/-- The capability that was built; a flush of a missing page panics. -/
def result : DataBuild → Option DataCap
  | fromBytesSized content targetSize =>
    some (DataCap.fromBytesSized (pageContentHash d) content targetSize)
  | fromSparsePages size pages => some (DataCap.fromSparsePages (pageContentHash d) size pages)
  | putPage built off content => built.result.map (·.putPage (pageContentHash d) off content)
  | writePage built off content => built.result.map (·.writePage (pageContentHash d) off content)
  | insertOverlayPage built p slot => built.result.map (·.insertOverlayPage p slot)
  | placeShared built dstOff src => do (← built.result).placeShared dstOff (← src.result)
  | flush built => built.result.bind (·.flush (pageContentHash d))

/-- Every offset lies within the size that the capability has by then, and no page that goes in is
missing. -/
def InRange : DataBuild → Prop
  | fromBytesSized _ _ => True
  | fromSparsePages size pages =>
    ∀ e ∈ pages, e.1 < (DataCap.fromSparsePages (pageContentHash d) size []).pageCount
  | putPage built off _ => built.InRange ∧ ∀ cap ∈ built.result d, off < cap.contentLen
  | writePage built off _ => built.InRange ∧ ∀ cap ∈ built.result d, off < cap.contentLen
  | insertOverlayPage built p slot =>
    built.InRange ∧ (∀ cap ∈ built.result d, p < cap.pageCount) ∧ ∀ elided, slot ≠ .missing elided
  | placeShared built dstOff src => built.InRange ∧ src.InRange ∧ pageSize ∣ dstOff
  | flush built => built.InRange

/-- The size has page numbers of 32 bits, content for one page is no longer than a page, and every
page that is shared is canonical: hashed, and not an explicit page of zeros. -/
def SharesCanonical : DataBuild → Prop
  | fromBytesSized content targetSize => max targetSize content.length ≤ 2 ^ 44
  | fromSparsePages size pages => size ≤ 2 ^ 44 ∧ ∀ e ∈ pages, e.2.length ≤ pageSize
  | putPage built _ content => built.SharesCanonical ∧ content.length ≤ pageSize
  | writePage built _ _ => built.SharesCanonical
  | insertOverlayPage built _ slot =>
    built.SharesCanonical ∧ ∀ page, slot = .loaded page → page.bytes.length ≤ pageSize
  | placeShared built _ src =>
    built.SharesCanonical ∧ src.SharesCanonical ∧
      ∀ source ∈ src.result d, ∀ i < source.pageCount, (source.pageSlot i).Canonical d
  | flush built => built.SharesCanonical

end DataBuild

namespace DataCap

variable {d : Digest}

theorem sound_fromBytesSized {content : List Byte} {targetSize : Nat}
    (small : max targetSize content.length ≤ 2 ^ 44) :
    (fromBytesSized (pageContentHash d) content targetSize).Sound d := by
  refine Sound.of_slab ?_ ?_ ?_ (fun i => ?_) (fun i past => ?_)
  · simp only [PageSlab.fromBytesSized, PageSlab.pageCount, pageSize]
    omega
  · simp only [PageSlab.fromBytesSized, PageSlab.pageCount, pageSize]
    omega
  · simp only [PageSlab.fromBytesSized, PageSlab.pageCount, pageSize]
    omega
  · rw [PageSlab.page_fromBytesSized]
    exact canonical_contentSlot d (by rw [List.length_take]; omega)
  · have covered : content.length ≤ i * pageSize := by
      simp only [PageSlab.fromBytesSized, PageSlab.pageCount, pageSize] at past ⊢
      omega
    rw [PageSlab.page_fromBytesSized, List.drop_eq_nil_of_le covered]
    rfl

theorem sound_fromSparsePages {size : Nat} {pages : List (Nat × List Byte)} (small : size ≤ 2 ^ 44)
    (inRange : ∀ e ∈ pages, e.1 < (fromSparsePages (pageContentHash d) size []).pageCount)
    (onePage : ∀ e ∈ pages, e.2.length ≤ pageSize) :
    (fromSparsePages (pageContentHash d) size pages).Sound d := by
  have start : (fromSparsePages (pageContentHash d) size []).Sound d := by
    refine Sound.of_slab ?_ ?_ ?_ (fun i => trivial) (fun i past => rfl) <;>
    · simp only [PageSlab.fromSparsePages, List.foldl_nil, PageSlab.pageCount, pageSize]
      omega
  -- The first page keeps the invariant and the size, so that the others still fit.
  have step : ∀ slab : PageSlab, (DataCap.mk slab SortedMap.empty).Sound d →
      (∀ e ∈ pages, e.1 < slab.pageCount) →
      (DataCap.mk (pages.foldl (fun slab e => slab.putPageIdx (pageContentHash d) e.1 e.2) slab)
        SortedMap.empty).Sound d := by
    clear inRange start
    induction pages with
    | nil => exact fun _ sound _ => sound
    | cons e rest ih =>
      intro slab sound below
      exact ih (fun e' member => onePage e' (List.mem_cons_of_mem _ member)) _
        (sound.putPageIdx (below e (List.mem_cons_self ..)) (onePage e (List.mem_cons_self ..)))
        fun e' member => below e' (List.mem_cons_of_mem _ member)
  exact step _ start inRange

end DataCap

/-- Every step of a build keeps the invariant. -/
theorem DataBuild.sound {d : Digest} {b : DataBuild} (inRange : b.InRange d)
    (shares : b.SharesCanonical d) : ∃ cap, b.result d = some cap ∧ cap.Sound d := by
  induction b with
  | fromBytesSized content targetSize => exact ⟨_, rfl, DataCap.sound_fromBytesSized shares⟩
  | fromSparsePages size pages =>
    exact ⟨_, rfl, DataCap.sound_fromSparsePages shares.1 inRange shares.2⟩
  | putPage built off content ih =>
    obtain ⟨cap, is, sound⟩ := ih inRange.1 shares.1
    have below : off / pageSize < cap.pageCount :=
      (Nat.div_lt_iff_lt_mul pageSize_pos).mpr (sound.aligned ▸ inRange.2 cap is)
    exact ⟨_, by rw [result, is]; rfl, sound.putPageIdx below shares.2⟩
  | writePage built off content ih =>
    obtain ⟨cap, is, sound⟩ := ih inRange.1 shares
    have below : off / pageSize < cap.pageCount :=
      (Nat.div_lt_iff_lt_mul pageSize_pos).mpr (sound.aligned ▸ inRange.2 cap is)
    have index : off / pageSize % 2 ^ 32 = off / pageSize :=
      Nat.mod_eq_of_lt (lt_of_lt_of_le below sound.small)
    refine ⟨_, by rw [result, is]; rfl, sound.insert (index ▸ below) ?_⟩
    exact Nat.le_of_eq (length_pageArray content)
  | insertOverlayPage built p slot ih =>
    obtain ⟨cap, is, sound⟩ := ih inRange.1 shares.1
    refine ⟨_, by rw [result, is]; rfl, sound.insert (inRange.2.1 cap is) ?_⟩
    cases slot with
    | empty => trivial
    | loaded page => exact shares.2 page rfl
    | missing elided => exact inRange.2.2 elided rfl
  | placeShared built dstOff src ih ihSrc =>
    obtain ⟨cap, is, sound⟩ := ih inRange.1 shares.1
    obtain ⟨source, isSource, -⟩ := ihSrc inRange.2.1 shares.2.1
    exact ⟨_, by rw [result, is, isSource]; rfl, sound.placeShared (shares.2.2 source isSource)⟩
  | flush built ih =>
    obtain ⟨cap, is, sound⟩ := ih inRange shares
    obtain ⟨slab, flushed, clean, -⟩ := sound.flush
    exact ⟨_, by rw [result, is]; exact flushed, clean⟩

/-! ## Identity -/

namespace DataCap

variable {d : Digest}

theorem Sound.root_eq {slab slab' : PageSlab} (sound : (DataCap.mk slab SortedMap.empty).Sound d)
    (sound' : (DataCap.mk slab' SortedMap.empty).Sound d) (size : slab.size = slab'.size)
    (same : ∀ a < slab.size, (DataCap.mk slab SortedMap.empty).byteAt a =
      (DataCap.mk slab' SortedMap.empty).byteAt a) :
    (DataCap.mk slab SortedMap.empty).root d.hasher =
      (DataCap.mk slab' SortedMap.empty).root d.hasher := by
  have count : slab.pageCount = slab'.pageCount := congrArg (· / pageSize) size
  have pages : ∀ i < slab.pageCount, slab.page i = slab'.page i := by
    intro i below
    refine (sound.canonical i).ext (sound'.canonical i) fun j offset => ?_
    -- The address of the byte is on the page.
    have address : pageSize * i + j < slab.size := by
      have aligned : slab.size = slab.pageCount * pageSize := sound.aligned
      have : pageSize * (i + 1) ≤ slab.pageCount * pageSize := by
        rw [Nat.mul_comm]
        exact Nat.mul_le_mul_right _ below
      rw [Nat.mul_add] at this
      omega
    have read := same _ address
    rwa [byteAt, byteAt, pageSlot_of_clean rfl, pageSlot_of_clean rfl,
      Nat.mul_add_div pageSize_pos, Nat.div_eq_of_lt offset, Nat.mul_add_mod,
      Nat.mod_eq_of_lt offset, Nat.add_zero] at read
  have roots : slab.root d.hasher = slab'.root d.hasher := by
    rw [PageSlab.root, PageSlab.root, ← count]
    congr 1
    refine List.map_congr_left fun i member => ?_
    rw [pages i (List.mem_range.mp member)]
  rw [root_of_clean d.hasher rfl, root_of_clean d.hasher rfl]
  simp only [size, roots]

end DataCap

/-- Flushing succeeds and keeps every byte, and the hash is then that of the content as contiguous
bytes of the same size. -/
def DataBuild.Identified (d : Digest) (b : DataBuild) : Prop :=
  ∃ cap flushed content root, b.result d = some cap ∧
    cap.flush (pageContentHash d) = some flushed ∧
    (∀ a < 2 ^ 44, flushed.byteAt a = cap.byteAt a) ∧
    cap.copyInto 0 cap.contentLen = some content ∧
    flushed.root d.hasher = some root ∧
    (DataCap.fromBytesSized (pageContentHash d) content cap.contentLen).root d.hasher = some root

/-- As long as only canonical pages are shared, the hash of data is a function of its size and its
bytes, however it was built. -/
theorem data_identity (d : Digest) {b b' : DataBuild} (inRange : b.InRange d)
    (shares : b.SharesCanonical d) (inRange' : b'.InRange d) (shares' : b'.SharesCanonical d) :
    b.Identified d ∧
    ∀ cap ∈ b.result d, ∀ cap' ∈ b'.result d,
      cap.contentLen = cap'.contentLen → (∀ a < cap.contentLen, cap.byteAt a = cap'.byteAt a) →
      ((cap.flush (pageContentHash d)).bind fun flushed => flushed.root d.hasher) =
        (cap'.flush (pageContentHash d)).bind fun flushed => flushed.root d.hasher := by
  obtain ⟨cap, is, sound⟩ := DataBuild.sound inRange shares
  obtain ⟨slab, flushed, clean, size, bytes⟩ := sound.flush
  have small : cap.contentLen ≤ 2 ^ 44 := by
    have := sound.small
    rw [sound.aligned]
    simp only [pageSize]
    omega
  refine ⟨?_, fun c isC c' isC' sameSize same => ?_⟩
  · obtain ⟨content, read, length, contentBytes⟩ :=
      DataCap.exists_copyFrom sound.present 0 cap.contentLen (le_refl cap.contentLen)
    have contiguous : (DataCap.fromBytesSized (pageContentHash d) content cap.contentLen).Sound d :=
      DataCap.sound_fromBytesSized (by omega)
    have nonempty := sound.nonempty
    have aligned := sound.aligned
    have contiguousSize : (PageSlab.fromBytesSized (pageContentHash d) content
        cap.contentLen).size = slab.size := by
      rw [size]
      change _ = cap.contentLen
      simp only [PageSlab.fromBytesSized, length]
      simp only [pageSize] at aligned ⊢
      omega
    obtain ⟨root, isRoot⟩ : ∃ root, (DataCap.mk slab SortedMap.empty).root d.hasher = some root :=
      ⟨_, DataCap.root_of_clean d.hasher rfl⟩
    refine ⟨cap, _, content, root, is, flushed, bytes, read, isRoot, ?_⟩
    rw [← isRoot]
    refine contiguous.root_eq clean contiguousSize fun a below => ?_
    have inside : a < cap.contentLen := by
      rw [contiguousSize, size] at below
      exact below
    have effective := contentBytes a inside
    rw [Nat.zero_add] at effective
    rw [bytes a (by omega), effective]
    exact DataCap.byteAt_fromBytesSized _ _ _ _
  · obtain ⟨cap', is', sound'⟩ := DataBuild.sound inRange' shares'
    obtain ⟨slab', flushed', clean', size', bytes'⟩ := sound'.flush
    cases is.symm.trans isC
    cases is'.symm.trans isC'
    rw [flushed, flushed']
    refine clean.root_eq clean' (by rw [size, size']; exact sameSize) fun a below => ?_
    have inside : a < cap.contentLen := by rwa [size] at below
    rw [bytes a (by omega), bytes' a (by omega), same a inside]

/-- A digest that keeps the right half of a pair; enough to tell these pages apart. -/
def rightDigest : Digest := fun bytes =>
  ⟨(((bytes.drop 32).headD 0 + 1) :: ((bytes.drop 33) ++ List.replicate 32 0)).take 32, by simp⟩

def zeroPage : DataBuild := .fromBytesSized [] 1

theorem data_identity_written :
    (DataBuild.writePage zeroPage 0 [1]).InRange rightDigest ∧
    (DataBuild.writePage zeroPage 0 [1]).SharesCanonical rightDigest ∧
    (DataBuild.fromBytesSized [1] 1).SharesCanonical rightDigest ∧
    (DataBuild.writePage zeroPage 0 [1]).Identified rightDigest :=
  have inRange : (DataBuild.writePage zeroPage 0 [1]).InRange rightDigest :=
    ⟨trivial, fun cap is => by cases is; decide⟩
  have shares : (DataBuild.writePage zeroPage 0 [1]).SharesCanonical rightDigest :=
    show max 1 ([] : List Byte).length ≤ 2 ^ 44 by decide
  have inRange' : (DataBuild.fromBytesSized [1] 1).InRange rightDigest := trivial
  have shares' : (DataBuild.fromBytesSized [1] 1).SharesCanonical rightDigest :=
    show max 1 ([1] : List Byte).length ≤ 2 ^ 44 by decide
  ⟨inRange, shares, shares', (data_identity rightDigest inRange shares inRange' shares').1⟩

/-- The page of zeros is written in one capability and shared with another, where it stays a stored
page that has a hash. -/
def sharedZeros : DataBuild := .placeShared zeroPage 0 (.writePage zeroPage 0 [])

theorem root_of_onePage (d : Digest) {cap : DataCap} (clean : cap.overlay.entries = [])
    (one : cap.backing.pageCount = 1) : cap.root d.hasher =
      some (hashPair d (uintRoot d.hasher 8 cap.backing.size) (cap.backing.page 0).root) := by
  have root : cap.backing.root d.hasher = (cap.backing.page 0).root := by
    rw [PageSlab.root, one]
    rfl
  rw [DataCap.root_of_clean d.hasher clean, root]
  rfl

theorem pageContentHash_nil (d : Digest) : pageContentHash d [] = Ssz.zeroHash d.hasher 7 := by
  have zeros : pageArray [] = List.replicate (32 * 128) 0 := rfl
  have chunks : (List.replicate 128 zeroChunk).map d.hasher.chunk = List.replicate 128 zeroChunk :=
    List.map_id _
  rw [pageContentHash, zeros, bytesRoot, packBytes_zeros, chunks, merkleize_eq_root,
    List.length_replicate, List.length_replicate, Ssz.zeroHash, ← Merkle.root_const]
  refine Merkle.root_congr _ fun i below => ?_
  exact List.getD_replicate _ below

theorem result_sharedZeros (d : Digest) :
    ∃ cap, sharedZeros.result d = some cap ∧ cap.overlay.entries = [] ∧
      cap.backing.size = pageSize ∧
      ∀ i, cap.backing.page i =
        if i = 0 then .loaded (.fromContent (pageContentHash d) []) else .empty := by
  refine ⟨_, rfl, rfl, rfl, fun i => ?_⟩
  have one : (DataCap.fromBytesSized (pageContentHash d) [] 1).pageCount = 1 := by
    simp [DataCap.pageCount, PageSlab.pageCount, DataCap.fromBytesSized, PageSlab.fromBytesSized,
      pageSize]
  rw [DataCap.page_placeShared]
  change (if 0 ≤ i ∧ i < (DataCap.fromBytesSized _ [] 1).pageCount ∧
    i < (DataCap.fromBytesSized _ [] 1).pageCount then _ else
    (DataCap.fromBytesSized (pageContentHash d) [] 1).backing.page i) = _
  rw [one]
  by_cases first : i = 0
  · subst first
    rfl
  · rw [if_neg (by omega), if_neg first, DataCap.fromBytesSized, PageSlab.page_fromBytesSized]
    simp [PageSlab.contentSlot]

theorem data_identity_fails :
    sharedZeros.InRange rightDigest ∧ ¬ sharedZeros.Identified rightDigest := by
  refine ⟨⟨trivial, ⟨trivial, fun cap is => by cases is; decide⟩, by decide⟩, ?_⟩
  rintro ⟨cap, flushed, content, root, is, clean, -, read, hashed, contiguous⟩
  obtain ⟨cap', is', entries, size, page⟩ := result_sharedZeros rightDigest
  cases is.symm.trans is'
  rw [DataCap.flush, if_pos entries] at clean
  cases clean
  have slot (k : Nat) (below : k < pageSize) : cap.pageSlot (k / pageSize) =
      .loaded (.fromContent (pageContentHash rightDigest) []) := by
    rw [DataCap.pageSlot_of_clean entries, Nat.div_eq_of_lt below, page, if_pos rfl]
  -- Its bytes are zero, so content that is read from it has no page to store.
  have present : cap.Present := by
    intro i elided
    rw [DataCap.pageSlot_of_clean entries, page]
    split <;> simp
  obtain ⟨bytes, reads, length, same⟩ := DataCap.exists_copyFrom present 0 cap.contentLen le_rfl
  cases read.symm.trans reads
  have zeros : ∀ b ∈ content, b = 0 := by
    intro b member
    obtain ⟨k, inside, rfl⟩ := List.mem_iff_getElem.mp member
    have below : k < pageSize := by
      rw [length, DataCap.contentLen, size] at inside
      exact inside
    have byte := same k (length ▸ inside)
    rw [Nat.zero_add, DataCap.byteAt, slot k below, PageSlot.byteAt,
      List.getD_eq_getElem _ _ inside] at byte
    rw [← Option.some.inj byte, PageBytes.fromContent, List.take_nil, List.nil_append,
      List.getD_replicate _ (by simpa using Nat.mod_lt k pageSize_pos)]
  have elided : (DataCap.fromBytesSized (pageContentHash rightDigest) content
      cap.contentLen).backing.page 0 = .empty := by
    rw [DataCap.fromBytesSized, PageSlab.page_fromBytesSized, PageSlab.contentSlot, if_pos]
    simp only [List.all_eq_true, decide_eq_true_eq]
    exact fun b member => zeros b (List.mem_of_mem_drop (List.mem_of_mem_take member))
  rw [root_of_onePage _ entries (by rw [PageSlab.pageCount, size]; rfl), page, if_pos rfl,
    PageSlot.root, PageBytes.fromContent, pageContentHash_nil, size] at hashed
  have size' : (DataCap.fromBytesSized (pageContentHash rightDigest) content
      cap.contentLen).backing.size = pageSize := by
    rw [DataCap.fromBytesSized, PageSlab.fromBytesSized, length, DataCap.contentLen, size]
    rfl
  rw [root_of_onePage _ rfl (by rw [PageSlab.pageCount, size']; rfl), elided, size'] at contiguous
  have different : hashPair rightDigest (uintRoot rightDigest.hasher 8 pageSize)
      (Ssz.zeroHash rightDigest.hasher 7) ≠
      hashPair rightDigest (uintRoot rightDigest.hasher 8 pageSize) zeroHash := by
    decide +kernel
  exact different (Option.some.inj (hashed.trans contiguous.symm))

end Jar.Javm
