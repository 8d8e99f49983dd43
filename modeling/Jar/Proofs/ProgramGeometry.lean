import Jar.Proofs.ProgramCodec

/-! Where the data regions of an accepted program lie, and what the memory image holds. -/

namespace Jar

open Cursor
open scoped Word

/-! ## Placement -/

namespace Regions

theorem mem_place {base : BitVec 32} {counts : List (RegionKind × BitVec 32)} {region : Region}
    (placed : region ∈ place base counts) : (region.kind, region.pageCount) ∈ counts := by
  induction counts generalizing base with
  | nil => cases placed
  | cons count rest ih =>
    unfold place at placed
    split at placed
    · exact List.mem_cons_of_mem _ (ih placed)
    · rcases List.mem_cons.mp placed with rfl | later
      · exact List.mem_cons_self
      · exact List.mem_cons_of_mem _ (ih later)

/-- Without a wrap the regions lie one after the other, from the base on. -/
theorem place_spec {base : BitVec 32} {counts : List (RegionKind × BitVec 32)}
    (room : base.toNat + (counts.map (·.2.toNat)).sum < 2 ^ 32) :
    (∀ region ∈ place base counts, base.toNat ≤ region.basePage.toNat ∧
        region.basePage.toNat + region.pageCount.toNat ≤ base.toNat + (counts.map (·.2.toNat)).sum) ∧
      (place base counts).Pairwise fun a b =>
        a.basePage.toNat + a.pageCount.toNat ≤ b.basePage.toNat := by
  induction counts generalizing base with
  | nil => exact ⟨fun _ member => (nomatch member), .nil⟩
  | cons count rest ih =>
    rw [List.map_cons, List.sum_cons] at room ⊢
    unfold place
    split
    · next empty =>
      have zero : count.2.toNat = 0 := by rw [empty]; rfl
      obtain ⟨inside, apart⟩ := @ih base (by omega)
      refine ⟨fun region member => ?_, apart⟩
      have := inside region member
      omega
    · have next : (base + count.2).toNat = base.toNat + count.2.toNat := by
        rw [BitVec.toNat_add, Nat.mod_eq_of_lt (by omega)]
      obtain ⟨inside, apart⟩ := @ih (base + count.2) (by omega)
      rw [next] at inside
      refine ⟨fun region member => ?_, List.pairwise_cons.mpr ⟨fun region later => ?_, apart⟩⟩
      · rcases List.mem_cons.mp member with rfl | later
        · exact ⟨Nat.le_refl _, Nat.add_le_add_left (Nat.le_add_right _ _) _⟩
        · have := inside region later
          omega
      · exact (inside region later).1

theorem toNat_totalPages {regions : Regions} (fits : regions.pageSum < 2 ^ 32) :
    regions.totalPages.toNat = regions.pageSum := by
  simp only [pageSum, counts, List.map_cons, List.map_nil, List.sum_cons, List.sum_nil] at fits ⊢
  simp only [totalPages, BitVec.toNat_add]
  omega

end Regions

namespace ProgramBlob

/-! ## The memory image -/

theorem getElem?_copyAt (image data : List Byte) (off : Nat)
    (fits : off + data.length ≤ image.length) (small : image.length < 2 ^ 64) :
    ∃ image', copyAt image off data = some image' ∧ image'.length = image.length ∧
      (∀ i < data.length, image'[off + i]? = data[i]?) ∧
      ∀ i, ¬(off ≤ i ∧ i < off + data.length) → image'[i]? = image[i]? := by
  have bounded : off + data.length < 2 ^ 64 := Nat.lt_of_le_of_lt fits small
  have copied : copyAt image off data =
      some (image.take off ++ data ++ image.drop (off + data.length)) := by
    unfold copyAt
    rw [Nat.mod_eq_of_lt bounded]
    exact if_pos ⟨Nat.le_add_right _ _, fits⟩
  have start : (image.take off).length = off := List.length_take_of_le (by omega)
  refine ⟨_, copied, ?_, fun i inside => ?_, fun i outside => ?_⟩
  · rw [List.length_append, List.length_append, start, List.length_drop]
    omega
  · rw [List.append_assoc, List.getElem?_append_right (by omega), start,
      Nat.add_sub_cancel_left, List.getElem?_append_left inside]
  · rcases Nat.lt_or_ge i off with before | after
    · rw [List.append_assoc, List.getElem?_append_left (by omega), List.getElem?_take_of_lt before]
    · rw [List.getElem?_append_right (by rw [List.length_append]; omega), List.length_append,
        List.getElem?_drop]
      congr 1
      omega

def covers (region : Region) (addr : Nat) : Prop :=
  region.start ≤ addr ∧ addr < region.start + region.size

/-- Every region with backing bytes has them at its addresses, and all else is as before. -/
structure Holds (blob : ProgramBlob) (regions : List Region) (before image : List Byte) : Prop where
  length : image.length = before.length
  backed : ∀ region ∈ regions, ∀ data, blob.regionData region.kind = some data →
    ∀ i < region.size, image[region.start + i - dataBase]? = data[i]?
  others : ∀ i, (∀ region ∈ regions, (blob.regionData region.kind).isSome →
    ¬covers region (dataBase + i)) → image[i]? = before[i]?

theorem imageOffset_eq {region : Region} (above : dataBase ≤ region.start)
    (below : region.start < 2 ^ 64) : imageOffset region = region.start - dataBase := by
  unfold imageOffset dataBase at *
  omega

theorem copyRegion_spec {blob : ProgramBlob} {region : Region} {image : List Byte}
    (above : dataBase ≤ region.start)
    (inside : region.start + region.size ≤ dataBase + image.length)
    (filled : ∀ data, blob.regionData region.kind = some data → data.length = region.size)
    (small : image.length < 2 ^ 63) :
    ∃ image', blob.copyRegion image region = some image' ∧ blob.Holds [region] image image' := by
  unfold copyRegion
  cases backing : blob.regionData region.kind with
  | none =>
    refine ⟨image, rfl, rfl, ?_, fun _ _ => rfl⟩
    intro other member data found
    rw [List.mem_singleton.mp member, backing] at found
    cases found
  | some data =>
    have len := filled data backing
    have base : dataBase < 2 ^ 63 := by decide
    have offset := imageOffset_eq above (by omega)
    obtain ⟨image', copied, same, inner, outer⟩ :=
      getElem?_copyAt image data (region.start - dataBase) (by omega) (by omega)
    refine ⟨image', by rw [← copied, offset], same, ?_, fun i outside => outer i ?_⟩
    · intro other member bytes found i below
      rw [List.mem_singleton.mp member] at found below ⊢
      rw [backing] at found
      cases found
      have place : region.start + i - dataBase = region.start - dataBase + i := by omega
      rw [place, inner i (by omega)]
    · have away := outside region (List.mem_singleton_self _) (by rw [backing]; rfl)
      unfold covers at away
      omega

/-- Regions that lie apart are copied one after the other without disturbing each other. -/
theorem foldlM_copyRegion {blob : ProgramBlob} {regions : List Region} {image : List Byte}
    (apart : regions.Pairwise fun a b => a.start + a.size ≤ b.start)
    (within : ∀ region ∈ regions,
      dataBase ≤ region.start ∧ region.start + region.size ≤ dataBase + image.length)
    (filled : ∀ region ∈ regions, ∀ data, blob.regionData region.kind = some data →
      data.length = region.size)
    (small : image.length < 2 ^ 63) :
    ∃ image', regions.foldlM blob.copyRegion image = some image' ∧
      blob.Holds regions image image' := by
  induction regions generalizing image with
  | nil => exact ⟨image, rfl, rfl, fun _ member => (nomatch member), fun _ _ => rfl⟩
  | cons region rest ih =>
    obtain ⟨later, apart⟩ := List.pairwise_cons.mp apart
    obtain ⟨above, inside⟩ := within region List.mem_cons_self
    obtain ⟨first, copied, holds⟩ :=
      copyRegion_spec above inside (filled region List.mem_cons_self) small
    have same := holds.length
    obtain ⟨image', ran, holdsRest⟩ := ih apart
      (fun other member => same ▸ within other (List.mem_cons_of_mem region member))
      (fun other member => filled other (List.mem_cons_of_mem region member)) (by omega)
    refine ⟨image', ?_, holdsRest.length.trans same, ?_, fun i outside => ?_⟩
    · rw [List.foldlM_cons, copied]
      exact ran
    · intro other member data found i below
      rcases List.mem_cons.mp member with rfl | member
      · rw [← holds.backed other (List.mem_singleton_self _) data found i below]
        -- The later regions start behind this one's last byte.
        refine holdsRest.others _ fun next nextMember _ covered => ?_
        have behind := later next nextMember
        unfold covers at covered
        omega
      · exact holdsRest.backed other member data found i below
    · rw [holdsRest.others i fun other member => outside other (List.mem_cons_of_mem region member)]
      refine holds.others i fun other member => ?_
      rw [List.mem_singleton.mp member]
      exact outside region List.mem_cons_self

/-! ## Accepted files -/

/-- The regions lie in the guest's data space one after the other, and the memory image holds
their backing bytes and zeros. -/
structure SoundGeometry (blob : ProgramBlob) : Prop where
  fits : dataBase + blob.regions.pageSum * pageSize ≤ addressSpaceEnd
  apart : blob.regions.iter.Pairwise fun a b => a.start + a.size ≤ b.start
  within : ∀ region ∈ blob.regions.iter,
    dataBase ≤ region.start ∧ region.start + region.size ≤ addressSpaceEnd
  image : ∃ image, blob.memoryImage = some image ∧
    blob.Holds blob.regions.iter (List.replicate (blob.regions.pageSum * pageSize) 0) image

theorem length_regionData {blob : ProgramBlob} (valid : blob.validate = .ok ()) {region : Region}
    (placed : region ∈ blob.regions.iter) {data : List Byte}
    (backing : blob.regionData region.kind = some data) : data.length = region.size := by
  obtain ⟨-, -, ro, rw', -⟩ := validate_eq_ok.mp valid
  have count := Regions.mem_place placed
  simp only [Regions.counts, List.mem_cons, Prod.mk.injEq, List.not_mem_nil, or_false] at count
  unfold Region.size
  rcases count with ⟨kind, -⟩ | ⟨kind, count⟩ | ⟨kind, count⟩ | ⟨kind, -⟩ <;>
    rw [kind] at backing <;> cases backing
  · rw [count, ro]
  · rw [count, rw']

/-- A valid blob has a sound geometry when its page counts do not wrap. -/
theorem soundGeometry_of_validate {blob : ProgramBlob} (valid : blob.validate = .ok ())
    (noWrap : blob.regions.pageSum < 2 ^ 32) : blob.SoundGeometry := by
  obtain ⟨-, fits, -, -, -⟩ := validate_eq_ok.mp valid
  have total := Regions.toNat_totalPages noWrap
  simp only [Regions.dataEnd, Regions.dataExtent, total] at fits
  have base : (BitVec.ofNat 32 (dataBase / pageSize)).toNat = 65536 := by decide
  have few : blob.regions.pageSum ≤ 983040 := by
    simp only [dataBase, pageSize, addressSpaceEnd] at fits
    omega
  have room : (BitVec.ofNat 32 (dataBase / pageSize)).toNat +
      blob.regions.pageSum < 2 ^ 32 := by
    rw [base]
    exact Nat.lt_of_le_of_lt (Nat.add_le_add_left few _) (by decide)
  obtain ⟨inside, apart⟩ := Regions.place_spec room
  rw [base] at inside
  have apartBytes : blob.regions.iter.Pairwise fun a b => a.start + a.size ≤ b.start := by
    refine apart.imp fun {a b} behind => ?_
    simp only [Region.start, Region.size, pageSize]
    omega
  have inImage : ∀ region ∈ blob.regions.iter, dataBase ≤ region.start ∧
      region.start + region.size ≤ dataBase + blob.regions.pageSum * pageSize := by
    intro region member
    obtain ⟨above, below⟩ := inside region member
    change _ ≤ 65536 + blob.regions.pageSum at below
    simp only [Region.start, Region.size, pageSize, dataBase]
    omega
  refine ⟨fits, apartBytes, fun region member => ⟨(inImage region member).1,
    Nat.le_trans (inImage region member).2 fits⟩, ?_⟩
  unfold memoryImage
  rw [Regions.dataExtent, total]
  refine foldlM_copyRegion apartBytes ?_ (fun region member data => length_regionData valid member) ?_
  · simpa only [List.length_replicate] using inImage
  · rw [List.length_replicate, pageSize]
    omega

/-- The sum of the four page counts in a file's header. -/
def headerPages (bytes : List Byte) : Nat :=
  ((List.range 4).map fun i => LittleEndian.decode ((bytes.drop (8 + 4 * i)).take 4)).sum

theorem of_readUint {buf : List Byte} {width pos pos' value : Nat}
    (ran : readUint buf width pos = .ok (value, pos')) :
    value = LittleEndian.decode ((buf.drop pos).take width) ∧ pos' = pos + width := by
  obtain ⟨bytes, _, taken, same⟩ := map_eq_ok.mp ran
  obtain ⟨-, read⟩ := take_eq_ok.mp taken
  cases same
  cases read
  exact ⟨rfl, rfl⟩

theorem of_readU32 {buf : List Byte} {pos pos' : Nat} {word : BitVec 32}
    (ran : readU32 buf pos = .ok (word, pos')) :
    word.toNat = LittleEndian.decode ((buf.drop pos).take 4) ∧ pos' = pos + 4 := by
  obtain ⟨value, _, number, same⟩ := map_eq_ok.mp ran
  obtain ⟨rfl, rfl⟩ := of_readUint number
  cases same
  have fits := LittleEndian.decode_lt ((buf.drop pos).take 4)
  have width := Nat.pow_le_pow_right (show 0 < 256 by decide)
    (List.length_take_le 4 (buf.drop pos))
  refine ⟨?_, rfl⟩
  rw [BitVec.toNat_ofNat, Nat.mod_eq_of_lt (Nat.lt_of_lt_of_le fits width)]

/-- The page counts start behind the eight bytes of magic, version and flags. -/
theorem of_readPreamble {buf : List Byte} {r : Unit × Nat}
    (ran : readPreamble buf 0 = .ok r) : r.2 = 8 := by
  obtain ⟨_, _, taken, ran⟩ := bind_eq_ok.mp ran
  obtain ⟨-, rfl, rfl⟩ := take_eq_ok.mp taken
  obtain ⟨_, _, checked, ran⟩ := bind_eq_ok.mp ran
  obtain ⟨-, same⟩ := ensure_eq_ok.mp checked
  cases same
  obtain ⟨_, _, number, ran⟩ := bind_eq_ok.mp ran
  obtain ⟨rfl, rfl⟩ := of_readUint number
  obtain ⟨_, _, checked, ran⟩ := bind_eq_ok.mp ran
  obtain ⟨-, same⟩ := ensure_eq_ok.mp checked
  cases same
  obtain ⟨_, _, number, ran⟩ := bind_eq_ok.mp ran
  obtain ⟨rfl, rfl⟩ := of_readUint number
  obtain ⟨-, same⟩ := ensure_eq_ok.mp ran
  rw [same]

theorem of_readRegions {buf : List Byte} {regions : Regions} {pos' : Nat}
    (ran : readRegions buf 8 = .ok (regions, pos')) : regions.pageSum = headerPages buf := by
  obtain ⟨_, _, stack, ran⟩ := bind_eq_ok.mp ran
  obtain ⟨stackPages, rfl⟩ := of_readU32 stack
  obtain ⟨_, _, ro, ran⟩ := bind_eq_ok.mp ran
  obtain ⟨roPages, rfl⟩ := of_readU32 ro
  obtain ⟨_, _, rw', ran⟩ := bind_eq_ok.mp ran
  obtain ⟨rwPages, rfl⟩ := of_readU32 rw'
  obtain ⟨_, _, heap, ran⟩ := bind_eq_ok.mp ran
  obtain ⟨heapPages, rfl⟩ := of_readU32 heap
  obtain ⟨rfl, -⟩ := Prod.mk.inj (pure_eq_ok.mp ran)
  simp only [Regions.pageSum, Regions.counts, List.map_cons, List.map_nil, stackPages, roPages,
    rwPages, heapPages]
  rfl

theorem pageSum_eq_headerPages {bytes : List Byte} {blob : ProgramBlob}
    (read : fromBytes bytes = .ok blob) : blob.regions.pageSum = headerPages bytes := by
  obtain ⟨ran, -⟩ := fromBytes_eq_ok.mp read
  obtain ⟨_, start, preamble, ran⟩ := bind_eq_ok.mp ran
  have eight : start = 8 := of_readPreamble preamble
  obtain ⟨regions, _, header, ran⟩ := bind_eq_ok.mp ran
  rw [eight] at header
  rw [(of_readBody ran).1, of_readRegions header]

/-- An accepted file has a sound geometry exactly when the page counts in its header do not wrap
around 32 bits. -/
theorem soundGeometry_iff {bytes : List Byte} {blob : ProgramBlob}
    (accepted : fromBytes bytes = .ok blob) :
    blob.SoundGeometry ↔ headerPages bytes < 2 ^ 32 := by
  rw [← pageSum_eq_headerPages accepted]
  constructor
  · intro sound
    have fits := sound.fits
    simp only [dataBase, pageSize, addressSpaceEnd] at fits
    omega
  · exact soundGeometry_of_validate (fromBytes_eq_ok.mp accepted).2

/-- A file with the given page counts, nothing in its regions and one endpoint. -/
def pagesFile (regions : Regions) : List Byte :=
  magic ++ LittleEndian.encode 2 version ++ LittleEndian.encode 2 0 ++ regionBytes regions ++
    [0, 0, 0, 1].flatMap (LittleEndian.encode 4) ++ List.replicate 12 0

def pagesBlob (regions : Regions) : ProgramBlob where
  code := []
  regions := regions
  roData := List.replicate (regions.roPages.toNat * pageSize) 0
  rwData := List.replicate (regions.rwPages.toNat * pageSize) 0
  endpoints := ⟨[(0, ⟨0, 0, 0, .empty⟩)], List.pairwise_singleton _ _⟩

theorem soundGeometry_stackHeap :
    fromBytes (pagesFile ⟨2, 0, 0, 1⟩) = .ok (pagesBlob ⟨2, 0, 0, 1⟩) ∧
      (pagesBlob ⟨2, 0, 0, 1⟩).SoundGeometry := by
  have accepted : fromBytes (pagesFile ⟨2, 0, 0, 1⟩) = .ok (pagesBlob ⟨2, 0, 0, 1⟩) := by
    decide +kernel
  exact ⟨accepted, (soundGeometry_iff accepted).mpr (by decide +kernel)⟩

/-- With `2 ^ 32 - 1` stack pages and one heap page the sum wraps to zero: the file is accepted,
and the heap is placed below the data base. -/
theorem soundGeometry_fails_wrapped :
    fromBytes (pagesFile ⟨0xFFFFFFFF, 0, 0, 1⟩) = .ok (pagesBlob ⟨0xFFFFFFFF, 0, 0, 1⟩) ∧
      ¬(pagesBlob ⟨0xFFFFFFFF, 0, 0, 1⟩).SoundGeometry := by
  refine ⟨by decide +kernel, fun sound => ?_⟩
  have heap : (⟨.heap, 0xFFFF, 1⟩ : Region) ∈ (pagesBlob ⟨0xFFFFFFFF, 0, 0, 1⟩).regions.iter := by
    decide +kernel
  have above := (sound.within _ heap).1
  revert above
  decide

end ProgramBlob

end Jar
