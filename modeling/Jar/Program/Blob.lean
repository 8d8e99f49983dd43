import Jar.Exec.Memory
import Jar.Exec.Predecode
import Jar.Lib.SortedMap
import Jar.Lib.Word

/-! Program blobs and the placement of their data regions. -/

namespace Jar

open scoped Word

def dataBase : Nat := 0x10000000

def addressSpaceEnd : Nat := 2 ^ 32

/-! ## Regions -/

/-- The four data regions, in address order. -/
inductive RegionKind where
  | stack
  | ro
  | rw
  | heap
  deriving DecidableEq, Repr

/-- One data region's placement, in pages of the guest address space. -/
structure Region where
  kind : RegionKind
  basePage : BitVec 32
  pageCount : BitVec 32
  deriving DecidableEq, Repr

/-- Guest address of the first byte. -/
def Region.start (region : Region) : Nat := region.basePage.toNat * pageSize

def Region.size (region : Region) : Nat := region.pageCount.toNat * pageSize

/-- The page count of each region. -/
structure Regions where
  stackPages : BitVec 32
  roPages : BitVec 32
  rwPages : BitVec 32
  heapPages : BitVec 32
  deriving DecidableEq, Repr

namespace Regions

/-- The page counts in address order. -/
def counts (regions : Regions) : List (RegionKind × BitVec 32) :=
  [(.stack, regions.stackPages), (.ro, regions.roPages), (.rw, regions.rwPages),
    (.heap, regions.heapPages)]

/-- Place the regions that have pages one after the other; the page number wraps. -/
def place : BitVec 32 → List (RegionKind × BitVec 32) → List Region
  | _, [] => []
  | nextPage, (kind, pageCount) :: rest =>
    if pageCount = 0 then place nextPage rest
    else ⟨kind, nextPage, pageCount⟩ :: place (nextPage + pageCount) rest

/-- Every region that has pages, in address order. -/
def iter (regions : Regions) : List Region :=
  place (BitVec.ofNat 32 (dataBase / pageSize)) regions.counts

def totalPages (regions : Regions) : BitVec 32 :=
  regions.stackPages + regions.roPages + regions.rwPages + regions.heapPages

def dataExtent (regions : Regions) : Nat := regions.totalPages.toNat * pageSize

def dataEnd (regions : Regions) : Nat := dataBase + regions.dataExtent

def pageSum (regions : Regions) : Nat := (regions.counts.map (·.2.toNat)).sum

end Regions

/-! ## Blobs -/

/-- An exported entry point. -/
structure Endpoint where
  entryPc : BitVec 64
  argRegisters : Byte
  argMeta : Byte
  /-- Register overrides applied before entry. -/
  initialRegs : SortedMap Byte (BitVec 64)
  deriving DecidableEq

/-- Code, region geometry with initial contents, and entry points. -/
structure ProgramBlob where
  code : List Byte
  regions : Regions
  roData : List Byte
  rwData : List Byte
  endpoints : SortedMap Byte Endpoint
  deriving DecidableEq

/-- Why a blob is not well formed. -/
inductive InvalidProgram where
  | codeTooLarge (len : Nat)
  | dataOutOfRange (dataEnd : Nat)
  | regionLengthMismatch (kind : RegionKind) (expected actual : Nat)
  | noEndpoints
  deriving DecidableEq, Repr

namespace ProgramBlob

/-- Backing bytes of a region must fill its pages. -/
def validateRegion (kind : RegionKind) (data : List Byte) (pages : BitVec 32) :
    Except InvalidProgram Unit :=
  let expected := pages.toNat * pageSize
  if data.length ≠ expected then .error (.regionLengthMismatch kind expected data.length)
  else .ok ()

def validate (blob : ProgramBlob) : Except InvalidProgram Unit :=
  if maxCodeSize < blob.code.length then .error (.codeTooLarge blob.code.length)
  else if addressSpaceEnd < blob.regions.dataEnd then
    .error (.dataOutOfRange blob.regions.dataEnd)
  else do
    validateRegion .ro blob.roData blob.regions.roPages
    validateRegion .rw blob.rwData blob.regions.rwPages
    if blob.endpoints.entries.isEmpty then .error .noEndpoints else .ok ()

/-- The backing bytes of a region; stack and heap have none. -/
def regionData (blob : ProgramBlob) : RegionKind → Option (List Byte)
  | .ro => some blob.roData
  | .rw => some blob.rwData
  | .stack => none
  | .heap => none

/-- Copy bytes to a place in the image; a slice out of range panics. -/
def copyAt (image : List Byte) (off : Nat) (data : List Byte) : Option (List Byte) :=
  let stop := (off + data.length) % 2 ^ 64
  if off ≤ stop ∧ stop ≤ image.length then some (image.take off ++ data ++ image.drop stop)
  else none

/-- Offset of a region in the image, in 64-bit arithmetic. -/
def imageOffset (region : Region) : Nat := (region.start + (2 ^ 64 - dataBase)) % 2 ^ 64

def copyRegion (blob : ProgramBlob) (image : List Byte) (region : Region) : Option (List Byte) :=
  match blob.regionData region.kind with
  | none => some image
  | some data => copyAt image (imageOffset region) data

/-- The flat data image that a runtime maps at the data base. -/
def memoryImage (blob : ProgramBlob) : Option (List Byte) :=
  blob.regions.iter.foldlM blob.copyRegion (List.replicate blob.regions.dataExtent 0)

end ProgramBlob

end Jar
