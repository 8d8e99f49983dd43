import Jar.Exec.GasCost

/-! Guest memory with per-page permissions and first-touch materialization charges. -/

namespace Jar

def pageSize : Nat := 4096

/-- The permission of a page. -/
inductive Perm where
  | none | ro | rw
  deriving DecidableEq, Repr

/-- The materialization state of a page. -/
inductive PageState where
  | notPresent | presentRo | presentRw
  deriving DecidableEq, Repr

/-- The static backing of a page. -/
inductive PageKind where
  | pinnedCapRo | unpinnedCapCow | ephemeralZero
  deriving DecidableEq, Repr

/-- The charge and next state of a page under an access, absent on a hard fault. -/
def chargeFor (state : PageState) (kind : PageKind) (isWrite : Bool) :
    Option (Nat × PageState) :=
  if isWrite ∧ kind = .pinnedCapRo then none else
  match state, isWrite with
  | .notPresent, false => some (0, .presentRo)
  | .notPresent, true => some (cowCost, .presentRw)
  | .presentRo, true => some (cowCost, .presentRw)
  | .presentRo, false => some (0, .presentRo)
  | .presentRw, _ => some (0, .presentRw)

/-- The page-aligned addresses that an access touches, the base page first. -/
def accessPages (addr : BitVec 32) (width : Nat) : List (BitVec 32) :=
  let base := addr &&& ~~~0xFFF#32
  let off := (addr &&& 0xFFF#32).toNat
  -- The access straddles when its last byte lands in the next page.
  if pageSize < off + width then [base, base + 0x1000#32] else [base]

/-- The flat guest memory, with vectors read as functions of their index. -/
structure CopyingMemory where
  /-- The guest address of the first byte of the buffer. -/
  base : BitVec 32
  flatLen : Nat
  flatMem : Nat → Byte
  /-- The permission of each page, `none` past the end. -/
  perms : Nat → Perm
  /-- The materialization state of each page. -/
  matState : Nat → PageState
  /-- The guest address of the read-only code region. -/
  codeBase : BitVec 32
  /-- The exclusive page-rounded top of the code region. -/
  codeTop : BitVec 32

/-- The permission that a region is mapped with. -/
inductive Access where
  | readOnly | readWrite
  deriving DecidableEq, Repr

def Access.perm : Access → Perm
  | .readOnly => .ro
  | .readWrite => .rw

/-- Why a region is not mapped. -/
inductive MapError where
  | unalignedStart (start : Nat)
  | unalignedSize (size : Nat)
  | overflow
  deriving DecidableEq, Repr

namespace CopyingMemory

/-- Memory without pages, whose buffer starts at an address. -/
def new (base : BitVec 32) : CopyingMemory where
  base
  flatLen := 0
  flatMem _ := 0
  perms _ := .none
  matState _ := .notPresent
  codeBase := 0
  codeTop := 0

/-- Map a region: the buffer grows to its end, its pages get the permission, and it starts with
the initial bytes. -/
def mapRegion (mem : CopyingMemory) (start size : Nat) (access : Access)
    (init : Option (List Byte)) : Except MapError CopyingMemory :=
  if start % pageSize ≠ 0 then .error (.unalignedStart start)
  else if size % pageSize ≠ 0 then .error (.unalignedSize size)
  else if start < mem.base.toNat then .error (.unalignedStart start)
  else
    let relStart := start - mem.base.toNat
    let relEnd := relStart + size
    if 2 ^ 64 ≤ relEnd then .error .overflow
    else
      let bytes := (init.getD []).take size
      .ok { mem with
        flatLen := max mem.flatLen relEnd
        flatMem := fun i =>
          if relStart ≤ i ∧ i < relStart + bytes.length then bytes.getD (i - relStart) 0
          else if mem.flatLen ≤ i then 0 else mem.flatMem i
        perms := fun p =>
          if 0 < size ∧ relStart / pageSize ≤ p ∧ p ≤ relEnd / pageSize - 1 then access.perm
          else mem.perms p }

/-- Declare the code region, rounded up to whole pages; a length that overflows panics. -/
def setCodeRegion (mem : CopyingMemory) (codeBase : BitVec 32) (codeLen : Nat) :
    Option CopyingMemory :=
  let rounded := (codeLen + (pageSize - 1)) / pageSize * pageSize
  if 2 ^ 32 ≤ rounded then none
  else some { mem with
    codeBase
    codeTop := BitVec.ofNat 32 (min (codeBase.toNat + rounded) (2 ^ 32 - 1)) }

/-- The buffer offset of an address, which wraps below the base. -/
def off (mem : CopyingMemory) (addr : BitVec 32) : Nat := (addr - mem.base).toNat

/-- Whether a page lies in the declared code region. -/
def isCodePage (mem : CopyingMemory) (page : BitVec 32) : Bool :=
  decide (mem.codeBase < mem.codeTop) && decide (mem.codeBase ≤ page)
    && decide (page < mem.codeTop)

/-- The permission of the page that contains an address. -/
def permOf (mem : CopyingMemory) (addr : BitVec 32) : Perm :=
  mem.perms (mem.off addr / pageSize)

/-- The index of a page, absent outside the buffer. -/
def pageIndex (mem : CopyingMemory) (page : BitVec 32) : Option Nat :=
  if mem.off page < mem.flatLen then some (mem.off page / pageSize) else none

/-- Whether a page may be accessed, which decides a touch before anything is charged. -/
def accessible (mem : CopyingMemory) (isWrite : Bool) (page : BitVec 32) : Bool :=
  match mem.pageIndex page with
  | some i => mem.perms i != .none && !(isWrite && mem.perms i != .rw)
  | none => false

/-- Materialize one page, returning its charge. -/
def materialize (mem : CopyingMemory) (isWrite : Bool) (page : BitVec 32) :
    CopyingMemory × Nat :=
  match mem.pageIndex page with
  | some i =>
    -- Read-only pages carry no per-fault charge and keep their recorded state.
    if mem.perms i = .ro then (mem, 0) else
    match chargeFor (mem.matState i) .unpinnedCapCow isWrite with
    | some (charge, next) =>
      ({ mem with matState := Function.update mem.matState i next }, charge)
    | none => (mem, 0)
  | none => (mem, 0)

/-- Materialize pages in order, summing their charges. -/
def materializeAll (mem : CopyingMemory) (isWrite : Bool) :
    List (BitVec 32) → CopyingMemory × Nat
  | [] => (mem, 0)
  | page :: rest =>
    let (mem', charge) := mem.materialize isWrite page
    let (mem'', total) := mem'.materializeAll isWrite rest
    (mem'', charge + total)

/-- First touch of a data access: check every page, then materialize every page. -/
def touchData (mem : CopyingMemory) (pages : List (BitVec 32)) (isWrite : Bool) :
    Option (CopyingMemory × Nat) :=
  if pages.all (mem.accessible isWrite) then some (mem.materializeAll isWrite pages) else none

/-- First touch of a code access, which is free for reads and faults for writes. -/
def touchCode (mem : CopyingMemory) (pages : List (BitVec 32)) (isWrite : Bool) : Bool :=
  !isWrite && pages.all mem.isCodePage

/-- First touch of an access: the memory after it and its charge, absent on a fault. -/
def touch (mem : CopyingMemory) (addr : BitVec 32) (width : Nat) (isWrite : Bool) :
    Option (CopyingMemory × Nat) :=
  let pages := accessPages addr width
  let basePage := addr &&& ~~~0xFFF#32
  -- The base page decides the region of the whole access.
  if (mem.pageIndex basePage).any (fun i => mem.perms i != .none) then
    mem.touchData pages isWrite
  else if mem.isCodePage basePage then
    if mem.touchCode pages isWrite then some (mem, 0) else none
  else some (mem, 0)

def leValue (bytes : Nat → Byte) (at_ : Nat) : Nat → Word64
  | 0 => 0
  | width + 1 => (leValue bytes (at_ + 1) width <<< 8) ||| (bytes at_).zeroExtend 64

/-- Read a little-endian value from the buffer. -/
def readLe (mem : CopyingMemory) (addr : BitVec 32) (width : Nat) : Option Word64 :=
  if mem.off addr + width ≤ mem.flatLen then some (leValue mem.flatMem (mem.off addr) width)
  else none

def writeLe (mem : CopyingMemory) (addr : BitVec 32) (width : Nat) (value : Word64) :
    Option CopyingMemory :=
  let a := mem.off addr
  if a + width ≤ mem.flatLen then
    some { mem with
      flatMem := fun i =>
        if a ≤ i ∧ i < a + width then (value >>> (8 * (i - a))).setWidth 8 else mem.flatMem i }
  else none

end CopyingMemory

end Jar
