import Jar.Cap.Data
import Jar.Ssz.Collections
import Jar.Exec.Regs
import Jar.Program.Blob

/-! The capability graph: instances, images, data and the slot maps that hold them. -/

namespace Jar.Javm

open Ssz
open scoped Word

/-- A byte string that names a slot, a meter or a quota. -/
abbrev Key := List Byte

instance lawfulBEq_key : LawfulBEq Key := inferInstance

def Key.ofByte (b : Byte) : Key := [b]

def Key.ofReg (r : Word64) : Key := [r.setWidth 8]

/-- The registers that an instance keeps. -/
abbrev numRegs : Nat := 13

/-- The persistent register file. -/
abbrev RegFile := Fin numRegs → Word64

/-- A capability by its hash, or held inline. -/
inductive CapHashOrRef (O : Type) where
  | hash (hash : CapHash)
  | owned (cap : O)

/-- Slots by their keys, in ascending order. -/
structure CNodeCap (O : Type) where
  slots : List (Key × MissingOr (CapHashOrRef O))

namespace CNodeCap

variable {O : Type}

def empty : CNodeCap O := ⟨[]⟩

def entry (cnode : CNodeCap O) (key : Key) : Option (MissingOr (CapHashOrRef O)) :=
  (cnode.slots.find? fun e => e.1 = key).map (·.2)

def insert (cnode : CNodeCap O) (key : Key) (value : MissingOr (CapHashOrRef O)) : CNodeCap O :=
  ⟨SortedMap.insertEntry key value cnode.slots⟩

def remove (cnode : CNodeCap O) (key : Key) : CNodeCap O := ⟨cnode.slots.filter fun e => e.1 ≠ key⟩

/-- The capability in a slot, which a placeholder is not. -/
def peekKey (cnode : CNodeCap O) (key : Key) : Option (CapHashOrRef O) :=
  match cnode.entry key with
  | some (.materialized target) => some target
  | _ => none

/-- Put a capability into a slot, or clear it. -/
def setKey (cnode : CNodeCap O) (key : Key) : Option (CapHashOrRef O) → CNodeCap O
  | some target => cnode.insert key (.materialized target)
  | none => cnode.remove key

/-- Move the capability out of a slot. -/
def takeKey (cnode : CNodeCap O) (key : Key) : Option (CapHashOrRef O) × CNodeCap O :=
  (cnode.peekKey key, cnode.setKey key none)

end CNodeCap

/-- Where an endpoint starts, and with which registers. -/
structure EndpointDef where
  entryPc : BitVec 64
  stackTop : Word64
  argCnodeSlot : Key
  argCnodeSize : Byte
  initialRegs : RegFile

/-- A mapped region and the path of slots to its content. -/
structure MemoryMapping where
  start : Nat
  size : Nat
  source : List Key

/-- A slot and the hash of the capability in it. -/
structure ImageSlotEntry where
  slot : Key
  capHash : CapHash

/-- An image: code, endpoints, mappings and slots. -/
structure ImageCap where
  code : List Byte
  endpoints : List (Key × EndpointDef)
  mappings : List MemoryMapping
  pinned : List ImageSlotEntry
  initial : List ImageSlotEntry
  yieldReceiverSlot : Option Key
  gasSlots : List Key
  quotaSlots : List Key

def codeBase : Nat := 0x00400000

namespace ImageCap

/-- The code region with its base, absent without code. -/
def codeMapping (img : ImageCap) : Option (Nat × List Byte) :=
  if img.code = [] then none else some (codeBase, img.code)

/-- Whether the mapping at an address draws from a pinned slot. -/
def mappingIsPinned (img : ImageCap) (start : Nat) : Bool :=
  img.mappings.any fun m => m.start % 2 ^ 32 = start ∧
    m.source.head?.any fun root => img.pinned.any fun p => p.slot = root

end ImageCap

/-- An instance: its image, slots, memory and registers. -/
structure InstanceCap (O : Type) where
  imageHashChain : CapHash
  imageHash : CapHash
  rootCnode : CapHashOrRef O
  mem : DataCap
  regs : RegFile
  pc : BitVec 64
  gasRemaining : BitVec 64

/-- The kinds of capabilities. -/
inductive Cap where
  | inst (inst : InstanceCap Cap)
  | image (image : ImageCap)
  | data (data : DataCap)
  | cnode (cnode : CNodeCap Cap)

/-- The hash that stands for no capability. -/
def zeroHash : CapHash := ⟨List.replicate 32 0, length_zeroChunk⟩

end Jar.Javm
