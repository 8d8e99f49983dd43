import Jar.Cap.Graph
import Jar.Lib.LittleEndian

/-! The handles that the kernel recognises by their image: gas, quota, and the two sides of a
yield. -/

namespace Jar.Javm

open Ssz
open scoped Word

/-- The hash functions of the capability layer. -/
structure Hashes where
  pageContentHash : List Byte → CapHash
  /-- The digest of type identities. -/
  blake2b256 : List Byte → CapHash
  capHash : Cap → CapHash

/-- The images that the kernel implements itself. -/
inductive KernelImage where
  | gasMeter
  | storageQuota
  | gas
  | quota
  | yieldSender
  | yieldReceiver
  | file
  | hostOpen
  | hostSave
  deriving DecidableEq, Repr

def allKernelImages : List KernelImage :=
  [.gasMeter, .storageQuota, .gas, .quota, .yieldSender, .yieldReceiver, .file, .hostOpen,
    .hostSave]

def kernelImageLabel : KernelImage → String
  | .gasMeter => "kernel:gasmeter"
  | .storageQuota => "kernel:storagequota"
  | .gas => "kernel:gas"
  | .quota => "kernel:quota"
  | .yieldSender => "kernel:yieldsender"
  | .yieldReceiver => "kernel:yieldreceiver"
  | .file => "kernel:file"
  | .hostOpen => "kernel:host_open"
  | .hostSave => "kernel:host_save"

section

variable (hashes : Hashes)

def kernelImageHash (kind : KernelImage) : CapHash :=
  hashes.blake2b256 ((kernelImageLabel kind).toList.map fun c => BitVec.ofNat 8 c.toNat)

def recognizeKernelImage (hash : CapHash) : Option KernelImage :=
  allKernelImages.find? fun kind => kernelImageHash hashes kind = hash

/-! ## Keys in registers -/

/-- The longest key that fits into a register. -/
def maxKeyLen : Nat := 8

/-- A key as a packed register and its length; a longer one panics. -/
def keyToRegs (key : Key) : Option (Word64 × Word64) :=
  if key.length ≤ maxKeyLen then
    some (BitVec.ofNat 64 (LittleEndian.decode (key ++ List.replicate (8 - key.length) 0)),
      BitVec.ofNat 64 key.length)
  else none

def keyFromRegs (packed len : Word64) : Key :=
  (LittleEndian.encode 8 packed.toNat).take (min len.toNat maxKeyLen)

def unitHandle (image : KernelImage) (key : Key) : Option (InstanceCap Cap) :=
  (keyToRegs key).map fun (packed, len) =>
    { imageHashChain := kernelImageHash hashes image
      imageHash := zeroHash
      rootCnode := .hash zeroHash
      mem := DataCap.empty
      regs := fun i => if i = 0 then packed else if i = 1 then len else 0
      pc := 0
      gasRemaining := 0 }

def unitHandleKey (image : KernelImage) (inst : InstanceCap Cap) : Option Key :=
  if recognizeKernelImage hashes inst.imageHashChain ≠ some image then none
  else some (keyFromRegs (inst.regs 0) (inst.regs 1))

def yieldSender (yieldKey : Key) : Option (InstanceCap Cap) :=
  unitHandle hashes .yieldSender yieldKey

def yieldSenderKey (inst : InstanceCap Cap) : Option Key :=
  unitHandleKey hashes .yieldSender inst

def gasHandle (meterKey : Key) : Option (InstanceCap Cap) := unitHandle hashes .gas meterKey

def gasMeterKey (inst : InstanceCap Cap) : Option Key := unitHandleKey hashes .gas inst

def quotaHandle (quotaKey : Key) : Option (InstanceCap Cap) := unitHandle hashes .quota quotaKey

/-! ## Catch-sets -/

/-- Keys in ascending order, each once. -/
def normalizeKeys (keys : List Key) : List Key :=
  (keys.foldl (fun set key => SortedMap.insertEntry key () set) []).map (·.1)

/-- The right to catch a set of keys, which its memory holds. -/
def yieldReceiver (keys : List Key) : InstanceCap Cap :=
  let set := normalizeKeys keys
  let bytes := LittleEndian.encode 2 (set.length % 2 ^ 16) ++
    set.flatMap fun k => BitVec.ofNat 8 k.length :: k
  { imageHashChain := kernelImageHash hashes .yieldReceiver
    imageHash := zeroHash
    rootCnode := .hash zeroHash
    mem := DataCap.fromBytes hashes.pageContentHash bytes
    regs := fun _ => 0
    pc := 0
    gasRemaining := 0 }

/-- Read up to `count` keys, each behind its length. -/
def readKeys : (count : Nat) → (buf : List Byte) → List Key
  | 0, _ => []
  | _ + 1, [] => []
  | count + 1, klen :: buf =>
    if buf.length < klen.toNat then []
    else buf.take klen.toNat :: readKeys count (buf.drop klen.toNat)

/-- The keys that a receiver catches, if it is one; a missing page panics. -/
def yieldReceiverKeys (inst : InstanceCap Cap) : Option (Option (List Key)) :=
  if recognizeKernelImage hashes inst.imageHashChain ≠ some .yieldReceiver then some none
  else
    let len := inst.mem.contentLen
    if len < 2 then some (some [])
    else (inst.mem.copyInto 0 len).map fun buf =>
      some (readKeys (LittleEndian.decode (buf.take 2)) (buf.drop 2))

/-- The receiver of the keys of two; a missing page panics. -/
def mergeYieldReceivers (a b : InstanceCap Cap) : Option (Option (InstanceCap Cap)) := do
  match ← yieldReceiverKeys hashes a with
  | none => return none
  | some keys =>
    match ← yieldReceiverKeys hashes b with
    | none => return none
    | some keys' => return some (yieldReceiver hashes (keys ++ keys'))

end

/-! ## Yield keys of the kernel -/

/-- The first byte of the keys that are system calls. -/
def kernelYieldNs : Byte := 0xCE

def ykMintYield : Key := [kernelYieldNs, 0x01]

def ykMergeYieldReceiver : Key := [kernelYieldNs, 0x02]

def ykSetGasMeter : Key := [kernelYieldNs, 0x03]

def ykMintGas : Key := [kernelYieldNs, 0x04]

def ykMintQuota : Key := [kernelYieldNs, 0x06]

/-- Sent by the kernel when a frame runs out of gas. -/
def ykOog : Key := [kernelYieldNs, 0x10]

/-- Whether a key is a system call. -/
def isKernelYieldKey (key : Key) : Bool := key.head? = some kernelYieldNs

/-- The slot through which callers and callees pass capabilities. -/
def scratchpadSlot : Key := [0]

end Jar.Javm
