import Jar.Cap.Yield
import Jar.Kernel.Task
import Jar.Lib.BinarySearch

/-! The frames of the capability kernel: a running instance with its slots, its gas scope, and how
frames are built from instances. -/

namespace Jar.Kernel

open Javm Ssz
open scoped Word

/-! ## Error codes -/

def errInstanceNotFound : Nat := 21
def errInstanceKind : Nat := 22
def errImageNotFound : Nat := 23
def errImageKind : Nat := 24
def errEndpointOob : Nat := 25
def errHostCallSlotEmpty : Nat := 40
def errJitFailed : Nat := 50
def errDepthLimit : Nat := 51
def errYieldUnhandled : Nat := 70
def errYieldBadSender : Nat := 71
def errGasSlotEmpty : Nat := 72
def errGasSlotInvalid : Nat := 73
def errPendingOriginInvariant : Nat := 74

/-! ## Resident capabilities -/

/-- The derived state that rides with a resident capability. -/
inductive CapCache (Runtime C : Type) where
  | none
  /-- The slots of a resident cnode. -/
  | cnode (cnode : CNodeCap C)
  /-- The compiled code of an image. -/
  | image
  /-- The page table and the slots of an instance between two calls. -/
  | instance (runtime : Option Runtime) (rootCnode : Option (CNodeCap C))

/-- A capability with its derived state. -/
inductive CachedCap (Runtime : Type) where
  | mk (cap : Cap) (cache : CapCache Runtime (CachedCap Runtime))

namespace CachedCap

variable {Runtime : Type}

/-- A capability without derived state. -/
def new (cap : Cap) : CachedCap Runtime := mk cap .none

def ofCnode (cnode : CNodeCap (CachedCap Runtime)) : CachedCap Runtime :=
  mk (.cnode CNodeCap.empty) (.cnode cnode)

end CachedCap

/-- The slots of a running frame. -/
abbrev ResidentCNode (Runtime : Type) := CNodeCap (CachedCap Runtime)

/-- The capability in a slot of a running frame. -/
abbrev ResidentTarget (Runtime : Type) := CapHashOrRef (CachedCap Runtime)

/-- What the kernel reads and never writes: the published capabilities, the memory that was already
composed for images, and the hash functions. -/
structure Env where
  /-- The published capabilities by their hashes. -/
  store : CapHash → Option Cap
  /-- The composed memory of images, from earlier spawns. -/
  memCache : CapHash → Option DataCap
  hashes : Hashes

def Env.getImage (env : Env) (hash : CapHash) : Fallible ImageCap :=
  match env.store hash with
  | none => throw errImageNotFound
  | some (.image image) => pure image
  | some _ => throw errImageKind

/-! ## Frames -/

/-- The frame and the slot that a running instance was moved out of. -/
structure FrameOrigin where
  owner : Nat
  slot : Key

/-- One running instance. -/
structure KernelFrame (Runtime : Type) where
  inst : InstanceCap (CachedCap Runtime)
  origin : Option FrameOrigin
  /-- The slots whose instances run in child frames. -/
  pendingOrigins : SortedMap Key Unit
  /-- The read-only slots of the image. -/
  pinned : List Key
  matState : List Byte
  roUnits : List Nat
  runtime : Option Runtime

section

variable {Runtime : Type}

def KernelFrame.parts (frame : KernelFrame Runtime) : FrameParts DataCap Runtime where
  pc := frame.inst.pc
  regs := frame.inst.regs
  mem := frame.inst.mem
  matState := frame.matState
  roUnits := frame.roUnits
  runtime := frame.runtime

/-- A frame with another execution state. -/
def KernelFrame.withParts (frame : KernelFrame Runtime) (p : FrameParts DataCap Runtime) :
    KernelFrame Runtime :=
  { frame with
    inst := { frame.inst with pc := p.pc, regs := p.regs, mem := p.mem }
    matState := p.matState
    roUnits := p.roUnits
    runtime := p.runtime }

/-- Whether the binary search of a list of keys finds one. -/
def binarySearch (keys : List Key) (key : Key) : Bool := (BinarySearch.search keys key).isSome

def slotIsPending (frame : KernelFrame Runtime) (slot : Key) : Bool :=
  (frame.pendingOrigins.lookup slot).isSome

def slotWriteBlocked (frame : KernelFrame Runtime) (slot : Key) : Bool :=
  binarySearch frame.pinned slot || slotIsPending frame slot

/-- The slots of a frame, which are resident while it runs. -/
def rootCnode (frame : KernelFrame Runtime) : Fallible (ResidentCNode Runtime) :=
  match frame.inst.rootCnode with
  | .owned (.mk _ (.cnode cnode)) => pure cnode
  | _ => Attempt.crash

def withRootCnode (frame : KernelFrame Runtime) (cnode : ResidentCNode Runtime) :
    KernelFrame Runtime :=
  match frame.inst.rootCnode with
  | .owned (.mk cap _) =>
    { frame with inst := { frame.inst with rootCnode := .owned (.mk cap (.cnode cnode)) } }
  | _ => frame

def frameCnodeSet (frame : KernelFrame Runtime) (slot : Key)
    (target : Option (ResidentTarget Runtime)) : Fallible (KernelFrame Runtime) := do
  let cnode ← rootCnode frame
  return withRootCnode frame (cnode.setKey slot target)

def frameCnodeTake (frame : KernelFrame Runtime) (slot : Key) :
    Fallible (Option (ResidentTarget Runtime) × KernelFrame Runtime) := do
  let cnode ← rootCnode frame
  let (target, cnode) := cnode.takeKey slot
  return (target, withRootCnode frame cnode)

def cnodePeek (frame : KernelFrame Runtime) (slot : Key) :
    Fallible (Option (ResidentTarget Runtime)) := do
  let cnode ← rootCnode frame
  return cnode.peekKey slot

def readInstanceCap (env : Env) (frame : KernelFrame Runtime) (slot : Key) :
    Fallible (Option (InstanceCap Cap)) := do
  match ← cnodePeek frame slot with
  | some (.hash h) =>
    match env.store h with
    | some (.inst inst) => return some inst
    | _ => return none
  | some (.owned (.mk (.inst inst) _)) => return some inst
  | _ => return none

/-- The instance in a slot for an operation of the guest, which traps (`none`) on a pending slot. -/
def readInstanceCapGuest (env : Env) (frame : KernelFrame Runtime) (slot : Key) :
    Fallible (Option (Option (InstanceCap Cap))) := do
  if slotIsPending frame slot then return none
  else return some (← readInstanceCap env frame slot)

/-! ## Gas scopes -/

/-- The meters that fund a frame, in order, and the active one. -/
structure FrameGas where
  meters : List Key
  active : Option Nat
  deriving DecidableEq

namespace FrameGas

def hostBudgeted : FrameGas := ⟨[], none⟩

def declared (meters : List Key) : FrameGas := ⟨meters, some 0⟩

def activeKey (g : FrameGas) : Option Key := g.active.bind fun idx => g.meters[idx]?

def primaryKey (g : FrameGas) : Option Key := g.meters.head?

/-- Go on to the next meter, if there is one. -/
def advance (g : FrameGas) : Option FrameGas :=
  match g.active with
  | none => none
  | some idx => if idx + 1 < g.meters.length then some { g with active := some (idx + 1) } else none

/-- Go back to the first meter. -/
def resetToPrimary (g : FrameGas) : FrameGas :=
  if g.meters = [] then g else { g with active := some 0 }

end FrameGas

def gasMeterKeyFromRef (env : Env) (target : ResidentTarget Runtime) : Fallible Key := do
  let inst ← match target with
    | .hash h =>
      match env.store h with
      | some (.inst inst) => pure inst
      | _ => throw errGasSlotInvalid
    | .owned (.mk (.inst inst) _) => pure inst
    | .owned _ => throw errGasSlotInvalid
  match gasMeterKey env.hashes inst with
  | some key => pure key
  | none => throw errGasSlotInvalid

/-- The meters in the declared slots, each once; empty slots are skipped. -/
def resolveMeters (env : Env) (frame : KernelFrame Runtime) :
    List Key → List Key → Fallible (List Key)
  | [], meters => pure meters
  | slot :: slots, meters => do
    if slotIsPending frame slot then throw errGasSlotInvalid
    else
      match ← cnodePeek frame slot with
      | none => resolveMeters env frame slots meters
      | some target => do
        let meter ← gasMeterKeyFromRef env target
        resolveMeters env frame slots (if meter ∈ meters then meters else meters ++ [meter])

/-- The declared gas scope of a frame, absent without a declaration. -/
def resolveFrameGas (env : Env) (frame : KernelFrame Runtime) : Fallible (Option FrameGas) := do
  let img ← env.getImage frame.inst.imageHash
  if img.gasSlots = [] then return none
  else
    let meters ← resolveMeters env frame img.gasSlots []
    if meters = [] then throw errGasSlotEmpty
    else return some (FrameGas.declared meters)

/-- The keys that the receiver of a frame's image catches; a pending receiver slot traps (`none`). -/
def snapshotCatchSet (env : Env) (frame : KernelFrame Runtime) : Fallible (Option (List Key)) :=
  match env.store frame.inst.imageHash with
  | some (.image img) =>
    match img.yieldReceiverSlot with
    | none => pure (some [])
    | some slot => do
      match ← readInstanceCapGuest env frame slot with
      | none => return none
      | some (some inst) =>
        match yieldReceiverKeys env.hashes inst with
        | none => Attempt.crash
        | some keys => return some (normalizeKeys (keys.getD []))
      | some none => return some []
  | _ => pure (some [])

/-! ## Building frames -/

/-- Resident form of what a slot of a stored cnode holds; a nested cnode becomes resident with all
its slots. -/
def wireTargetToCached : CapHashOrRef Cap → ResidentTarget Runtime
  | .hash h => .hash h
  | .owned (.cnode ⟨slots⟩) => .owned (CachedCap.ofCnode ⟨copySlots slots []⟩)
  | .owned cap => .owned (CachedCap.new cap)
where
  copySlots : List (Key × MissingOr (CapHashOrRef Cap)) →
      List (Key × MissingOr (ResidentTarget Runtime)) →
      List (Key × MissingOr (ResidentTarget Runtime))
    | [], dst => dst
    | (key, .materialized target) :: rest, dst =>
      copySlots rest (SortedMap.insertEntry key (.materialized (wireTargetToCached target)) dst)
    | (key, .missing h) :: rest, dst =>
      copySlots rest (SortedMap.insertEntry key (.missing h) dst)

/-- The slots of a stored cnode in resident form. -/
def copyWireCnodeIntoCached (src : CNodeCap Cap) : ResidentCNode Runtime :=
  ⟨wireTargetToCached.copySlots src.slots []⟩

/-- The resident slots of an instance that is not running. -/
def materializeRootCnode (env : Env) : CapHashOrRef Cap → Fallible (ResidentCNode Runtime)
  | .hash h =>
    if h = zeroHash then pure CNodeCap.empty
    else
      match env.store h with
      | none => throw errInstanceNotFound
      | some (.cnode cnode) => pure (copyWireCnodeIntoCached cnode)
      | some _ => throw errInstanceKind
  | .owned (.cnode cnode) => pure (copyWireCnodeIntoCached cnode)
  | .owned _ => throw errInstanceKind

/-- The pinned slots of an image replace what is there; the initial ones fill empty slots. -/
def overlayImageSlots (img : ImageCap) (cnode : ResidentCNode Runtime) : ResidentCNode Runtime :=
  let pinned := img.pinned.foldl (fun cnode e => cnode.setKey e.slot (some (.hash e.capHash))) cnode
  img.initial.foldl (fun cnode e =>
    if (cnode.peekKey e.slot).isNone then cnode.setKey e.slot (some (.hash e.capHash)) else cnode)
    pinned

/-- The registers of a call: those of the endpoint, with the arguments from the eighth on. -/
def callRegs (ep : EndpointDef) (args : Fin 4 → Word64) : RegFile := fun i =>
  if arg : 7 ≤ i.val ∧ i.val - 7 < 4 then args ⟨i.val - 7, arg.2⟩ else ep.initialRegs i

def buildFrame (env : Env) (inst : InstanceCap Cap) (cachedRootCnode : Option (ResidentCNode Runtime))
    (origin : Option FrameOrigin) (endpointIdx : BitVec 32) (args : Fin 4 → Word64) :
    Fallible (KernelFrame Runtime) := do
  let img ← env.getImage inst.imageHash
  match img.endpoints.find? fun e => e.1 = Key.ofByte (endpointIdx.setWidth 8) with
  | none => throw errEndpointOob
  | some (_, ep) => do
    let cnode ← match cachedRootCnode with
      | some cnode => pure cnode
      | none => materializeRootCnode env inst.rootCnode
    let frame : KernelFrame Runtime :=
      { inst :=
          { imageHashChain := inst.imageHashChain
            imageHash := inst.imageHash
            rootCnode := .owned (CachedCap.ofCnode (overlayImageSlots img cnode))
            mem := inst.mem
            regs := callRegs ep args
            pc := ep.entryPc
            gasRemaining := 0 }
        origin
        pendingOrigins := SortedMap.empty
        pinned := img.pinned.map (·.slot)
        matState := List.replicate (inst.mem.contentLen / pageSize) 0
        roUnits := []
        runtime := none }
    return frame

def buildFrameFromPublished (env : Env) (instanceHash : CapHash) (endpointIdx : BitVec 32)
    (args : Fin 4 → Word64) : Fallible (KernelFrame Runtime) :=
  match env.store instanceHash with
  | none => throw errInstanceNotFound
  | some (.inst inst) => buildFrame env inst none none endpointIdx args
  | some _ => throw errInstanceKind

/-- The stored and the resident part of the slots of an instance that stops running. -/
def takeResidentRootCnode :
    ResidentTarget Runtime → Fallible (CapHashOrRef Cap × Option (ResidentCNode Runtime))
  | .hash h => pure (.hash h, none)
  | .owned (.mk cap cache) =>
    match cache, cap with
    | .cnode cnode, _ => pure (.hash zeroHash, some cnode)
    | .none, .cnode cnode => pure (.owned (.cnode cnode), none)
    | _, _ => throw errInstanceKind

/-- An instance that stops running, with its page table and slots at hand for the next call. -/
def residentInstanceToCachedCap (inst : InstanceCap (CachedCap Runtime))
    (runtime : Option Runtime) : Fallible (CachedCap Runtime) := do
  let (wire, resident) ← takeResidentRootCnode inst.rootCnode
  let cap := Cap.inst
    { imageHashChain := inst.imageHashChain
      imageHash := inst.imageHash
      rootCnode := wire
      mem := inst.mem
      regs := inst.regs
      pc := inst.pc
      gasRemaining := inst.gasRemaining }
  match runtime, resident with
  | none, none => return .mk cap .none
  | runtime, resident => return .mk cap (.instance runtime resident)

mutual

/-- The stored form of a resident capability; slots at hand replace the stored ones. -/
def CachedCap.toWireCap : CachedCap Runtime → Cap
  | .mk (.cnode _) (.cnode ⟨slots⟩) => .cnode ⟨foldSlots slots []⟩
  | .mk (.inst inst) (.instance _ (some ⟨slots⟩)) =>
    .inst { inst with rootCnode := .owned (.cnode ⟨foldSlots slots []⟩) }
  | .mk cap _ => cap
termination_by structural cap => cap

/-- The stored form of what a slot holds. -/
def targetToWire : ResidentTarget Runtime → CapHashOrRef Cap
  | .hash h => .hash h
  | .owned cap => .owned cap.toWireCap
termination_by structural target => target

/-- Insert the stored forms of slots one by one. -/
def foldSlots : List (Key × MissingOr (ResidentTarget Runtime)) →
    List (Key × MissingOr (CapHashOrRef Cap)) → List (Key × MissingOr (CapHashOrRef Cap))
  | [], out => out
  | (key, .materialized target) :: rest, out =>
    foldSlots rest (SortedMap.insertEntry key (.materialized (targetToWire target)) out)
  | (key, .missing h) :: rest, out => foldSlots rest (SortedMap.insertEntry key (.missing h) out)
termination_by structural slots => slots

end

def foldCnodeToWire (cnode : ResidentCNode Runtime) : CNodeCap Cap := ⟨foldSlots cnode.slots []⟩

end

/-! ## Page tables -/

/-- A range of addresses and how its pages are materialized. -/
structure MatRange where
  start : Nat
  stop : Nat
  /-- Read-only content of a pinned slot, or copy-on-write. -/
  pinned : Bool

/-- The native side of frames. -/
structure KernelMachine (Runtime : Type) extends Machine DataCap Runtime where
  /-- Build a page table from the code, the size of the data region and its ranges; it can fail. -/
  buildFrameRuntime : (lane : Nat) → (img : ImageCap) → (memSize : Nat) → List MatRange →
    Option Runtime
  /-- Make the written pages of a page table read-only again. -/
  rearmCow : Runtime → List Nat → Runtime

/-- The ranges of a frame: pinned mappings before the rest of the data region. -/
def matRanges (img : ImageCap) (extent : Nat) : List MatRange :=
  let pinned := img.mappings.filterMap fun m =>
    let start := m.start % 2 ^ 32
    let span := (m.size % 2 ^ 32 + (pageSize - 1)) / pageSize * pageSize % 2 ^ 32
    if m.source = [] ∨ ¬ img.mappingIsPinned start ∨ span = 0 then none
    else some { start, stop := min (start + span) (2 ^ 32 - 1), pinned := true }
  if extent / pageSize = 0 then pinned
  else pinned ++
    [{ start := dataBase, stop := min (dataBase + extent) (2 ^ 32 - 1), pinned := false }]

def buildRuntime {Runtime : Type} (env : Env) (machine : KernelMachine Runtime) (lane : Nat)
    (frame : KernelFrame Runtime) : Fallible Runtime := do
  let img ← env.getImage frame.inst.imageHash
  match img.codeMapping with
  | none => throw errImageKind
  | some _ =>
    let extent := frame.inst.mem.contentLen % 2 ^ 32
    match machine.buildFrameRuntime lane img (min (dataBase + extent) (2 ^ 32 - 1))
      (matRanges img extent) with
    | some runtime => pure runtime
    | none => throw errJitFailed

end Jar.Kernel
