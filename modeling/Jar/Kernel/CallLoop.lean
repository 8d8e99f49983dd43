import Jar.Exec.GasCost
import Jar.Kernel.Frame

/-! The capability kernel's handling of exits: calls and replies, spawning, yields and their
handlers, and gas. -/

namespace Jar.Kernel

open Javm Ssz
open scoped Word

/-! ## Operations -/

def opReply : Nat := 0
def opHostYield : Nat := 16
def opDeriveSpawn : Nat := 18
def opImageHashChain : Nat := 20
def opHostCall : Nat := 26
def opCallResume : Nat := 27
def opDropResume : Nat := 28

def statusOk : Word64 := 0

def statusYielded : Word64 := 1

/-- The largest number of entries on the stack. -/
def maxDepth : Nat := 32768

def scratchpadHeadLen : Nat := 128

/-- What the kernel keeps with each entry. -/
structure JavmEntryMeta where
  /-- The invocation that this one was called from. -/
  owner : Option Nat
  /-- What the owner catches from this one. -/
  ownerCatchSet : List Key
  gas : FrameGas

/-- An entry of the kernel's stack. -/
abbrev Entry (Runtime : Type) := StackEntry (KernelFrame Runtime) JavmEntryMeta

/-- A task of the kernel. -/
abbrev Task (Runtime : Type) := KernelTask (KernelFrame Runtime) JavmEntryMeta Key

section

variable {Runtime : Type} (env : Env)

def activeMeter (stack : List (Entry Runtime)) (idx : Nat) : Option Key :=
  stack[idx]?.bind fun e => e.metadata.gas.activeKey

def setReg (frame : KernelFrame Runtime) (i : Fin numRegs) (value : Word64) : KernelFrame Runtime :=
  { frame with inst := { frame.inst with regs := Function.update frame.inst.regs i value } }

/-- The head of the scratchpad region, zero without one; a missing page panics. -/
def readScratchpadHead (frame : KernelFrame Runtime) : Fallible (List Byte) :=
  if scratchpadHeadLen ≤ frame.inst.mem.contentLen then
    match frame.inst.mem.copyInto 0 scratchpadHeadLen with
    | some bytes => pure bytes
    | none => Attempt.crash
  else pure (List.replicate scratchpadHeadLen 0)

def zeroHead : List Byte := List.replicate scratchpadHeadLen 0

/-! ## Yields -/

/-- The nearest owner that catches a key, from an invocation on; the walk is along owner edges. -/
def findCatcher (stack : List (Entry Runtime)) (key : Key) : (fuel node : Nat) →
    Fallible (Option Nat)
  | 0, _ => Attempt.crash
  | fuel + 1, node =>
    match stack[node]? with
    | none => Attempt.crash
    | some e =>
      match e.metadata.owner with
      | none => pure none
      | some owner =>
        if binarySearch e.metadata.ownerCatchSet key then pure (some owner)
        else findCatcher stack key fuel owner

/-- Give control to the owner that catches a key, as a handler; `none` if there is no such owner. -/
def routeYield (stack : List (Entry Runtime)) (topIdx : Nat) (key : Key)
    (payload : Option (InstanceCap Cap)) : Fallible (Option (List (Entry Runtime))) := do
  match stack[topIdx]? with
  | none => Attempt.crash
  | some top =>
    match ← findCatcher stack key (stack.length + 1) top.target with
    | none => return none
    | some owner =>
      match stack[owner]? with
      | none => Attempt.crash
      | some recv => do
        let frame ← frameAt stack owner
        let frame ← match payload with
          | some inst => frameCnodeSet frame scratchpadSlot (some (.owned (.new (.inst inst))))
          | none => pure frame
        let stack := setFrameAt stack owner (setReg frame 8 statusYielded)
        return some (stack ++
          [{ kind := .reference
             target := owner
             instanceId := recv.instanceId
             metadata := ⟨recv.metadata.owner, [], recv.metadata.gas⟩ }])

/-- On exhausted gas: retry on the next meter, or ask the owner that catches the fault; `none` if
the exit goes to the host. -/
def tryOogYield (stack : List (Entry Runtime)) (topIdx : Nat) (reattemptPc : BitVec 32) :
    Fallible (Option (List (Entry Runtime))) := do
  match stack[topIdx]? with
  | none => Attempt.crash
  | some top =>
    if top.metadata.gas.activeKey = none then return none
    else
      let frame ← frameAt stack topIdx
      let frame := { frame with inst := { frame.inst with pc := reattemptPc.setWidth 64 } }
      let stack := setFrameAt stack topIdx frame
      let withGas (gas : FrameGas) := stack.modify topIdx fun e =>
        { e with metadata := { e.metadata with gas } }
      match top.metadata.gas.advance with
      | some gas => return some (withGas gas)
      | none =>
        match top.metadata.gas.primaryKey with
        | none => return none
        | some meter =>
          -- The register packing of a handle has room for a key of the meter table.
          match gasHandle env.hashes meter with
          | none => Attempt.crash
          | some payload =>
            routeYield (withGas top.metadata.gas.resetToPrimary) topIdx ykOog (some payload)

/-! ## Returning -/

def entryOrigin (e : Entry Runtime) : Option FrameOrigin :=
  match e.kind with
  | .instance frame => frame.origin
  | .reference => none

/-- Forget the origins of entries that are dropped, in the frames that stay. -/
def releasePendingOriginsForDropped (stack : List (Entry Runtime)) (start : Nat) :
    Fallible (List (Entry Runtime)) :=
  ((stack.drop start).filterMap entryOrigin).foldlM (fun stack origin => do
    if origin.owner < start then
      let frame ← frameAt stack origin.owner
      return setFrameAt stack origin.owner
        { frame with pendingOrigins := frame.pendingOrigins.remove origin.slot }
    else return stack) stack

/-- Put a returning instance back into the slot that it was called from. -/
def restoreInstanceToOrigin (stack : List (Entry Runtime)) (origin : FrameOrigin)
    (cap : CachedCap Runtime) : Fallible (List (Entry Runtime)) := do
  let owner ← frameAt stack origin.owner
  if (owner.pendingOrigins.lookup origin.slot).isNone then throw errPendingOriginInvariant
  else
    let owner := { owner with pendingOrigins := owner.pendingOrigins.remove origin.slot }
    let owner ← frameCnodeSet owner origin.slot (some (.owned cap))
    return setFrameAt stack origin.owner owner

/-- The instance of a popped frame for the slot that it came from; `rearmCow` is for its page
table. -/
def reclaimInstance (rearmCow : Runtime → List Nat → Runtime) (popped : KernelFrame Runtime) :
    Fallible (Option (FrameOrigin × CachedCap Runtime)) :=
  match popped.origin with
  | none => pure none
  | some origin => do
    let runtime := popped.runtime.map fun rt =>
      rearmCow rt (popped.inst.mem.overlay.entries.map (·.1))
    let cap ← residentInstanceToCachedCap { popped.inst with gasRemaining := 0 } runtime
    return some (origin, cap)

/-- Pop the frame on top and give its result to the caller; `none` if the stack is drained. -/
def popAndReflect (rearmCow : Runtime → List Nat → Runtime) (stack : List (Entry Runtime))
    (returnValue : Word64) : Fallible (Option (List (Entry Runtime))) := do
  match stack.getLast? with
  | some { kind := .instance popped, .. } =>
    let stack := stack.dropLast
    if popped.pendingOrigins.entries ≠ [] then throw errPendingOriginInvariant
    else if stack = [] then return none
    else
      let (scratch, popped) ← frameCnodeTake popped scratchpadSlot
      let ownedBack ← reclaimInstance rearmCow popped
      let parentIdx := stack.length - 1
      let parent ← frameAt stack parentIdx
      let parent := setReg (setReg parent 7 returnValue) 8 statusOk
      let parent ← match scratch with
        | some cap => frameCnodeSet parent scratchpadSlot (some cap)
        | none => pure parent
      let stack := setFrameAt stack parentIdx parent
      match ownedBack with
      | some (origin, cap) => return some (← restoreInstanceToOrigin stack origin cap)
      | none => return some stack
  | _ => Attempt.crash

/-- A handler returns without resuming: drop everything above its own frame, and pop that. -/
def unwindToHandler (rearmCow : Runtime → List Nat → Runtime) (stack : List (Entry Runtime))
    (topIdx : Nat) (returnValue : Word64) : Fallible (Option (List (Entry Runtime))) := do
  match stack[topIdx]? with
  | none => Attempt.crash
  | some top => do
    let stack ← releasePendingOriginsForDropped stack (top.target + 1)
    popAndReflect rearmCow (stack.take (top.target + 1)) returnValue

/-! ## Spawning and type identities -/

/-- The memory of an image: its mappings' content at their addresses. -/
def composeInstanceMem (img : ImageCap) : DataCap :=
  let memTop := (img.mappings.map fun m => m.start + m.size).max?.getD dataBase
  let mem := DataCap.fromBytesSized env.hashes.pageContentHash [] (memTop - dataBase)
  img.mappings.foldl (fun mem m =>
    match m.source.head? with
    | none => mem
    | some srcSlot =>
      match (img.pinned ++ img.initial).find? fun e => e.slot = srcSlot with
      | none => mem
      | some e =>
        match env.store e.capHash with
        | some (.data src) => mem.placeShared (m.start - dataBase) src
        | _ => mem) mem

/-- The memory of an image, composed once. -/
def buildInstanceMem (imageHash : CapHash) (img : ImageCap) : DataCap :=
  match env.memCache imageHash with
  | some clean => clean
  | none => composeInstanceMem env img

/-- Spawn an instance of the image in a slot into another slot; `none` is a trap. -/
def dispatchDeriveSpawn (frame : KernelFrame Runtime) :
    Fallible (Option (KernelFrame Runtime)) := do
  let imageSlot := Key.ofReg (frame.inst.regs 7)
  let dstSlot := Key.ofReg (frame.inst.regs 9)
  if slotWriteBlocked frame dstSlot then return none
  else if slotIsPending frame imageSlot then return none
  else
    let imageHash := match ← cnodePeek frame imageSlot with
      | some (.hash h) => h
      | _ => frame.inst.imageHash
    let img ← env.getImage imageHash
    let cap := Cap.inst
      { imageHashChain :=
          env.hashes.blake2b256 (frame.inst.imageHashChain.1 ++ imageHash.1)
        imageHash
        rootCnode := .hash zeroHash
        mem := buildInstanceMem env imageHash img
        regs := fun _ => 0
        pc := 0
        gasRemaining := 0 }
    return some (← frameCnodeSet frame dstSlot (some (.owned (.new cap))))

/-- The type identity of a capability, if it has one. -/
def typeIdentity : ResidentTarget Runtime → Fallible (Option CapHash)
  | .hash h =>
    match env.store h with
    | none => throw errInstanceNotFound
    | some (.inst inst) => pure (some inst.imageHashChain)
    | some (.image _) => pure (some h)
    | some _ => pure none
  | .owned (.mk (.inst inst) _) => pure (some inst.imageHashChain)
  | .owned (.mk (.image image) _) => pure (some (env.hashes.capHash (.image image)))
  | .owned _ => pure none

/-- Put the type identity of the capability in a slot into another slot; `none` is a trap. -/
def dispatchImageHashChain (frame : KernelFrame Runtime) :
    Fallible (Option (KernelFrame Runtime)) := do
  let srcSlot := Key.ofReg (frame.inst.regs 7)
  let dstSlot := Key.ofReg (frame.inst.regs 8)
  if slotWriteBlocked frame dstSlot then return none
  else if slotIsPending frame srcSlot then return none
  else
    match ← cnodePeek frame srcSlot with
    | none => return none
    | some target =>
      match ← typeIdentity env target with
      | none => return none
      | some chain =>
        let cap := Cap.data (DataCap.fromBytes env.hashes.pageContentHash chain.1)
        return some (← frameCnodeSet frame dstSlot (some (.owned (.new cap))))

/-! ## System calls -/

/-- What a yield comes to. -/
inductive YieldOutcome where
  /-- The kernel handled it. -/
  | inline
  /-- The operands were malformed. -/
  | trap
  /-- It goes to the owner that catches the key. -/
  | route (key senderSlot : Key)

def minted (handle : Option (InstanceCap Cap)) : Fallible (InstanceCap Cap) :=
  match handle with
  | some inst => pure inst
  | none => Attempt.crash

/-- Put a minted handle into the slot that the guest names. -/
def mintUnitHandle (frame : KernelFrame Runtime) (handle : Option (InstanceCap Cap)) :
    Fallible (YieldOutcome × KernelFrame Runtime) := do
  let handle ← minted handle
  let dst := Key.ofReg (frame.inst.regs 9)
  if slotWriteBlocked frame dst then return (.trap, frame)
  else return (.inline, ← frameCnodeSet frame dst (some (.owned (.new (.inst handle)))))

def mintYield (frame : KernelFrame Runtime) : Fallible (YieldOutcome × KernelFrame Runtime) := do
  let newKey := Key.ofReg (frame.inst.regs 8)
  let senderDst := Key.ofReg (frame.inst.regs 9)
  let receiverDst := Key.ofReg (frame.inst.regs 10)
  if slotWriteBlocked frame senderDst || slotWriteBlocked frame receiverDst then
    return (.trap, frame)
  else
    let sender ← minted (yieldSender env.hashes newKey)
    let receiver := yieldReceiver env.hashes [newKey]
    let frame ← frameCnodeSet frame senderDst (some (.owned (.new (.inst sender))))
    return (.inline, ← frameCnodeSet frame receiverDst (some (.owned (.new (.inst receiver)))))

def mergeReceivers (frame : KernelFrame Runtime) :
    Fallible (YieldOutcome × KernelFrame Runtime) := do
  let dst := Key.ofReg (frame.inst.regs 10)
  if slotWriteBlocked frame dst then return (.trap, frame)
  else
    match ← readInstanceCapGuest env frame (Key.ofReg (frame.inst.regs 8)) with
    | none => return (.trap, frame)
    | some none => throw errYieldBadSender
    | some (some a) =>
      match ← readInstanceCapGuest env frame (Key.ofReg (frame.inst.regs 9)) with
      | none => return (.trap, frame)
      | some none => throw errYieldBadSender
      | some (some b) =>
        match mergeYieldReceivers env.hashes a b with
        | none => Attempt.crash
        | some none => return (.trap, frame)
        | some (some merged) =>
          return (.inline, ← frameCnodeSet frame dst (some (.owned (.new (.inst merged)))))

def setGasMeter (frame : KernelFrame Runtime) (gas : TaskGasState Key) :
    KernelFrame Runtime × TaskGasState Key :=
  let meterKey := Key.ofReg (frame.inst.regs 8)
  let value := (frame.inst.regs 9).toInt
  let (previous, gas) :=
    if gas.currentActive = some meterKey then (gas.liveGas, { gas with liveGas := value })
    else ((gas.meters.lookup meterKey).getD 0,
      { gas with meters := gas.meters.insert meterKey value })
  (setReg frame 7 (BitVec.ofInt 64 previous), gas)

/-- The key of the sender that a yield names; `none` is a trap. -/
def yieldKey (frame : KernelFrame Runtime) : Fallible (Option Key) := do
  match ← readInstanceCapGuest env frame (Key.ofReg (frame.inst.regs 7)) with
  | some (some inst) => return yieldSenderKey env.hashes inst
  | _ => return none

/-- Handle a yield: system calls at once, others by routing. -/
def dispatchHostYield (frame : KernelFrame Runtime) (gas : TaskGasState Key) :
    Fallible (YieldOutcome × KernelFrame Runtime × TaskGasState Key) := do
  match ← yieldKey env frame with
  | none => return (.trap, frame, gas)
  | some key =>
    if !isKernelYieldKey key then
      return (.route key (Key.ofReg (frame.inst.regs 7)), frame, gas)
    else if key = ykMintYield then
      let (outcome, frame) ← mintYield env frame
      return (outcome, frame, gas)
    else if key = ykMergeYieldReceiver then
      let (outcome, frame) ← mergeReceivers env frame
      return (outcome, frame, gas)
    else if key = ykMintGas then
      let (outcome, frame) ← mintUnitHandle frame
        (gasHandle env.hashes (Key.ofReg (frame.inst.regs 8)))
      return (outcome, frame, gas)
    else if key = ykMintQuota then
      let (outcome, frame) ← mintUnitHandle frame
        (quotaHandle env.hashes (Key.ofReg (frame.inst.regs 8)))
      return (outcome, frame, gas)
    else if key = ykSetGasMeter then
      let (frame, gas) := setGasMeter frame gas
      return (.inline, frame, gas)
    else return (.route key (Key.ofReg (frame.inst.regs 7)), frame, gas)

/-! ## Calls -/

def compileCostPerPage : Nat := 512

def callFrameBase : Nat := 1024

/-- The cost of paging in a read-only unit. -/
def pageInCost : Nat := 64

def callFrameCost (codeLen roUnits : Nat) : Nat :=
  callFrameBase + (codeLen + (pageSize - 1)) / pageSize * compileCostPerPage + roUnits * pageInCost

def callFrameCostFor (imageHash : CapHash) : Fallible Int := do
  let img ← env.getImage imageHash
  let units (size : Nat) := (size + (2 ^ 21 - 1)) / 2 ^ 21
  let roUnits := img.mappings.foldl (fun acc m =>
    if img.mappingIsPinned (m.start % 2 ^ 32) then acc + units m.size else acc)
    (units img.code.length)
  return (callFrameCost (min img.code.length (2 ^ 32 - 1)) (min roUnits (2 ^ 32 - 1)) : Nat)

/-- The cost of the frame that a call builds, absent if the callee is running. -/
def hostCallFrameCost (parent : KernelFrame Runtime) : Fallible (Option Int) := do
  let instanceSlot := Key.ofReg (parent.inst.regs 7)
  if slotIsPending parent instanceSlot then return none
  else
    let imageHash ← match ← cnodePeek parent instanceSlot with
      | some (.owned (.mk (.inst inst) _)) => pure inst.imageHash
      | some (.owned _) => throw errInstanceKind
      | some (.hash h) =>
        match env.store h with
        | none => throw errInstanceNotFound
        | some (.inst inst) => pure inst.imageHash
        | some _ => throw errInstanceKind
      | none => throw errHostCallSlotEmpty
    return some (← callFrameCostFor env imageHash)

/-- The slots that a child inherits: hashes and placeholders, but not the scratchpad. -/
def inheritSlots (parent child : ResidentCNode Runtime) : ResidentCNode Runtime :=
  parent.slots.foldl (fun child (slot, value) =>
    if slot = scratchpadSlot then child
    else
      match value with
      | .materialized (.owned _) => child
      | value => if (child.entry slot).isNone then child.insert slot value else child) child

/-- Move the instance of a slot into a child frame; `none` is a trap. -/
def dispatchHostCall (parent : KernelFrame Runtime) (logicalOwner : Nat) :
    Fallible (Option (KernelFrame Runtime × KernelFrame Runtime)) := do
  let instanceSlot := Key.ofReg (parent.inst.regs 7)
  let endpointIdx : BitVec 32 := ((parent.inst.regs 8).setWidth 8).setWidth 32
  let args : Fin 4 → Word64 := fun i =>
    if i = 0 then parent.inst.regs 9 else if i = 1 then parent.inst.regs 10 else 0
  if slotIsPending parent instanceSlot then return none
  else
    match ← frameCnodeTake parent instanceSlot with
    | (none, _) => throw errHostCallSlotEmpty
    | (some target, parent) => do
      let origin : FrameOrigin := ⟨logicalOwner, instanceSlot⟩
      let child ← match target with
        | .owned (.mk (.inst inst) cache) => do
          let (runtime, cnode) := match cache with
            | .instance runtime cnode => (runtime, cnode)
            | _ => (none, none)
          let child ← buildFrame env inst cnode (some origin) endpointIdx args
          pure (match runtime with
            | some rt => { child with runtime := some rt }
            | none => child)
        | .owned _ => throw errInstanceKind
        | .hash h =>
          match env.store h with
          | none => throw errInstanceNotFound
          | some (.inst inst) => buildFrame env inst none (some origin) endpointIdx args
          | some _ => throw errInstanceKind
      let parent := { parent with pendingOrigins := parent.pendingOrigins.insert instanceSlot () }
      let cnode := inheritSlots (← rootCnode parent) (← rootCnode child)
      return some (parent, withRootCnode child cnode)

/-! ## Exits -/

variable (rearmCow : Runtime → List Nat → Runtime)

/-- A reply or a clean exit of the frame on top. -/
def finishFrame (task : Task Runtime) (info : ExitInfo) : Fallible (Flow × Task Runtime) := do
  let topIdx := task.topIdx
  match task.stack[topIdx]? with
  | none => Attempt.crash
  | some top => do
    let head ← if top.target = 0 then do readScratchpadHead (← frameAt task.stack topIdx)
      else pure zeroHead
    let drained ← if top.target ≠ topIdx then
        unwindToHandler rearmCow task.stack topIdx (info.regs 7)
      else popAndReflect rearmCow task.stack (info.regs 7)
    match drained with
    | none => return (task.finish info.exitReason info.exitArg (info.regs 7) head, task)
    | some stack => return (.resume, { task with stack })

def onHalt (task : Task Runtime) (info : ExitInfo) : Fallible (Flow × Task Runtime) :=
  finishFrame rearmCow task info

/-- What a call of the kernel costs, and whether it names a callee that is running. -/
def ecallCost (task : Task Runtime) (op : Nat) (info : ExitInfo) : Fallible (Int × Bool) := do
  let ecallCost : Int := ecallDynamicCost (info.exitReason = exitHostCall)
  if op = opHostCall then
    if maxDepth ≤ task.stack.length then throw errDepthLimit
    else
      match ← hostCallFrameCost env (← frameAt task.stack task.topIdx) with
      | some cost => return (ecallCost + cost, false)
      | none => return (ecallCost, true)
  else return (ecallCost, false)

/-- The guest broke a rule. -/
def trap (task : Task Runtime) (info : ExitInfo) (arg : Nat) : Flow × Task Runtime :=
  (task.finish exitTrap arg (info.regs 7) zeroHead, task)

/-- An operation on the frame on top, which traps or goes on. -/
def inFrame (task : Task Runtime) (info : ExitInfo)
    (dispatch : KernelFrame Runtime → Fallible (Option (KernelFrame Runtime))) :
    Fallible (Flow × Task Runtime) := do
  match ← dispatch (← frameAt task.stack task.topIdx) with
  | none => return trap task info 0
  | some frame =>
    return (.resume, { task with stack := setFrameAt task.stack task.topIdx frame })

def hostYield (task : Task Runtime) (info : ExitInfo) : Fallible (Flow × Task Runtime) := do
  let (outcome, frame, gas) ← dispatchHostYield env (← frameAt task.stack task.topIdx) task.gas
  let task := { task with stack := setFrameAt task.stack task.topIdx frame, gas }
  match outcome with
  | .inline => return (.resume, task)
  | .trap => return trap task info 0
  | .route key senderSlot => do
    let payload ← readInstanceCap env (← frameAt task.stack task.topIdx) senderSlot
    match ← routeYield task.stack task.topIdx key payload with
    | some stack => return (.resume, { task with stack })
    | none => return trap task info errYieldUnhandled

def callResume (task : Task Runtime) (info : ExitInfo) : Fallible (Flow × Task Runtime) := do
  let topIdx := task.topIdx
  match task.stack[topIdx]? with
  | none => Attempt.crash
  | some top =>
    if top.target = topIdx then return trap task info 0
    else
      let (response, handler) ← frameCnodeTake (← frameAt task.stack topIdx) scratchpadSlot
      let stack := (setFrameAt task.stack topIdx handler).dropLast
      let yielderIdx := stack.length - 1
      let yielder ← frameAt stack yielderIdx
      let yielder ← match response with
        | some cap => frameCnodeSet yielder scratchpadSlot (some cap)
        | none => pure yielder
      return (.resume, { task with
        stack := setFrameAt stack yielderIdx (setReg yielder 8 statusOk) })

/-- A handler drops what it caught and goes on. -/
def dropResume (task : Task Runtime) (info : ExitInfo) : Fallible (Flow × Task Runtime) := do
  let topIdx := task.topIdx
  match task.stack[topIdx]? with
  | none => Attempt.crash
  | some top =>
    if top.target = topIdx then return trap task info 0
    else
      let stack ← releasePendingOriginsForDropped task.stack (top.target + 1)
      return (.resume, { task with stack := stack.take (top.target + 1) })

def hostCall (task : Task Runtime) (info : ExitInfo) : Fallible (Flow × Task Runtime) := do
  let topIdx := task.topIdx
  match task.stack[topIdx]? with
  | none => Attempt.crash
  | some top => do
    let logicalOwner := top.target
    match ← snapshotCatchSet env (← frameAt task.stack topIdx) with
    | none => return trap task info 0
    | some catchSet =>
      match ← dispatchHostCall env (← frameAt task.stack topIdx) logicalOwner with
      | none => return trap task info 0
      | some (parent, child) => do
        let (scratch, parent) ← frameCnodeTake parent scratchpadSlot
        let child ← match scratch with
          | some cap => frameCnodeSet child scratchpadSlot (some cap)
          | none => pure child
        let stack := setFrameAt task.stack topIdx parent
        let gas ← resolveFrameGas env child
        let entry : Entry Runtime :=
          { kind := .instance child
            target := stack.length
            instanceId := task.nextIid
            metadata := ⟨some logicalOwner, catchSet, gas.getD top.metadata.gas⟩ }
        return (.resume, { task with stack := stack ++ [entry], nextIid := task.nextIid + 1 })

/-- The PC of a call for another attempt; calls are 4 bytes long. -/
def reattemptPc (pc : BitVec 32) : BitVec 32 := if pc < 4 then 0 else pc - 4

def onEcall (task : Task Runtime) (op : Nat) (info : ExitInfo) :
    Fallible (Flow × Task Runtime) := do
  let (totalCost, hostCallPending) ← ecallCost env task op info
  if task.gas.liveGas < totalCost then
    match ← tryOogYield env task.stack task.topIdx (reattemptPc info.pc) with
    | some stack => return (.resume, { task with stack })
    | none => return (task.finish exitOog 0 (info.regs 7) zeroHead, task)
  else
    let task := { task with gas := { task.gas with liveGas := task.gas.liveGas - totalCost } }
    if op = opReply then finishFrame rearmCow task info
    else if op = opDeriveSpawn then inFrame task info (dispatchDeriveSpawn env)
    else if op = opImageHashChain then inFrame task info (dispatchImageHashChain env)
    else if op = opHostYield then hostYield env task info
    else if op = opCallResume then callResume task info
    else if op = opDropResume then dropResume task info
    else if op = opHostCall then
      if hostCallPending then return trap task info 0 else hostCall env task info
    else return (task.finish info.exitReason info.exitArg (info.regs 7) zeroHead, task)

def onExit (task : Task Runtime) (info : ExitInfo) : Fallible (Flow × Task Runtime) := do
  let bubble := (task.finish info.exitReason info.exitArg (info.regs 7) zeroHead, task)
  if info.exitReason = exitOog then
    match ← tryOogYield env task.stack task.topIdx info.pc with
    | some stack => return (.resume, { task with stack })
    | none => return bubble
  else return bubble

def javm (machine : KernelMachine Runtime) :
    GuestPersonality (KernelFrame Runtime) JavmEntryMeta Key DataCap Runtime where
  parts := KernelFrame.parts
  withParts := KernelFrame.withParts
  buildRuntime := buildRuntime env machine
  activeMeter := activeMeter
  onHalt := onHalt machine.rearmCow
  onEcall := onEcall env machine.rearmCow
  onExit := onExit env

/-- A new task of the kernel for a published instance. -/
def newTask (lane : Nat) (root : CapHash) (endpointIdx : BitVec 32) (args : Fin 4 → Word64)
    (initialGas : Int) : Fallible (Task Runtime) := do
  let frame ← buildFrameFromPublished env root endpointIdx args
  let gas ← resolveFrameGas env frame
  let stack : List (Entry Runtime) :=
    [{ kind := .instance frame
       target := 0
       instanceId := 0
       metadata := ⟨none, [], gas.getD FrameGas.hostBudgeted⟩ }]
  let task : Task Runtime :=
    { lane
      stack
      nextIid := 1
      gas := TaskGasState.new (activeMeter stack 0) initialGas }
  return task

end

end Jar.Kernel
