import Jar.Exec.Compressed
import Jar.Lib.Attempt
import Jar.Lib.SortedMap

/-! The guest kernel's task loop: it enters the frame on top of the call stack, saves what comes
back, and lets a personality handle the exit. -/

namespace Jar.Kernel

/-- A step of the kernel: it may end the task with an error code, or panic. -/
abbrev Fallible := Attempt Nat

/-! ## Exits -/

def exitHalt : Nat := 0

/-- The gas of a block did not suffice. -/
def exitOog : Nat := 2

def exitHostCall : Nat := 4

def exitEcall : Nat := 6

/-- The guest broke a rule of the kernel. -/
def exitTrap : Nat := 7

/-- The context that the kernel shares with native code. -/
structure JitContext where
  /-- The registers, the two spilled ones last. -/
  regs : Regs
  gas : Int
  exitReason : Nat
  exitArg : Nat
  entryPc : BitVec 32
  pc : BitVec 32

/-- What the kernel takes from the context after an exit. -/
structure ExitInfo where
  exitReason : Nat
  exitArg : Nat
  gasRemaining : Int
  regs : Fin 13 → Word64
  pc : BitVec 32

/-- What native code works on: the context, the frame's memory with the state of its pages, and the
frame's page table. -/
structure Native (Mem Runtime : Type) where
  ctx : JitContext
  mem : Mem
  matState : List Byte
  roUnits : List Nat
  runtime : Runtime

/-- Native code, from the entry of a frame to its next exit. -/
structure Machine (Mem Runtime : Type) where
  /-- The lane that a page table belongs to. -/
  lane : Runtime → Nat
  /-- Run to the next exit. -/
  enterRing3 : Native Mem Runtime → Native Mem Runtime

/-- The execution state of a frame. -/
structure FrameParts (Mem Runtime : Type) where
  pc : BitVec 64
  regs : Fin 13 → Word64
  mem : Mem
  matState : List Byte
  roUnits : List Nat
  runtime : Option Runtime

/-! ## The stack -/

/-- An invocation with its own frame, or the activation of an earlier one as a handler. -/
inductive EntryKind (Frame : Type) where
  | instance (frame : Frame)
  | reference

/-- One entry of the call stack. -/
structure StackEntry (Frame EntryMeta : Type) where
  kind : EntryKind Frame
  /-- The index of the invocation whose frame this entry runs. -/
  target : Nat
  instanceId : Nat
  metadata : EntryMeta

section

variable {Frame EntryMeta : Type}

def frameAt (stack : List (StackEntry Frame EntryMeta)) (idx : Nat) : Fallible Frame :=
  match stack[idx]? with
  | none => Attempt.crash
  | some e =>
    match stack[e.target]? with
    | some { kind := .instance frame, .. } => pure frame
    | _ => Attempt.crash

def setFrameAt (stack : List (StackEntry Frame EntryMeta)) (idx : Nat) (frame : Frame) :
    List (StackEntry Frame EntryMeta) :=
  match stack[idx]? with
  | none => stack
  | some e => stack.modify e.target fun holder => { holder with kind := .instance frame }

end

/-! ## Gas -/

/-- The live balance of the running scope, and the banked balances of the others. -/
structure TaskGasState (MeterKey : Type) [LinearOrder MeterKey] where
  meters : SortedMap MeterKey Int
  liveGas : Int
  hostBudget : Int
  rootActive : Option MeterKey
  currentActive : Option MeterKey

namespace TaskGasState

variable {MeterKey : Type} [LinearOrder MeterKey]

def new (rootActive : Option MeterKey) (initialGas : Int) : TaskGasState MeterKey where
  meters := match rootActive with
    | some k => SortedMap.empty.insert k initialGas
    | none => SortedMap.empty
  liveGas := initialGas
  hostBudget := initialGas
  rootActive
  currentActive := rootActive

/-- Bank the balance of the old scope and load that of the new one. -/
def reconcile (g : TaskGasState MeterKey) (newActive : Option MeterKey) : TaskGasState MeterKey :=
  if g.currentActive = newActive then { g with currentActive := newActive }
  else
    let banked := match g.currentActive with
      | some k => { g with meters := g.meters.insert k g.liveGas }
      | none => { g with hostBudget := g.liveGas }
    { banked with
      liveGas := match newActive with
        | some k => (banked.meters.lookup k).getD 0
        | none => banked.hostBudget
      currentActive := newActive }

def rootRemaining (g : TaskGasState MeterKey) : Int :=
  if g.currentActive = g.rootActive then g.liveGas
  else
    match g.rootActive with
    | some k => (g.meters.lookup k).getD 0
    | none => g.hostBudget

end TaskGasState

/-! ## Tasks -/

/-- The result of a task. -/
structure LoopOutcome where
  exitReason : Nat
  exitArg : Nat
  returnValue : Word64
  gasRemaining : Int
  scratchpadHead : List Byte

/-- What a personality tells the loop to do next. -/
inductive Flow where
  | resume
  | done (outcome : LoopOutcome)

/-- One top-level invocation. -/
structure KernelTask (Frame EntryMeta MeterKey : Type) [LinearOrder MeterKey] where
  lane : Nat
  stack : List (StackEntry Frame EntryMeta)
  nextIid : Nat
  gas : TaskGasState MeterKey

/-- What the loop needs from the system of state and capabilities that it drives. -/
structure GuestPersonality (Frame EntryMeta MeterKey Mem Runtime : Type)
    [LinearOrder MeterKey] where
  parts : Frame → FrameParts Mem Runtime
  withParts : Frame → FrameParts Mem Runtime → Frame
  /-- Build the page table of a frame. -/
  buildRuntime : Nat → Frame → Fallible Runtime
  /-- The meter that funds an entry. -/
  activeMeter : List (StackEntry Frame EntryMeta) → Nat → Option MeterKey
  /-- Handle a clean exit. -/
  onHalt : KernelTask Frame EntryMeta MeterKey → ExitInfo →
    Fallible (Flow × KernelTask Frame EntryMeta MeterKey)
  /-- Handle a call of the kernel. -/
  onEcall : KernelTask Frame EntryMeta MeterKey → Nat → ExitInfo →
    Fallible (Flow × KernelTask Frame EntryMeta MeterKey)
  /-- Handle every other exit. -/
  onExit : KernelTask Frame EntryMeta MeterKey → ExitInfo →
    Fallible (Flow × KernelTask Frame EntryMeta MeterKey)

section

variable {Frame EntryMeta MeterKey Mem Runtime : Type} [LinearOrder MeterKey]

def KernelTask.topIdx (task : KernelTask Frame EntryMeta MeterKey) : Nat := task.stack.length - 1

/-- End the task with the remaining gas of its root scope. -/
def KernelTask.finish (task : KernelTask Frame EntryMeta MeterKey) (exitReason exitArg : Nat)
    (returnValue : Word64) (scratchpadHead : List Byte) : Flow :=
  .done
    { exitReason
      exitArg
      returnValue
      gasRemaining := task.gas.rootRemaining
      scratchpadHead }

/-- The context for the entry of a frame: the saved registers, and zero for the spilled ones. -/
def entryContext (initialGas : Int) (entryPc : BitVec 32) (initialRegs : Fin 13 → Word64) :
    JitContext where
  regs slot := if saved : slot.val < 13 then initialRegs ⟨slot.val, saved⟩ else 0
  gas := initialGas
  exitReason := 0
  exitArg := 0
  entryPc
  pc := entryPc

/-- What is kept of the context after an exit: all but the spilled registers. -/
def JitContext.exitInfo (ctx : JitContext) : ExitInfo where
  exitReason := ctx.exitReason
  exitArg := ctx.exitArg
  gasRemaining := ctx.gas
  regs i := ctx.regs (i.castLE (by decide))
  pc := ctx.pc

def entryState (p : FrameParts Mem Runtime) (runtime : Runtime) (gas : Int) :
    Native Mem Runtime where
  ctx := entryContext gas (p.pc.setWidth 32) p.regs
  mem := p.mem
  matState := p.matState
  roUnits := p.roUnits
  runtime

def enterFrame (machine : Machine Mem Runtime) (lane : Nat) (entry : Native Mem Runtime) :
    Fallible (Native Mem Runtime) :=
  if machine.lane entry.runtime ≠ lane then Attempt.crash
  else pure (machine.enterRing3 entry)

variable (personality : GuestPersonality Frame EntryMeta MeterKey Mem Runtime)
  (machine : Machine Mem Runtime)

/-- What a frame is entered with, with its page table built on the first entry. -/
def prepareEntry (lane : Nat) (frame : Frame) (gas : Int) : Fallible (Native Mem Runtime) := do
  let p := personality.parts frame
  match p.runtime with
  | some runtime => return entryState p runtime gas
  | none => return entryState p (← personality.buildRuntime lane frame) gas

def runOneEntry (lane : Nat) (frame : Frame) (gas : Int) : Fallible (ExitInfo × Frame) := do
  let entry ← prepareEntry personality lane frame gas
  let exit ← enterFrame machine lane entry
  return (exit.ctx.exitInfo, personality.withParts frame
    { personality.parts frame with
      mem := exit.mem
      matState := exit.matState
      roUnits := exit.roUnits
      runtime := some exit.runtime })

def saveExit (frame : Frame) (info : ExitInfo) : Frame :=
  personality.withParts frame
    { personality.parts frame with
      regs := info.regs
      pc := info.pc.setWidth 64 }

def topGas (task : KernelTask Frame EntryMeta MeterKey) : TaskGasState MeterKey :=
  task.gas.reconcile (personality.activeMeter task.stack task.topIdx)

/-- Phase 1: run the frame on top and save its state. -/
def runTop (task : KernelTask Frame EntryMeta MeterKey) :
    Fallible (ExitInfo × KernelTask Frame EntryMeta MeterKey) := do
  -- The stack of a live task is not empty.
  if task.stack = [] then Attempt.crash
  else
    let gas := topGas personality task
    let frame ← frameAt task.stack task.topIdx
    let (info, frame) ← runOneEntry personality machine task.lane frame gas.liveGas
    return (info, { task with
      stack := setFrameAt task.stack task.topIdx (saveExit personality frame info)
      gas := { gas with liveGas := info.gasRemaining } })

/-- The number of the operation that a call of the kernel asks for. -/
def ExitInfo.op (info : ExitInfo) : Nat :=
  if info.exitReason = exitHostCall then info.exitArg else ((info.regs 11).setWidth 32).toNat

/-- Phase 2: handle the exit. -/
def dispatchExit (task : KernelTask Frame EntryMeta MeterKey) (info : ExitInfo) :
    Fallible (Flow × KernelTask Frame EntryMeta MeterKey) :=
  if info.exitReason = exitHalt then personality.onHalt task info
  else if info.exitReason = exitHostCall ∨ info.exitReason = exitEcall then
    personality.onEcall task info.op info
  else personality.onExit task info

def pollOnce (task : KernelTask Frame EntryMeta MeterKey) :
    Fallible (Flow × KernelTask Frame EntryMeta MeterKey) := do
  let (info, task) ← runTop personality machine task
  dispatchExit personality task info

end

end Jar.Kernel
