import Jar.Kernel.CallLoop
import Jar.Lib.Activations

/-! The call stack of the kernel as frames of invocations, and the slots of those frames. -/

namespace Jar.Kernel

open Javm
open scoped Word

variable {Runtime : Type}

/-! ## Frames of invocations -/

def ownFrame (e : Entry Runtime) : Option (KernelFrame Runtime) :=
  match e.kind with
  | .instance frame => some frame
  | .reference => none

def frameOf (stack : List (Entry Runtime)) (t : Nat) : Option (KernelFrame Runtime) :=
  stack[t]?.bind ownFrame

def putFrame (stack : List (Entry Runtime)) (t : Nat) (frame : KernelFrame Runtime) :
    List (Entry Runtime) :=
  stack.modify t fun e => { e with kind := .instance frame }

def activations (stack : List (Entry Runtime)) : List Activation :=
  stack.map fun e => ⟨e.target, e.metadata.owner⟩

section

variable {stack : List (Entry Runtime)} {t : Nat} {frame : KernelFrame Runtime}

theorem frameAt_eq_pure {idx : Nat} : frameAt stack idx = pure frame ↔
    ∃ e, stack[idx]? = some e ∧ frameOf stack e.target = some frame := by
  unfold frameAt frameOf
  cases stack[idx]? with
  | none => exact ⟨fun ran => absurd ran Attempt.crash_ne_pure, fun ⟨_, found, _⟩ => nomatch found⟩
  | some e =>
    simp only [Option.some.injEq, exists_eq_left']
    cases held : stack[e.target]? with
    | none => exact ⟨fun ran => absurd ran Attempt.crash_ne_pure, fun found => nomatch found⟩
    | some holder =>
      obtain ⟨kind, target, iid, metadata⟩ := holder
      cases kind with
      | «instance» own =>
        exact ⟨fun ran => congrArg some (Attempt.pure_inj.mp ran),
          fun found => congrArg pure (Option.some.inj found)⟩
      | reference =>
        exact ⟨fun ran => absurd ran Attempt.crash_ne_pure, fun found => nomatch found⟩

theorem setFrameAt_eq {idx : Nat} {e : Entry Runtime} (found : stack[idx]? = some e) :
    setFrameAt stack idx frame = putFrame stack e.target frame := by
  rw [setFrameAt, found]
  rfl

@[simp]
theorem length_putFrame : (putFrame stack t frame).length = stack.length :=
  List.length_modify ..

theorem getElem?_putFrame (i : Nat) : (putFrame stack t frame)[i]? =
    stack[i]?.map fun e => if i = t then { e with kind := .instance frame } else e := by
  rw [putFrame, List.getElem?_modify]
  by_cases same : t = i
  · simp [same]
  · simp [same, Ne.symm same]

theorem map_putFrame {α : Type} (view : Entry Runtime → α)
    (blind : ∀ e kind, view { e with kind } = view e) :
    (putFrame stack t frame).map view = stack.map view := by
  apply List.ext_getElem?
  intro i
  simp only [List.getElem?_map, getElem?_putFrame, Option.map_map]
  congr 1
  funext e
  simp only [Function.comp]
  split
  · exact blind e _
  · rfl

@[simp]
theorem activations_putFrame : activations (putFrame stack t frame) = activations stack :=
  map_putFrame _ fun _ _ => rfl

@[simp]
theorem length_activations : (activations stack).length = stack.length := List.length_map _

theorem getElem?_activations (i : Nat) : (activations stack)[i]? =
    stack[i]?.map fun e => ⟨e.target, e.metadata.owner⟩ := List.getElem?_map

theorem frameOf_putFrame_self {old : KernelFrame Runtime} (held : frameOf stack t = some old) :
    frameOf (putFrame stack t frame) t = some frame := by
  obtain ⟨e, found, -⟩ := Option.bind_eq_some_iff.mp held
  rw [frameOf, getElem?_putFrame, found]
  simp [ownFrame]

theorem frameOf_putFrame_ne {i : Nat} (other : i ≠ t) :
    frameOf (putFrame stack t frame) i = frameOf stack i := by
  rw [frameOf, frameOf, getElem?_putFrame]
  simp [other]

theorem lt_length_of_frameOf (held : frameOf stack t = some frame) : t < stack.length := by
  obtain ⟨e, found, -⟩ := Option.bind_eq_some_iff.mp held
  exact (List.getElem?_eq_some_iff.mp found).1

theorem frameOf_append {more : List (Entry Runtime)} (inside : t < stack.length) :
    frameOf (stack ++ more) t = frameOf stack t := by
  rw [frameOf, frameOf, List.getElem?_append_left inside]

theorem frameOf_concat_length (e : Entry Runtime) :
    frameOf (stack ++ [e]) stack.length = ownFrame e := by
  rw [frameOf, List.getElem?_concat_length, Option.bind_some]

end

/-! ## Slots of a frame -/

/-- The slots of a frame, which are resident while it runs. -/
def KernelFrame.slots (frame : KernelFrame Runtime) : ResidentCNode Runtime :=
  match frame.inst.rootCnode with
  | .owned (.mk _ (.cnode cnode)) => cnode
  | _ => CNodeCap.empty

def KernelFrame.Resident (frame : KernelFrame Runtime) : Prop :=
  ∃ cap cnode, frame.inst.rootCnode = .owned (.mk cap (.cnode cnode))

def putSlot (frame : KernelFrame Runtime) (slot : Key) (target : Option (ResidentTarget Runtime)) :
    KernelFrame Runtime :=
  withRootCnode frame (frame.slots.setKey slot target)

/-- Put a capability into a slot, if there is one. -/
def give (frame : KernelFrame Runtime) (slot : Key) :
    Option (ResidentTarget Runtime) → KernelFrame Runtime
  | some target => putSlot frame slot (some target)
  | none => frame

section

variable {frame frame' : KernelFrame Runtime} {slot : Key}
  {target : Option (ResidentTarget Runtime)}

theorem rootCnode_eq_pure {cnode : ResidentCNode Runtime} :
    rootCnode frame = pure cnode ↔ frame.Resident ∧ frame.slots = cnode := by
  unfold rootCnode KernelFrame.Resident KernelFrame.slots
  split
  next cap cnode' same =>
    rw [same]
    exact ⟨fun ran => ⟨⟨_, _, rfl⟩, Attempt.pure_inj.mp ran⟩, fun both => congrArg pure both.2⟩
  next other =>
    refine ⟨fun ran => absurd ran Attempt.crash_ne_pure, ?_⟩
    rintro ⟨⟨cap, cnode', same⟩, -⟩
    exact absurd same (other cap cnode')

theorem rootCnode_of_resident (resident : frame.Resident) : rootCnode frame = pure frame.slots :=
  rootCnode_eq_pure.mpr ⟨resident, rfl⟩

@[simp]
theorem slots_withRootCnode (resident : frame.Resident) (cnode : ResidentCNode Runtime) :
    (withRootCnode frame cnode).slots = cnode := by
  obtain ⟨cap, old, same⟩ := resident
  simp [withRootCnode, KernelFrame.slots, same]

theorem resident_withRootCnode (resident : frame.Resident) (cnode : ResidentCNode Runtime) :
    (withRootCnode frame cnode).Resident := by
  obtain ⟨cap, old, same⟩ := resident
  exact ⟨cap, cnode, by simp [withRootCnode, same]⟩

theorem frameCnodeSet_eq_pure : frameCnodeSet frame slot target = pure frame' ↔
    frame.Resident ∧ putSlot frame slot target = frame' := by
  simp only [frameCnodeSet, Attempt.bind_eq_pure, rootCnode_eq_pure, Attempt.pure_inj, putSlot]
  constructor
  · rintro ⟨cnode, ⟨resident, rfl⟩, same⟩
    exact ⟨resident, same⟩
  · exact fun ⟨resident, same⟩ => ⟨_, ⟨resident, rfl⟩, same⟩

theorem frameCnodeSet_eq (frame : KernelFrame Runtime) (resident : frame.Resident) (slot : Key)
    (target : Option (ResidentTarget Runtime)) :
    frameCnodeSet frame slot target = pure (putSlot frame slot target) :=
  frameCnodeSet_eq_pure.mpr ⟨resident, rfl⟩

theorem frameCnodeTake_eq_pure {taken : Option (ResidentTarget Runtime)} :
    frameCnodeTake frame slot = pure (taken, frame') ↔
      frame.Resident ∧ frame.slots.peekKey slot = taken ∧ putSlot frame slot none = frame' := by
  simp only [frameCnodeTake, Attempt.bind_eq_pure, rootCnode_eq_pure, Attempt.pure_inj, putSlot,
    CNodeCap.takeKey, Prod.mk.injEq]
  constructor
  · rintro ⟨cnode, ⟨resident, rfl⟩, same⟩
    exact ⟨resident, same⟩
  · exact fun ⟨resident, same⟩ => ⟨_, ⟨resident, rfl⟩, same⟩

theorem frameCnodeTake_eq (frame : KernelFrame Runtime) (resident : frame.Resident) (slot : Key) :
    frameCnodeTake frame slot = pure (frame.slots.peekKey slot, putSlot frame slot none) :=
  frameCnodeTake_eq_pure.mpr ⟨resident, rfl, rfl⟩

theorem cnodePeek_eq_pure : cnodePeek frame slot = pure target ↔
    frame.Resident ∧ frame.slots.peekKey slot = target := by
  simp only [cnodePeek, Attempt.bind_eq_pure, rootCnode_eq_pure, Attempt.pure_inj]
  constructor
  · rintro ⟨cnode, ⟨resident, rfl⟩, same⟩
    exact ⟨resident, same⟩
  · exact fun ⟨resident, same⟩ => ⟨_, ⟨resident, rfl⟩, same⟩

/-! ## What slot writes keep -/

/-- Two frames that differ in their slots only. -/
structure SameButSlots (frame frame' : KernelFrame Runtime) : Prop where
  parts : frame'.parts = frame.parts
  origin : frame'.origin = frame.origin
  pendingOrigins : frame'.pendingOrigins = frame.pendingOrigins
  pinned : frame'.pinned = frame.pinned
  imageHash : frame'.inst.imageHash = frame.inst.imageHash
  imageHashChain : frame'.inst.imageHashChain = frame.inst.imageHashChain
  resident : frame.Resident → frame'.Resident

theorem SameButSlots.refl (frame : KernelFrame Runtime) : SameButSlots frame frame :=
  ⟨rfl, rfl, rfl, rfl, rfl, rfl, id⟩

theorem SameButSlots.trans {frame'' : KernelFrame Runtime} (first : SameButSlots frame frame')
    (second : SameButSlots frame' frame'') : SameButSlots frame frame'' :=
  ⟨second.parts.trans first.parts, second.origin.trans first.origin,
    second.pendingOrigins.trans first.pendingOrigins, second.pinned.trans first.pinned,
    second.imageHash.trans first.imageHash, second.imageHashChain.trans first.imageHashChain,
    fun resident => second.resident (first.resident resident)⟩

theorem sameButSlots_withRootCnode (frame : KernelFrame Runtime) (cnode : ResidentCNode Runtime) :
    SameButSlots frame (withRootCnode frame cnode) := by
  refine ⟨?_, ?_, ?_, ?_, ?_, ?_, fun resident => resident_withRootCnode resident cnode⟩ <;>
    (unfold withRootCnode; split <;> rfl)

theorem sameButSlots_putSlot (frame : KernelFrame Runtime) (slot : Key)
    (target : Option (ResidentTarget Runtime)) : SameButSlots frame (putSlot frame slot target) :=
  sameButSlots_withRootCnode ..

theorem sameButSlots_give (frame : KernelFrame Runtime) (slot : Key)
    (target : Option (ResidentTarget Runtime)) : SameButSlots frame (give frame slot target) := by
  cases target with
  | none => exact .refl frame
  | some target => exact sameButSlots_putSlot ..

theorem slots_putSlot (resident : frame.Resident) :
    (putSlot frame slot target).slots = frame.slots.setKey slot target :=
  slots_withRootCnode resident _

end

end Jar.Kernel
