import Jar.Proofs.FrameChanges

/-! Pinned slots along runs of the kernel: which steps keep what images pin. -/

namespace Jar.Kernel

open Javm Ssz Relation Attempt
open scoped Word

variable {Runtime : Type}

/-! ## Frames and their images -/

section

variable (env : Env)

/-- Every slot that the image of a live frame pins holds what the image pins there. -/
def PinnedHeld (stack : List (Entry Runtime)) : Prop :=
  ∀ (t : Nat) (f : KernelFrame Runtime) (img : ImageCap) (e : ImageSlotEntry),
    frameOf stack t = some f → env.store f.inst.imageHash = some (.image img) → e ∈ img.pinned →
    f.slots.peekKey e.slot = some (.hash e.capHash)

/-- The published images pin each slot once, in ascending order, and not the scratchpad. -/
structure WellPinned : Prop where
  sorted : ∀ h img, env.store h = some (.image img) →
    (img.pinned.map (·.slot)).Pairwise (· < ·)
  scratchpad : ∀ h img, env.store h = some (.image img) →
    scratchpadSlot ∉ img.pinned.map (·.slot)

/-- A frame of a published image whose pending slots are empty, but for the scratchpad. -/
structure Orderly (f : KernelFrame Runtime) : Prop where
  resident : f.Resident
  image : ∃ img, env.store f.inst.imageHash = some (.image img) ∧
    f.pinned = img.pinned.map (·.slot)
  pendingEmpty : ∀ k, slotIsPending f k = true → k ≠ scratchpadSlot → f.slots.entry k = none

/-- A frame holds what its image pins. -/
def HoldsPinned (f : KernelFrame Runtime) : Prop :=
  ∀ (img : ImageCap) (e : ImageSlotEntry), env.store f.inst.imageHash = some (.image img) →
    e ∈ img.pinned → f.slots.peekKey e.slot = some (.hash e.capHash)

end

section

variable {env : Env} {calls : KernelFrame Runtime → Key → Prop} {f f' : KernelFrame Runtime}
  {slot : Key}

/-- Changes that write no slots keep a frame orderly, if no more slots are pending. -/
theorem Orderly.congr (orderly : Orderly env f) (image : f'.inst.imageHash = f.inst.imageHash)
    (pinned : f'.pinned = f.pinned) (root : f'.inst.rootCnode = f.inst.rootCnode)
    (fewer : ∀ k, slotIsPending f' k = true → slotIsPending f k = true) : Orderly env f' := by
  have slots : f'.slots = f.slots := by
    unfold KernelFrame.slots
    rw [root]
  refine ⟨?_, ?_, fun k waits other => ?_⟩
  · obtain ⟨cap, cnode, same⟩ := orderly.resident
    exact ⟨cap, cnode, root.trans same⟩
  · rw [image, pinned]
    exact orderly.image
  · rw [slots]
    exact orderly.pendingEmpty k (fewer k waits) other

theorem Orderly.putSlot (orderly : Orderly env f) (target : Option (ResidentTarget Runtime))
    (free : slotIsPending f slot = true → slot = scratchpadSlot) :
    Orderly env (putSlot f slot target) := by
  have kept := sameButSlots_putSlot f slot target
  refine ⟨kept.resident orderly.resident, ?_, fun k waits other => ?_⟩
  · rw [kept.imageHash, kept.pinned]
    exact orderly.image
  · rw [slotIsPending, kept.pendingOrigins] at waits
    have different : k ≠ slot := by
      rintro rfl
      exact other (free waits)
    rw [slots_putSlot orderly.resident, CNodeCap.entry_setKey_ne _ _ different]
    exact orderly.pendingEmpty k waits other

/-- Forgetting that a slot waits keeps a frame orderly. -/
theorem Orderly.withoutPending (orderly : Orderly env f) (slot : Key) :
    Orderly env (withoutPending f slot) := by
  refine orderly.congr rfl rfl rfl fun k waits => ?_
  by_cases same : k = slot
  · rw [same, slotIsPending, Kernel.withoutPending, SortedMap.lookup_remove_self] at waits
    cases waits
  · rwa [slotIsPending, Kernel.withoutPending, SortedMap.lookup_remove_ne _ same] at waits

/-- Every change keeps a frame orderly. -/
theorem Orderly.touch (orderly : Orderly env f) (touch : Touch calls f f') : Orderly env f' := by
  cases touch with
  | ran p => exact orderly.congr rfl rfl rfl fun k => id
  | edited edit =>
    -- The guest only writes slots that are not pending.
    cases edit with
    | one cap free =>
      refine orderly.putSlot _ fun waits => ?_
      rw [(free_of_slotWriteBlocked free).2] at waits
      cases waits
    | @two slot slot' cap cap' free free' =>
      have first : Orderly env (Kernel.putSlot f slot (some (.owned cap))) :=
        orderly.putSlot _ fun waits => by
          rw [(free_of_slotWriteBlocked free).2] at waits
          cases waits
      refine first.putSlot _ fun waits => ?_
      rw [slotIsPending, (sameButSlots_putSlot f slot _).pendingOrigins, ← slotIsPending,
        (free_of_slotWriteBlocked free').2] at waits
      cases waits
  | received target =>
    cases target with
    | none => exact orderly
    | some target => exact orderly.putSlot _ fun _ => rfl
  | sent => exact orderly.putSlot _ fun _ => rfl
  | @called slot asked free =>
    have kept := sameButSlots_putSlot f slot none
    have emptied : Orderly env (Kernel.putSlot f slot none) := by
      refine orderly.putSlot _ fun waits => ?_
      rw [free] at waits
      cases waits
    refine ⟨emptied.resident, emptied.image, fun k waits other => ?_⟩
    change (Kernel.putSlot f slot none).slots.entry k = none
    by_cases same : k = slot
    · -- The called slot was just emptied.
      rw [same, slots_putSlot orderly.resident]
      exact CNodeCap.entry_remove_self _
    · refine emptied.pendingEmpty k ?_ other
      rwa [slotIsPending, withPending, SortedMap.lookup_insert_ne _ _ same] at waits
  | @returned slot cap waits =>
    refine (orderly.withoutPending slot).putSlot _ fun waits => ?_
    rw [slotIsPending, Kernel.withoutPending, SortedMap.lookup_remove_self] at waits
    cases waits
  | forgot fewer => exact orderly.congr rfl rfl rfl fewer

theorem FrameBuilt.orderly {inst : InstanceCap Cap} {cached : Option (ResidentCNode Runtime)}
    {origin : Option FrameOrigin} (built : FrameBuilt env inst cached origin f) :
    Orderly env f := by
  obtain ⟨img, cnode, stored, -, -, pinned⟩ := built.image
  refine ⟨built.resident, ⟨img, by rw [built.imageHash, stored], pinned⟩, fun k waits => ?_⟩
  rw [slotIsPending, built.pendingOrigins] at waits
  cases waits

theorem Started.orderly (started : Started env f) : Orderly env f := by
  cases started with
  | @mk inst cached origin child slots built =>
    have kept := sameButSlots_withRootCnode child (inheritSlots slots child.slots)
    have orderly := built.orderly
    refine ⟨kept.resident orderly.resident, ?_, fun k waits => ?_⟩
    · rw [kept.imageHash, kept.pinned]
      exact orderly.image
    · rw [slotIsPending, kept.pendingOrigins, built.pendingOrigins] at waits
      cases waits

theorem Reachable.orderly {machine : KernelMachine Runtime} {t : Task Runtime}
    (reached : Reachable env machine t) :
    ∀ i f, frameOf t.stack i = some f → Orderly env f := by
  induction reached with
  | start started =>
    obtain ⟨inst, f, gas, stored, built, scope, rfl⟩ := newTask_eq_pure started
    intro i g held
    cases i with
    | zero =>
      cases held
      exact built.orderly
    | succ i => cases held
  | step reached polled ih =>
    obtain ⟨info, s, ran, handled⟩ := pollOnce_eq_pure polled
    have ranTop := runTop_eq_pure ran
    have sound := reached.sound.ranTop ranTop
    have effect := Ends.of_pure sound.steps handled
    have ranTouches : Touches env (fun _ _ => True) _ s.stack := ranTop.touches
    have middle := ranTouches.forall_frames (fun f f' touch orderly => orderly.touch touch)
      (fun f started => started.orderly) ih
    exact (effect.touches sound.integrity).forall_frames
      (fun f f' touch orderly => orderly.touch touch) (fun f started => started.orderly) middle

/-! ## Steps that keep pinned slots -/

/-- An orderly frame that holds what its image pins. -/
structure KeepsPinned (env : Env) (f : KernelFrame Runtime) : Prop extends Orderly env f where
  holds : HoldsPinned env f

theorem HoldsPinned.putSlot (holds : HoldsPinned env f) (orderly : Orderly env f)
    (other : slot ∉ f.pinned) (target : Option (ResidentTarget Runtime)) :
    HoldsPinned env (putSlot f slot target) := by
  intro img e stored member
  rw [(sameButSlots_putSlot f slot target).imageHash] at stored
  -- The frame's list of pinned slots is that of its image.
  obtain ⟨img', stored', pinned⟩ := orderly.image
  obtain rfl : img = img' := by
    rw [stored] at stored'
    cases stored'
    rfl
  have different : e.slot ≠ slot := by
    rintro rfl
    exact other (pinned ▸ List.mem_map_of_mem member)
  rw [slots_putSlot orderly.resident, CNodeCap.peekKey_setKey_ne _ _ different]
  exact holds img e stored member

theorem WellPinned.scratchpad_notMem (wellPinned : WellPinned env) (orderly : Orderly env f) :
    scratchpadSlot ∉ f.pinned := by
  obtain ⟨img, stored, pinned⟩ := orderly.image
  rw [pinned]
  exact wellPinned.scratchpad _ img stored

theorem WellPinned.sorted_pinned (wellPinned : WellPinned env) (orderly : Orderly env f) :
    f.pinned.Pairwise (· < ·) := by
  obtain ⟨img, stored, pinned⟩ := orderly.image
  rw [pinned]
  exact wellPinned.sorted _ img stored

/-- A slot that waits for its instance is not pinned, if the frame holds what is pinned. -/
theorem KeepsPinned.notMem_of_pending (keeps : KeepsPinned env f) (wellPinned : WellPinned env)
    (waits : slotIsPending f slot = true) : slot ∉ f.pinned := by
  intro member
  obtain ⟨img, stored, pinned⟩ := keeps.image
  have other : slot ≠ scratchpadSlot := by
    rintro rfl
    exact wellPinned.scratchpad_notMem keeps.toOrderly member
  rw [pinned] at member
  obtain ⟨e, pins, rfl⟩ := List.mem_map.mp member
  -- A pending slot is empty, a pinned one is not.
  have held := keeps.holds img e stored pins
  rw [CNodeCap.peekKey, keeps.pendingEmpty _ waits other] at held
  cases held

/-- Every change keeps pinned slots, unless it calls one. -/
theorem KeepsPinned.touch (keeps : KeepsPinned env f) (wellPinned : WellPinned env)
    (safe : ∀ f slot, calls f slot → slot ∉ f.pinned) (touch : Touch calls f f') :
    KeepsPinned env f' := by
  refine ⟨keeps.toOrderly.touch touch, ?_⟩
  cases touch with
  | ran p => exact keeps.holds
  | edited edit =>
    have sorted := wellPinned.sorted_pinned keeps.toOrderly
    cases edit with
    | one cap free =>
      exact keeps.holds.putSlot keeps.toOrderly ((free_of_slotWriteBlocked free).1 sorted) _
    | @two slot slot' cap cap' free free' =>
      have unpinned := (free_of_slotWriteBlocked free).1 sorted
      have unpinned' := (free_of_slotWriteBlocked free').1 sorted
      refine (keeps.holds.putSlot keeps.toOrderly unpinned _).putSlot ?_ ?_ _
      · refine keeps.toOrderly.putSlot _ fun waits => ?_
        rw [(free_of_slotWriteBlocked free).2] at waits
        cases waits
      · rwa [(sameButSlots_putSlot f slot _).pinned]
  | received target =>
    cases target with
    | none => exact keeps.holds
    | some target =>
      exact keeps.holds.putSlot keeps.toOrderly (wellPinned.scratchpad_notMem keeps.toOrderly) _
  | sent =>
    exact keeps.holds.putSlot keeps.toOrderly (wellPinned.scratchpad_notMem keeps.toOrderly) _
  | called asked free => exact keeps.holds.putSlot keeps.toOrderly (safe f _ asked) none
  | @returned slot cap waits =>
    have holds : HoldsPinned env (withoutPending f slot) := keeps.holds
    exact holds.putSlot (keeps.toOrderly.withoutPending slot)
      (keeps.notMem_of_pending wellPinned waits :) _
  | forgot fewer => exact keeps.holds

theorem FrameBuilt.keepsPinned {inst : InstanceCap Cap} {cached : Option (ResidentCNode Runtime)}
    {origin : Option FrameOrigin} (wellPinned : WellPinned env)
    (built : FrameBuilt env inst cached origin f) : KeepsPinned env f := by
  refine ⟨built.orderly, fun img e stored member => ?_⟩
  obtain ⟨img', cnode, stored', -, slots, -⟩ := built.image
  obtain rfl : img = img' := by
    rw [built.imageHash, stored'] at stored
    cases stored
    rfl
  rw [slots]
  exact peekKey_overlayImageSlots ((wellPinned.sorted _ _ stored').imp ne_of_lt) cnode member

theorem Started.keepsPinned (wellPinned : WellPinned env) (started : Started env f) :
    KeepsPinned env f := by
  refine ⟨started.orderly, fun img e stored member => ?_⟩
  cases started with
  | @mk inst cached origin child slots built =>
    have keeps := built.keepsPinned wellPinned
    rw [(sameButSlots_withRootCnode child _).imageHash] at stored
    rw [slots_withRootCnode keeps.resident]
    exact peekKey_inheritSlots _ _ (keeps.holds img e stored member)

end

/-! ## Runs -/

section

variable {env : Env} {machine : KernelMachine Runtime} {t s t' : Task Runtime} {info : ExitInfo}

theorem pinnedHeld_iff {stack : List (Entry Runtime)} :
    PinnedHeld env stack ↔ ∀ i f, frameOf stack i = some f → HoldsPinned env f :=
  ⟨fun held i f found img e stored member => held i f img e found stored member,
    fun all i f img e found stored member => all i f found img e stored member⟩

/-- No call of a slot that the caller's image pins. -/
def CallsUnpinned (env : Env) (s : Task Runtime) (info : ExitInfo) : Prop :=
  ∀ f slot, CallsSlot env s info f slot → slot ∉ f.pinned

/-- Pinned slots stay as they are until the exit is handled, and after it if no pinned slot is
called. -/
theorem PinnedHeld.step (wellPinned : WellPinned env) (reached : Reachable env machine t)
    (held : PinnedHeld env t.stack)
    (ran : runTop (javm env machine) machine.toMachine t = pure (info, s))
    (handled : dispatchExit (javm env machine) s info = pure (.resume, t'))
    (safe : CallsUnpinned env s info) : PinnedHeld env t'.stack := by
  have ranTop := runTop_eq_pure ran
  have sound := reached.sound.ranTop ranTop
  have effect := Ends.of_pure sound.steps handled
  have before : ∀ i f, frameOf t.stack i = some f → KeepsPinned env f :=
    fun i f found => ⟨reached.orderly i f found, pinnedHeld_iff.mp held i f found⟩
  -- Running the frame on top calls no slot.
  have ranTouches : Touches env (fun _ _ => False) t.stack s.stack := ranTop.touches
  have middle := ranTouches.forall_frames
    (fun f f' touch keeps => keeps.touch wellPinned (fun _ _ no => no.elim) touch)
    (fun f started => started.keepsPinned wellPinned) before
  have after := (effect.touches sound.integrity).forall_frames
    (fun f f' touch keeps => keeps.touch wellPinned safe touch)
    (fun f started => started.keepsPinned wellPinned) middle
  exact pinnedHeld_iff.mpr fun i f found => (after i f found).holds

theorem Effect.peekKey_called {rearmCow : Runtime → List Nat → Runtime} {top : Entry Runtime}
    {f : KernelFrame Runtime} (effect : Effect env rearmCow s info t')
    (asked : Asks info opHostCall) (last : s.stack.getLast? = some top)
    (held : frameOf s.stack top.target = some f) (resident : f.Resident) :
    ∃ f', frameOf t'.stack top.target = some f' ∧ f'.inst.imageHash = f.inst.imageHash ∧
      f'.slots.peekKey (Key.ofReg (f.inst.regs 7)) = none := by
  have other : ∀ {op : Nat}, op ≠ opHostCall → ¬ Asks info op := by
    rintro op different ⟨-, same⟩
    exact different (same.symm.trans asked.2)
  -- No other operation is asked for.
  have notFinishes : ¬ Finishes info := by
    rintro (halts | replies)
    · rcases asked.1 with call | call <;> (rw [halts] at call; cases call)
    · exact other (by decide) replies
  cases effect with
  | edited last held asked edit =>
    rcases asked with spawns | identifies | ⟨yields, -⟩
    · exact absurd spawns (other (by decide))
    · exact absurd identifies (other (by decide))
    · exact absurd yields (other (by decide))
  | metered last held asked named => exact absurd asked (other (by decide))
  | yielded last held asked named _ read caught => exact absurd asked (other (by decide))
  | replied finishes last own returned => exact absurd finishes notFinishes
  | unwound finishes last _ returned => exact absurd finishes notFinishes
  | resumed last _ asked held under waiting lower => exact absurd asked (other (by decide))
  | dropped last _ asked => exact absurd asked (other (by decide))
  | @called top' f' parent child catchSet gas last' held' asked calls funded =>
    obtain rfl := Option.some.inj (last.symm.trans last')
    obtain rfl := Option.some.inj (held.symm.trans held')
    cases calls with
    | @mk slot callee child named free held'' built =>
      have opened := sameButSlots_putSlot f slot none
      have taken := sameButSlots_putSlot (withPending (putSlot f slot none) slot) scratchpadSlot none
      refine ⟨_, ?_, taken.imageHash.trans opened.imageHash, ?_⟩
      · rw [frameOf_append (by rw [length_putFrame]; exact lt_length_of_frameOf held)]
        exact frameOf_putFrame_self held
      · have emptied : (withPending (putSlot f slot none) slot).slots.peekKey slot = none := by
          change (putSlot f slot none).slots.peekKey slot = none
          rw [slots_putSlot resident, CNodeCap.peekKey_setKey_self]
        have residentParent : (withPending (putSlot f slot none) slot).Resident :=
          opened.resident resident
        rw [← named, slots_putSlot residentParent]
        by_cases same : slot = scratchpadSlot
        · rw [same, CNodeCap.peekKey_setKey_self]
        · rw [CNodeCap.peekKey_setKey_ne _ _ same]
          exact emptied

theorem PinnedHeld.callsUnpinned (reached : Reachable env machine t)
    (ran : runTop (javm env machine) machine.toMachine t = pure (info, s))
    (handled : dispatchExit (javm env machine) s info = pure (.resume, t'))
    (held : PinnedHeld env t'.stack) : CallsUnpinned env s info := by
  rintro f slot ⟨pays, asked, ⟨top, last, found⟩, rfl⟩ member
  have ranTop := runTop_eq_pure ran
  have sound := reached.sound.ranTop ranTop
  have ranTouches : Touches env (fun _ _ => True) t.stack s.stack := ranTop.touches
  have orderly := ranTouches.forall_frames (fun f f' touch orderly => Orderly.touch orderly touch)
    (fun f started => started.orderly) reached.orderly top.target f found
  have effect : ∃ s₀, s₀.stack = s.stack ∧ Effect env machine.rearmCow s₀ info t' := by
    cases Ends.of_pure sound.steps handled with
    | halted reason handles => exact ⟨s, rfl, handles⟩
    | @paid cost _ pays nonneg handles => exact ⟨charge s cost, rfl, handles⟩
    | unpaid why free unpaid =>
      rw [free] at pays
      cases pays
  obtain ⟨s₀, same, effect⟩ := effect
  obtain ⟨f', found', image, empty⟩ := effect.peekKey_called asked (by rw [same]; exact last)
    (by rw [same]; exact found) orderly.resident
  -- The image of the caller pins the slot that is empty now.
  obtain ⟨img, stored, pinned⟩ := orderly.image
  rw [pinned] at member
  obtain ⟨e, pins, sameSlot⟩ := List.mem_map.mp member
  have holds := held top.target f' img e found' (by rw [image, stored]) pins
  rw [sameSlot, empty] at holds
  cases holds

/-- The runs in which no pinned slot is called. -/
inductive UnpinnedRun (env : Env) (machine : KernelMachine Runtime) : Task Runtime → Prop
  | start {lane : Nat} {root : CapHash} {endpointIdx : BitVec 32} {args : Fin 4 → Word64}
      {initialGas : Int} {t : Task Runtime}
      (started : newTask env lane root endpointIdx args initialGas = pure t) :
      UnpinnedRun env machine t
  | step {t s t' : Task Runtime} {info : ExitInfo} (run : UnpinnedRun env machine t)
      (ran : runTop (javm env machine) machine.toMachine t = pure (info, s))
      (safe : CallsUnpinned env s info)
      (handled : dispatchExit (javm env machine) s info = pure (.resume, t')) :
      UnpinnedRun env machine t'

theorem UnpinnedRun.reachable (run : UnpinnedRun env machine t) : Reachable env machine t := by
  induction run with
  | start started => exact .start started
  | step run ran safe handled reached =>
    refine reached.step ?_
    unfold pollOnce
    rw [ran]
    exact handled

/-- If no image pins the scratchpad or lists its pinned slots out of order, pinned slots are held
along every run that calls none of them, and exactly the steps that call one break them. -/
theorem pinnedHeld_iff_callsUnpinned (wellPinned : WellPinned env) :
    (∀ t : Task Runtime, UnpinnedRun env machine t → PinnedHeld env t.stack) ∧
    ∀ (t s t' : Task Runtime) (info : ExitInfo), Reachable env machine t →
      PinnedHeld env t.stack →
      runTop (javm env machine) machine.toMachine t = pure (info, s) →
      dispatchExit (javm env machine) s info = pure (.resume, t') →
      (PinnedHeld env t'.stack ↔ CallsUnpinned env s info) := by
  constructor
  · intro t run
    induction run with
    | start started =>
      obtain ⟨inst, f, gas, stored, built, scope, rfl⟩ := newTask_eq_pure started
      refine pinnedHeld_iff.mpr fun i g found => ?_
      cases i with
      | zero =>
        cases found
        exact (built.keepsPinned wellPinned).holds
      | succ i => cases found
    | step run ran safe handled held => exact held.step wellPinned run.reachable ran handled safe
  · intro t s t' info reached held ran handled
    exact ⟨PinnedHeld.callsUnpinned reached ran handled, held.step wellPinned reached ran handled⟩

end

theorem wellPinned_smallEnv {pinned initial : List ImageSlotEntry}
    (sorted : (pinned.map (·.slot)).Pairwise (· < ·))
    (scratchpad : scratchpadSlot ∉ pinned.map (·.slot)) :
    WellPinned (smallEnv (smallImage pinned initial)) := by
  -- Only one image is published.
  have only : ∀ h img, (smallEnv (smallImage pinned initial)).store h = some (.image img) →
      img = smallImage pinned initial := by
    intro h img stored
    unfold smallEnv at stored
    simp only at stored
    split at stored
    · cases stored
      rfl
    · split at stored <;> cases stored
  refine ⟨fun h img stored => ?_, fun h img stored => ?_⟩
  · rw [only h img stored]
    exact sorted
  · rw [only h img stored]
    exact scratchpad

/-- An image that pins one slot and starts with an instance in another one. -/
def pinsOther : ImageCap := smallImage [⟨[6], hashOf 2⟩] [⟨[5], hashOf 2⟩]

/-- Call the instance in a slot, over and over. -/
def callsFive : KernelMachine Unit := smallMachine opHostCall fun i => if i = 7 then 5 else 0

/-- The slot that the frame on top would call, the slots that it pins, and the height of the stack
after the step. -/
def calledSlot (s t' : Task Unit) : Option (Key × List Key) × Nat :=
  ((s.stack.getLast?.bind fun top => frameOf s.stack top.target).map
    fun f => (Key.ofReg (f.inst.regs 7), f.pinned), t'.stack.length)

/-- A call of an unpinned slot keeps what the image pins elsewhere, in the caller and in the
callee. -/
theorem pinnedHeld_iff_callsUnpinned_call : ∃ t : Task Unit,
    UnpinnedRun (smallEnv pinsOther) callsFive t ∧ t.stack.length = 2 ∧
      PinnedHeld (smallEnv pinsOther) t.stack := by
  have wellPinned : WellPinned (smallEnv pinsOther) := wellPinned_smallEnv (by decide) (by decide)
  have shows : ((taskAfter (smallEnv pinsOther) callsFive zeroHash 100000 0).bind
      (stepParts (smallEnv pinsOther) callsFive)).map (fun step => calledSlot step.2.1 step.2.2) =
        some (some ([5], [[6]]), 2) := by decide +kernel
  obtain ⟨t, s, t', info, started, ran, handled, shown⟩ := exists_firstStep (smallEnv pinsOther)
    callsFive zeroHash 100000 (fun _ => calledSlot) shows
  obtain ⟨called, two⟩ := Prod.mk.inj shown
  have safe : CallsUnpinned (smallEnv pinsOther) s info := by
    rintro f slot ⟨-, -, ⟨top, last, found⟩, rfl⟩
    rw [last, Option.bind_some, found, Option.map_some] at called
    obtain ⟨slot, pinned⟩ := Prod.mk.inj (Option.some.inj called)
    rw [slot, pinned]
    decide
  have run : UnpinnedRun (smallEnv pinsOther) callsFive t' := .step (.start started) ran safe handled
  exact ⟨t', run, two, (pinnedHeld_iff_callsUnpinned wellPinned).1 t' run⟩

/-! ## Runs that break pinned slots -/

/-- An image that pins data in the scratchpad, and a guest that spawns an instance and calls it. -/
def pinsScratchpad : ImageCap := smallImage [⟨[0], hashOf 9⟩] []

/-- Spawn an instance of the own image into a slot, and call it. -/
def spawnAndCall : KernelMachine Unit :=
  scriptMachine fun pc =>
    if pc = 0 then (opDeriveSpawn, fun i => if i = 7 then 5 else if i = 9 then 6 else 0)
    else (opHostCall, fun i => if i = 7 then 6 else 0)

def firstFrameShows (slot : Key) (t : Task Unit) : Option (Bool × Bool) :=
  (frameOf t.stack 0).map fun f =>
    (decide (f.inst.imageHash = hashOf 1), (f.slots.peekKey slot).isNone)

theorem not_pinnedHeld_of_firstFrameShows {image : ImageCap} {e : ImageSlotEntry} {t : Task Unit}
    (pins : e ∈ image.pinned) (shows : firstFrameShows e.slot t = some (true, true)) :
    ¬ PinnedHeld (smallEnv image) t.stack := by
  intro held
  obtain ⟨f, found, shown⟩ := Option.map_eq_some_iff.mp shows
  obtain ⟨same, empty⟩ := Prod.mk.inj shown
  have stored : (smallEnv image).store f.inst.imageHash = some (.image image) := by
    rw [of_decide_eq_true same]
    rfl
  have holds := held 0 f image e found stored pins
  rw [holds] at empty
  cases empty

/-- A call moves pinned data out of the scratchpad of the caller, and the call of a pinned instance
empties its slot. -/
theorem pinnedHeld_fails :
    (∃ t, Reachable (smallEnv pinsScratchpad) spawnAndCall t ∧
      ¬ PinnedHeld (smallEnv pinsScratchpad) t.stack) ∧
    ∃ t, Reachable (smallEnv (smallImage [⟨[5], hashOf 2⟩] [])) callsFive t ∧
      ¬ PinnedHeld (smallEnv (smallImage [⟨[5], hashOf 2⟩] [])) t.stack := by
  constructor
  · obtain ⟨t, reached, shows⟩ := exists_reachable (smallEnv pinsScratchpad) spawnAndCall zeroHash
      100000 2 (firstFrameShows [0]) rfl
    exact ⟨t, reached, not_pinnedHeld_of_firstFrameShows List.mem_cons_self shows⟩
  · obtain ⟨t, reached, shows⟩ := exists_reachable (smallEnv (smallImage [⟨[5], hashOf 2⟩] []))
      callsFive zeroHash 100000 1 (firstFrameShows [5]) rfl
    exact ⟨t, reached, not_pinnedHeld_of_firstFrameShows List.mem_cons_self shows⟩

end Jar.Kernel
