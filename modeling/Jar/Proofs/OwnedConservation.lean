import Jar.Proofs.Census
import Jar.Proofs.PinnedSlots
import Jar.Proofs.Scratchpad

/-! Owned capabilities along runs of the kernel: which steps neither lose nor copy any. -/

namespace Jar.Kernel

open Javm Ssz Relation Attempt
open scoped Word

variable {Runtime : Type}

/-! ## Stacks between steps -/

/-- What holds of the stack of a reachable task. -/
structure Settled (env : Env) (stack : List (Entry Runtime)) : Prop where
  integrity : Integrity stack
  orderly : ∀ i f, frameOf stack i = some f → Orderly env f
  scratchpads : ScratchpadsEmpty stack

section

variable {env : Env} {stack stack' : List (Entry Runtime)} {top : Entry Runtime}

theorem Settled.touches {calls : KernelFrame Runtime → Key → Prop} (settled : Settled env stack)
    (touches : Touches env calls stack stack') (integrity : Integrity stack')
    (scratchpads : ScratchpadsEmpty stack') : Settled env stack' where
  integrity
  orderly := touches.forall_frames (fun _ _ touch orderly => orderly.touch touch)
    (fun _ started => started.orderly) settled.orderly
  scratchpads

theorem Settled.dropped (settled : Settled env stack) (last : stack.getLast? = some top) :
    Settled env (dropped stack (top.target + 1)) :=
  settled.touches (.dropped _ : Touches env (fun _ _ => True) _ _)
    (settled.integrity.dropped (Nat.succ_pos _))
    (settled.scratchpads.dropped settled.integrity.toStackShape last)

theorem Reachable.settled {machine : KernelMachine Runtime} {t : Task Runtime}
    (reached : Reachable env machine t) : Settled env t.stack :=
  ⟨reached.sound.integrity, reached.orderly, reached.scratchpadsEmpty⟩

theorem Settled.ranTop {machine : KernelMachine Runtime} {t s : Task Runtime} {info : ExitInfo}
    (settled : Settled env t.stack) (ran : RanTop env machine t info s) : Settled env s.stack :=
  settled.touches (ran.touches : Touches env (fun _ _ => True) _ _) (settled.integrity.ranTop ran)
    (settled.scratchpads.ranTop ran)

/-! ## What catches and returns move -/

/-- A payload arrives in the empty scratchpad of the catcher. -/
theorem Caught.census {payload : Option (InstanceCap Cap)} (settled : Settled env stack)
    (last : stack.getLast? = some top) (caught : Caught stack top.target payload stack') :
    stackCensus stack' = stackCensus stack +
      targetCensus (payload.map fun inst => (.owned (.new (.inst inst)) : ResidentTarget Runtime)) := by
  cases caught with
  | @mk c e f caller found held =>
    have shape := settled.integrity.toStackShape
    have empty := settled.scratchpads c f (.of_caller shape last caller) held
    generalize payload.map (fun inst => (.owned (.new (.inst inst)) : ResidentTarget Runtime)) =
      target
    have given := frameCensus_give (settled.orderly c f held).resident scratchpadSlot target
    rw [replaced_eq_zero.mpr fun _ => by rw [empty]; exact id, add_zero] at given
    have put : stackCensus (putFrame stack c (setReg (give f scratchpadSlot target) 8
        statusYielded)) + frameCensus f =
        stackCensus stack + frameCensus (give f scratchpadSlot target) :=
      stackCensus_putFrame held _
    -- The handler has no frame of its own.
    rw [stackCensus_append, stackCensus_singleton]
    apply add_right_cancel (b := frameCensus f)
    rw [show ∀ a b : Multiset CapId, a + b + frameCensus f = a + frameCensus f + b from
      fun a b => by abel, put, given]
    change _ + 0 = _
    abel

/-- What is lost with a frame that was called out of the scratchpad of its caller: its instance
goes there, over what it returned. -/
def lostScratchpad (popped : KernelFrame Runtime) : Multiset CapId :=
  if popped.origin.map (·.slot) = some scratchpadSlot then
    targetCensus (popped.slots.peekKey scratchpadSlot)
  else 0

theorem census_park (rearmCow : Runtime → List Nat → Runtime) (popped : KernelFrame Runtime) :
    census (park rearmCow popped) = frameCensus popped := by
  unfold park frameCensus cnodeCensus
  obtain ⟨slots⟩ := popped.slots
  rw [census]

/-- A frame that returns gives its caller the scratchpad and the instance. -/
theorem Returned.census {rearmCow : Runtime → List Nat → Runtime} {value : Word64}
    {popped : KernelFrame Runtime} (settled : Settled env stack)
    (last : stack.getLast? = some top) (own : ownFrame top = some popped)
    (returned : Returned rearmCow value stack stack') :
    stackCensus stack' + lostScratchpad popped = stackCensus stack := by
  cases returned with
  | @mk base e below popped' parent k own' under held origin =>
    obtain rfl : e = top := Option.some.inj (List.getLast?_concat.symm.trans last)
    obtain rfl := Option.some.inj (own.symm.trans own')
    have shape := settled.integrity.toStackShape
    have heldParent : frameOf (base ++ [e]) below.target = some parent := by
      rw [frameOf_append (lt_length_of_frameOf held), held]
    have heldPopped : frameOf (base ++ [e]) base.length = some popped := by
      rw [frameOf_concat_length, own]
    have orderly := settled.orderly _ parent heldParent
    have empty := settled.scratchpads _ parent (.of_own shape own under) heldParent
    -- The slot of the instance is empty while it runs.
    have waits : slotIsPending parent k = true :=
      (settled.integrity.pending below.target parent k heldParent).mpr
        ⟨base.length, popped, heldPopped, origin⟩
    generalize scratch : popped.slots.peekKey scratchpadSlot = target
    have given := frameCensus_give (f := setReg (setReg parent 7 value) 8 statusOk)
      orderly.resident scratchpadSlot target
    rw [replaced_eq_zero.mpr fun _ => by
      change ¬ IsOwned (parent.slots.peekKey scratchpadSlot)
      rw [empty]
      exact id, add_zero] at given
    have given : frameCensus (reflect parent value target) =
      frameCensus parent + targetCensus target := given
    have kept := sameButSlots_give (setReg (setReg parent 7 value) 8 statusOk) scratchpadSlot target
    have restored := frameCensus_putSlot (f := withoutPending (reflect parent value target) k)
      (kept.resident orderly.resident) k
      (some (.owned (park rearmCow (putSlot popped scratchpadSlot none))))
    have taken := frameCensus_putSlot (settled.orderly _ popped heldPopped).resident scratchpadSlot
      none
    rw [scratch] at taken
    have replaces : targetCensus ((withoutPending (reflect parent value target) k).slots.peekKey k) =
        lostScratchpad popped := by
      change targetCensus ((give (setReg (setReg parent 7 value) 8 statusOk) scratchpadSlot
        target).slots.peekKey k) = _
      rw [lostScratchpad, origin, Option.map_some, scratch]
      by_cases same : k = scratchpadSlot
      · rw [same, if_pos rfl]
        cases target with
        | none => exact congrArg targetCensus empty
        | some target =>
          have resident : (setReg (setReg parent 7 value) 8 statusOk).Resident := orderly.resident
          rw [give, slots_putSlot resident, CNodeCap.peekKey_setKey_self]
      · rw [if_neg fun eq => same (Option.some.inj eq)]
        have free : parent.slots.peekKey k = none := by
          rw [CNodeCap.peekKey, orderly.pendingEmpty k waits same]
        cases target with
        | none => exact congrArg targetCensus free
        | some target =>
          have resident : (setReg (setReg parent 7 value) 8 statusOk).Resident := orderly.resident
          rw [give, slots_putSlot resident, CNodeCap.peekKey_setKey_ne _ _ same]
          exact congrArg targetCensus free
    rw [replaces] at restored
    have put := stackCensus_putFrame held (putSlot
      (withoutPending (reflect parent value target) k) k
      (some (.owned (park rearmCow (putSlot popped scratchpadSlot none)))))
    have whole : stackCensus (base ++ [e]) = stackCensus base + frameCensus popped := by
      rw [stackCensus_append, stackCensus_singleton, ownCensus, own]
    have parked : targetCensus (some (.owned (park rearmCow (putSlot popped scratchpadSlot none)))) =
      frameCensus (putSlot popped scratchpadSlot none) := census_park rearmCow _
    have none_ : targetCensus (none : Option (ResidentTarget Runtime)) = 0 := rfl
    have same : frameCensus (withoutPending (reflect parent value target) k) =
      frameCensus (reflect parent value target) := rfl
    rw [parked, same, given] at restored
    rw [none_, add_zero] at taken
    rw [whole]
    apply add_right_cancel (b := frameCensus parent)
    calc _ = stackCensus (putFrame base below.target _) + frameCensus parent +
          lostScratchpad popped := by abel
      _ = stackCensus base + (frameCensus (putSlot _ k _) + lostScratchpad popped) := by
          rw [put]; abel
      _ = stackCensus base + (frameCensus (putSlot popped scratchpadSlot none) +
          targetCensus target) + frameCensus parent := by rw [restored]; abel
      _ = _ := by rw [taken]

/-- A handler that resumes gives its scratchpad to the frame that it caught from. -/
theorem census_resumed {below : Entry Runtime} {handler yielder : KernelFrame Runtime}
    (settled : Settled env stack) (last : stack.getLast? = some top)
    (other : top.target ≠ stack.length - 1) (held : frameOf stack top.target = some handler)
    (under : stack.dropLast.getLast? = some below)
    (waiting : frameOf stack below.target = some yielder) (lower : top.target < below.target) :
    stackCensus (putFrame (putFrame stack.dropLast top.target
        (putSlot handler scratchpadSlot none)) below.target
      (setReg (give yielder scratchpadSlot (handler.slots.peekKey scratchpadSlot)) 8 statusOk)) +
      replaced yielder scratchpadSlot (handler.slots.peekKey scratchpadSlot) =
    stackCensus stack := by
  obtain ⟨handlerHeld, yielderHeld⟩ :=
    settled.integrity.frames_dropLast last other held under waiting lower
  have yielderHeld' : frameOf (putFrame stack.dropLast top.target
      (putSlot handler scratchpadSlot none)) below.target = some yielder := by
    rw [frameOf_putFrame_ne (Nat.ne_of_gt lower), yielderHeld]
  generalize response : handler.slots.peekKey scratchpadSlot = target
  have taken := frameCensus_putSlot (settled.orderly _ handler held).resident scratchpadSlot none
  rw [response, show targetCensus (none : Option (ResidentTarget Runtime)) = 0 from rfl,
    add_zero] at taken
  have given := frameCensus_give (settled.orderly _ yielder waiting).resident scratchpadSlot target
  have put := stackCensus_putFrame handlerHeld (putSlot handler scratchpadSlot none)
  have put' : stackCensus (putFrame (putFrame stack.dropLast top.target
      (putSlot handler scratchpadSlot none)) below.target
      (setReg (give yielder scratchpadSlot target) 8 statusOk)) + frameCensus yielder =
      stackCensus (putFrame stack.dropLast top.target (putSlot handler scratchpadSlot none)) +
        frameCensus (give yielder scratchpadSlot target) := stackCensus_putFrame yielderHeld' _
  -- The handler on top has no frame of its own.
  have whole : stackCensus stack = stackCensus stack.dropLast := by
    obtain ⟨base, rfl⟩ := List.getLast?_eq_some_iff.mp last
    have found : (base ++ [top])[base.length]? = some top := List.getElem?_concat_length
    have noFrame : ownFrame top = none := by
      rw [← Option.not_isSome_iff_eq_none, settled.integrity.own _ top found]
      rw [List.length_append, List.length_singleton] at other
      exact other
    rw [stackCensus_append, stackCensus_singleton, ownCensus, noFrame, List.dropLast_concat]
    exact add_zero _
  rw [whole]
  generalize stackCensus (putFrame (putFrame stack.dropLast top.target
    (putSlot handler scratchpadSlot none)) below.target
    (setReg (give yielder scratchpadSlot target) 8 statusOk)) = after at put' ⊢
  apply add_right_cancel (b := frameCensus yielder + frameCensus handler)
  calc _ = (after + frameCensus yielder) + replaced yielder scratchpadSlot target +
        frameCensus handler := by abel
    _ = stackCensus (putFrame stack.dropLast top.target (putSlot handler scratchpadSlot none)) +
        (frameCensus (give yielder scratchpadSlot target) + replaced yielder scratchpadSlot target) +
        frameCensus handler := by rw [put']; abel
    _ = (stackCensus (putFrame stack.dropLast top.target (putSlot handler scratchpadSlot none)) +
        frameCensus handler) + frameCensus yielder + targetCensus target := by rw [given]; abel
    _ = stackCensus stack.dropLast + (frameCensus (putSlot handler scratchpadSlot none) +
        targetCensus target) + frameCensus yielder := by rw [put]; abel
    _ = _ := by rw [taken]; abel

end

/-! ## What calls move -/

section

variable (env : Env)

/-- The image and the slots that a call of a capability starts with. -/
inductive Starts : ResidentTarget Runtime → ImageCap → ResidentCNode Runtime → Prop
  | owned {inst : InstanceCap Cap} {cache : CapCache Runtime (CachedCap Runtime)} {img : ImageCap}
      {start : ResidentCNode Runtime} (stored : env.store inst.imageHash = some (.image img))
      (slots : StartSlots env inst (parkedSlots cache) start) :
      Starts (.owned (.mk (.inst inst) cache)) img start
  | hash {h : CapHash} {inst : InstanceCap Cap} {img : ImageCap} {start : ResidentCNode Runtime}
      (published : env.store h = some (.inst inst))
      (stored : env.store inst.imageHash = some (.image img))
      (slots : StartSlots env inst none start) : Starts (.hash h) img start

/-- What a call copies out of the store: an instance that is held by its hash, and slots that an
instance holds by their hash. -/
def calledCopy : Option (ResidentTarget Runtime) → Multiset CapId
  | some (.hash h) =>
    match env.store h with
    | some (.inst inst) =>
      {.inst inst.imageHashChain inst.imageHash} + rootCensus env inst.rootCnode
    | _ => 0
  | some (.owned (.mk (.inst inst) cache)) =>
    match parkedSlots cache, inst.rootCnode with
    | none, .hash h => rootCensus env (.hash h)
    | _, _ => 0
  | _ => 0

/-- The slot that the frame on top names. -/
def namedSlot (f : KernelFrame Runtime) : Key := Key.ofReg (f.inst.regs 7)

/-- A callee has no owned capability where its image pins a slot, nor in the scratchpad if the
caller hands over its own. -/
def CalleeFits (f : KernelFrame Runtime) : Prop :=
  ∀ callee img start, f.slots.peekKey (namedSlot f) = some callee → Starts env callee img start →
    (∀ e ∈ img.pinned, ¬ IsOwned (start.peekKey e.slot)) ∧
    (namedSlot f ≠ scratchpadSlot → (f.slots.peekKey scratchpadSlot).isSome →
      ¬ IsOwned (start.peekKey scratchpadSlot))

variable {env}

theorem StartSlots.unique {inst : InstanceCap Cap} {cached : Option (ResidentCNode Runtime)}
    {start start' : ResidentCNode Runtime} (slots : StartSlots env inst cached start)
    (slots' : StartSlots env inst cached start') : start = start' := by
  rcases slots with rfl | ⟨rfl, ran⟩
  · rcases slots' with same | ⟨none_, -⟩
    · exact Option.some.inj same
    · cases none_
  · rcases slots' with some_ | ⟨-, ran'⟩
    · cases some_
    · exact pure_inj.mp (ran.symm.trans ran')

theorem Starts.unique {callee : ResidentTarget Runtime} {img img' : ImageCap}
    {start start' : ResidentCNode Runtime} (starts : Starts env callee img start)
    (starts' : Starts env callee img' start') : img = img' ∧ start = start' := by
  cases starts with
  | owned stored slots =>
    cases starts' with
    | owned stored' slots' =>
      rw [stored] at stored'
      cases stored'
      exact ⟨rfl, slots.unique slots'⟩
  | hash published stored slots =>
    cases starts' with
    | hash published' stored' slots' =>
      rw [published] at published'
      cases published'
      rw [stored] at stored'
      cases stored'
      exact ⟨rfl, slots.unique slots'⟩

theorem census_startSlots {inst : InstanceCap Cap} {cache : CapCache Runtime (CachedCap Runtime)}
    {start : ResidentCNode Runtime} (slots : StartSlots env inst (parkedSlots cache) start) :
    census (.mk (.inst inst) cache) + calledCopy env (some (.owned (.mk (.inst inst) cache))) =
      {.inst inst.imageHashChain inst.imageHash} + cnodeCensus start := by
  -- Without slots at hand they are read from the store.
  have stored : parkedSlots cache = none →
      census (.mk (.inst inst) cache) = capCensus (.inst inst) →
      census (.mk (.inst inst) cache) + calledCopy env (some (.owned (.mk (.inst inst) cache))) =
        {.inst inst.imageHashChain inst.imageHash} + cnodeCensus start := by
    intro unparked counts
    rw [counts, calledCopy, unparked]
    rw [unparked] at slots
    rcases slots with parked | ⟨-, ran⟩
    · cases parked
    rw [cnodeCensus_materializeRootCnode ran]
    obtain ⟨chain, image, root, mem, regs, pc, gas⟩ := inst
    cases root with
    | hash h =>
      rw [capCensus]
      nofun
    | owned cap =>
      cases cap with
      | cnode cnode =>
        obtain ⟨slots⟩ := cnode
        rw [capCensus]
        exact add_zero _
      | _ => exact absurd ran throw_ne_pure
  cases cache with
  | «instance» runtime cnode =>
    cases cnode with
    | none =>
      refine stored rfl ?_
      rw [census] <;> nofun
    | some cnode =>
      obtain ⟨slots'⟩ := cnode
      rcases slots with parked | ⟨none_, -⟩
      · cases parked
        rw [census]
        exact add_zero _
      · cases none_
  | _ =>
    refine stored rfl ?_
    rw [census] <;> nofun

/-- A new frame counts what was called and what is copied for it, but for what pinned slots
replace. -/
theorem Callee.census {origin : FrameOrigin} {callee : ResidentTarget Runtime}
    {child : KernelFrame Runtime} (built : Callee env origin callee child) :
    ∃ img start lost, Starts env callee img start ∧ child.Resident ∧
      child.slots = overlayImageSlots img start ∧
      frameCensus child + lost = targetCensus (some callee) + calledCopy env (some callee) ∧
      (lost = 0 ↔ ∀ e ∈ img.pinned, ¬ IsOwned (start.peekKey e.slot)) := by
  -- The slots of the image go over those that the frame starts with.
  have overlaid : ∀ {inst : InstanceCap Cap} {cached : Option (ResidentCNode Runtime)}
      {img : ImageCap} {start : ResidentCNode Runtime}
      (built : FrameBuilt env inst cached (some origin) child),
      child.slots = overlayImageSlots img start →
      ∃ lost, frameCensus child + lost =
          {.inst inst.imageHashChain inst.imageHash} + cnodeCensus start ∧
        (lost = 0 ↔ ∀ e ∈ img.pinned, ¬ IsOwned (start.peekKey e.slot)) := by
    intro inst cached img start built slots
    obtain ⟨lost, total, free⟩ := exists_lost_overlayImageSlots img start
    refine ⟨lost, ?_, free⟩
    rw [frameCensus, built.imageHash, built.imageHashChain, slots, add_assoc, total]
  cases built with
  | owned built =>
    obtain ⟨img, start, stored, startSlots, slots, -⟩ := built.image
    obtain ⟨lost, total, free⟩ := overlaid built slots
    refine ⟨img, start, lost, .owned stored startSlots, built.resident, slots, ?_, free⟩
    rw [total, ← census_startSlots startSlots]
    rfl
  | hash published built =>
    obtain ⟨img, start, stored, startSlots, slots, -⟩ := built.image
    obtain ⟨lost, total, free⟩ := overlaid built slots
    refine ⟨img, start, lost, .hash published stored startSlots, built.resident, slots, ?_, free⟩
    rcases startSlots with parked | ⟨-, ran⟩
    · cases parked
    · rw [total, cnodeCensus_materializeRootCnode ran, calledCopy, published]
      exact (zero_add _).symm

/-- A call moves the instance and the scratchpad to the new frame. -/
theorem Calls.census {f parent child : KernelFrame Runtime} {owner : Nat} (resident : f.Resident)
    (calls : Calls env f owner parent child) :
    ∃ lost, frameCensus (putSlot parent scratchpadSlot none) +
        frameCensus (give child scratchpadSlot (parent.slots.peekKey scratchpadSlot)) + lost =
      frameCensus f + calledCopy env (f.slots.peekKey (namedSlot f)) ∧
      (lost = 0 ↔ CalleeFits env f) := by
  have residents := calls.resident resident
  cases calls with
  | @mk slot callee child named free held built =>
    obtain ⟨img, start, lost, starts, residentChild, slots, total, pinnedFree⟩ := built.census
    have opened := frameCensus_putSlot resident slot none
    rw [held, show targetCensus (none : Option (ResidentTarget Runtime)) = 0 from rfl,
      add_zero] at opened
    generalize inherited : withRootCnode child
      (inheritSlots (withPending (putSlot f slot none) slot).slots child.slots) = child' at residents ⊢
    have slots' : child'.slots =
        inheritSlots (withPending (putSlot f slot none) slot).slots child.slots := by
      rw [← inherited, slots_withRootCnode residentChild]
    have sameChild : frameCensus child' = frameCensus child := by
      have kept := sameButSlots_withRootCnode child
        (inheritSlots (withPending (putSlot f slot none) slot).slots child.slots)
      rw [inherited] at kept
      rw [frameCensus, kept.imageHash, kept.imageHashChain, slots', cnodeCensus_inheritSlots]
      rfl
    have scratch : (withPending (putSlot f slot none) slot).slots.peekKey scratchpadSlot =
        if slot = scratchpadSlot then none else f.slots.peekKey scratchpadSlot := by
      change (putSlot f slot none).slots.peekKey scratchpadSlot = _
      rw [slots_putSlot resident]
      split
      next same => rw [same, CNodeCap.peekKey_setKey_self]
      next other => rw [CNodeCap.peekKey_setKey_ne _ _ (Ne.symm other)]
    generalize parentEq : withPending (putSlot f slot none) slot = parent at *
    have sameParent : frameCensus parent = frameCensus (putSlot f slot none) := by
      rw [← parentEq]
      rfl
    have taken := frameCensus_putSlot residents.1 scratchpadSlot none
    rw [show targetCensus (none : Option (ResidentTarget Runtime)) = 0 from rfl, add_zero] at taken
    have given := frameCensus_give residents.2 scratchpadSlot (parent.slots.peekKey scratchpadSlot)
    refine ⟨lost + replaced child' scratchpadSlot (parent.slots.peekKey scratchpadSlot), ?_, ?_⟩
    · rw [namedSlot, ← named, held]
      apply add_right_cancel (b := targetCensus (parent.slots.peekKey scratchpadSlot))
      calc _ = (frameCensus (putSlot parent scratchpadSlot none) +
            targetCensus (parent.slots.peekKey scratchpadSlot)) +
            (frameCensus (give child' scratchpadSlot (parent.slots.peekKey scratchpadSlot)) +
              replaced child' scratchpadSlot (parent.slots.peekKey scratchpadSlot)) + lost := by abel
        _ = frameCensus (putSlot f slot none) + (frameCensus child + lost) +
            targetCensus (parent.slots.peekKey scratchpadSlot) := by
            rw [taken, given, sameChild, sameParent]; abel
        _ = (frameCensus (putSlot f slot none) + targetCensus (some callee)) +
            calledCopy env (some callee) +
            targetCensus (parent.slots.peekKey scratchpadSlot) := by rw [total]; abel
        _ = _ := by rw [opened]
    · rw [add_eq_zero, pinnedFree, replaced_eq_zero, scratch, slots', isOwned_inheritSlots, slots]
      constructor
      · rintro ⟨free, keeps⟩ callee' img' start' held' starts'
        rw [namedSlot, ← named, held] at held'
        cases held'
        obtain ⟨rfl, rfl⟩ := starts.unique starts'
        refine ⟨free, fun other some_ => ?_⟩
        rw [namedSlot, ← named] at other
        rw [if_neg other] at keeps
        rw [← isOwned_overlayImageSlots free]
        exact keeps some_
      · intro fits
        obtain ⟨free, keeps⟩ := fits callee img start (by rw [namedSlot, ← named, held]) starts
        refine ⟨free, fun some_ => ?_⟩
        rw [isOwned_overlayImageSlots free]
        split at some_
        · cases some_
        next other => exact keeps (by rwa [namedSlot, ← named]) some_

end

/-! ## Operations -/

/-- What the kernel does about an exit. -/
inductive Operation where
  /-- HALT and REPLY. -/
  | finish
  /-- The guest cannot pay. -/
  | starve
  | call
  | resume
  | drop
  /-- A yield goes to the owner that catches it. -/
  | yield
  /-- The kernel writes registers or slots of the frame on top. -/
  | edit
  deriving DecidableEq

section

variable (env : Env)

/-- The kernel does not handle the yield itself. -/
def yieldRoutes (f : KernelFrame Runtime) : Bool :=
  match yieldKey env f with
  | some (.ok (some key)) => decide (key ∉ inlineKeys)
  | _ => false

def operationOf (f : KernelFrame Runtime) (op : Nat) : Operation :=
  if op = opReply then .finish
  else if op = opHostCall then .call
  else if op = opCallResume then .resume
  else if op = opDropResume then .drop
  else if op = opHostYield ∧ yieldRoutes env f then .yield
  else .edit

/-- What the kernel does about an exit of the frame on top. -/
def operation (s : Task Runtime) (info : ExitInfo) (f : KernelFrame Runtime) : Operation :=
  if info.exitReason = exitHalt then .finish
  else if payment env s info = none then .starve
  else operationOf env f info.op

/-- What a yield copies out of the store: a sender that is held by its hash. -/
def yieldedCopy : Option (ResidentTarget Runtime) → Multiset CapId
  | some (.hash h) =>
    match env.store h with
    | some (.inst inst) => capCensus (.inst inst)
    | _ => 0
  | _ => 0

/-- The handle that the kernel makes for the owner that funds a frame without another meter. -/
def starvedHandle (gas : FrameGas) : Multiset CapId :=
  match gas.advance, gas.primaryKey.bind (gasHandle env.hashes) with
  | none, some payload => capCensus (.inst payload)
  | _, _ => 0

/-- No owned capability is lost or copied: HALT, REPLY and DROP_RESUME destroy the frames above a
handler, what is made comes from the store by its hash or from the kernel, and otherwise only the
guest's writes of its own slots replace something. -/
def Conserves (s : Task Runtime) (info : ExitInfo) (s' : Task Runtime) : Prop :=
  ∀ top f, s.stack.getLast? = some top → frameOf s.stack top.target = some f →
    match operation env s info f with
    | .finish | .drop =>
      stackCensus s'.stack + stackCensus (s.stack.drop (top.target + 1)) = stackCensus s.stack
    | .starve => stackCensus s'.stack = stackCensus s.stack + starvedHandle env top.metadata.gas
    | .call => stackCensus s'.stack =
        stackCensus s.stack + calledCopy env (f.slots.peekKey (namedSlot f))
    | .resume => stackCensus s'.stack = stackCensus s.stack
    | .yield => stackCensus s'.stack =
        stackCensus s.stack + yieldedCopy env (f.slots.peekKey (namedSlot f))
    | .edit => ∃ f', ReflGen Edit f f' ∧
        stackCensus s'.stack + frameCensus f = stackCensus s.stack + frameCensus f'

/-- A frame that was called out of its caller's scratchpad returns nothing that is owned; a callee
fits; a frame that is resumed with something has nothing owned in its scratchpad; a yielded sender
is held by its hash. -/
def Conserving (s : Task Runtime) (info : ExitInfo) : Prop :=
  ∀ top f, s.stack.getLast? = some top → frameOf s.stack top.target = some f →
    match operation env s info f with
    | .finish => f.origin.map (·.slot) = some scratchpadSlot →
        ¬ IsOwned (f.slots.peekKey scratchpadSlot)
    | .call => CalleeFits env f
    | .resume => ∀ below yielder, s.stack.dropLast.getLast? = some below →
        frameOf s.stack below.target = some yielder →
        (f.slots.peekKey scratchpadSlot).isSome → ¬ IsOwned (yielder.slots.peekKey scratchpadSlot)
    | .yield => ¬ IsOwned (f.slots.peekKey (namedSlot f))
    | .starve | .drop | .edit => True

variable {env} {s s' : Task Runtime} {info : ExitInfo} {f : KernelFrame Runtime}
  {top : Entry Runtime} {rearmCow : Runtime → List Nat → Runtime}

theorem operation_of_halt (reason : info.exitReason = exitHalt) :
    operation env s info f = .finish := if_pos reason

theorem operation_of_free (other : info.exitReason ≠ exitHalt)
    (free : payment env s info = none) : operation env s info f = .starve := by
  rw [operation, if_neg other, if_pos free]

theorem operation_of_asks {cost : Int} {op : Nat} (pays : payment env s info = some cost)
    (asked : Asks info op) : operation env s info f = operationOf env f op := by
  have notHalt : info.exitReason ≠ exitHalt := by
    intro reason
    rw [payment_of_halt reason] at pays
    cases pays
  rw [operation, if_neg notHalt, if_neg (by rw [pays]; nofun), asked.2]

theorem operationOf_hostYield {key : Key} (named : yieldKey env f = pure (some key)) :
    operationOf env f opHostYield = if key ∈ inlineKeys then .edit else .yield := by
  have routes : yieldRoutes env f = decide (key ∉ inlineKeys) := by
    unfold yieldRoutes
    rw [named]
    rfl
  change (if opHostYield = opHostYield ∧ yieldRoutes env f = true then Operation.yield else .edit) = _
  rw [routes]
  by_cases inline : key ∈ inlineKeys <;> simp [inline]

/-- A frame that ends loses at most what it returns to its caller's scratchpad. -/
theorem lostScratchpad_eq_zero : lostScratchpad f = 0 ↔
    (f.origin.map (·.slot) = some scratchpadSlot → ¬ IsOwned (f.slots.peekKey scratchpadSlot)) := by
  unfold lostScratchpad
  split
  next same => rw [targetCensus_eq_zero]; exact ⟨fun free _ => free, fun free => free same⟩
  next other => exact ⟨fun _ same => absurd same other, fun _ => rfl⟩

theorem census_payload {key : Key} {payload : Option (InstanceCap Cap)} (resident : f.Resident)
    (named : yieldKey env f = pure (some key))
    (read : readInstanceCap env f (namedSlot f) = pure payload) :
    targetCensus (payload.map fun inst => (.owned (.new (.inst inst)) : ResidentTarget Runtime)) =
      yieldedCopy env (f.slots.peekKey (namedSlot f)) ↔
    ¬ IsOwned (f.slots.peekKey (namedSlot f)) := by
  -- The sender is read to find its key.
  obtain ⟨inst, rfl⟩ : ∃ inst, payload = some inst := by
    unfold yieldKey readInstanceCapGuest at named
    rw [show Key.ofReg (f.inst.regs 7) = namedSlot f from rfl] at named
    split at named
    · exact nomatch pure_inj.mp named
    · rw [read] at named
      cases payload with
      | none => exact nomatch pure_inj.mp named
      | some inst => exact ⟨inst, rfl⟩
  have counts : census (.new (.inst inst) : CachedCap Runtime) = capCensus (.inst inst) := by
    rw [CachedCap.new, census] <;> nofun
  rw [Option.map_some, targetCensus, counts]
  unfold readInstanceCap at read
  rw [cnodePeek_eq_pure.mpr ⟨resident, rfl⟩, pure_bind] at read
  split at read
  next h same =>
    rw [same, yieldedCopy]
    cases stored : env.store h with
    | none =>
      rw [stored] at read
      exact nomatch pure_inj.mp read
    | some cap =>
      rw [stored] at read
      cases cap with
      | inst inst' =>
        obtain rfl := Option.some.inj (pure_inj.mp read)
        exact ⟨fun _ => id, fun _ => rfl⟩
      | _ => exact nomatch pure_inj.mp read
  next inst' cache same =>
    rw [same, yieldedCopy]
    · exact ⟨fun zero => absurd zero (capCensus_ne_zero _), fun free => (free trivial).elim⟩
    · nofun
  · exact nomatch pure_inj.mp read

theorem eq_iff_of_lost {after before lost : Multiset CapId} (total : after + lost = before) :
    after = before ↔ lost = 0 := by
  rw [← total]
  exact left_eq_add

theorem exists_ownFrame_dropped (integrity : Integrity s.stack)
    (held : frameOf s.stack top.target = some f) :
    ∃ e popped, (dropped s.stack (top.target + 1)).getLast? = some e ∧ ownFrame e = some popped ∧
      lostScratchpad popped = lostScratchpad f := by
  obtain ⟨e, popped, last', own⟩ := getLast?_dropped integrity held
  refine ⟨e, popped, last', own, ?_⟩
  have length : (dropped s.stack (top.target + 1)).length = top.target + 1 :=
    length_dropped (lt_length_of_frameOf held)
  have held' : frameOf (dropped s.stack (top.target + 1)) top.target = some popped := by
    have found := Activation.getElem?_of_getLast? last'
    rw [length, Nat.add_sub_cancel] at found
    rw [frameOf, found, Option.bind_some, own]
  -- Only what it waits for is another.
  obtain ⟨-, old, heldOld, same, -⟩ := frameOf_dropped held'
  obtain rfl := Option.some.inj (held.symm.trans heldOld)
  rw [same]
  rfl

/-- What is conserved by an operation that was paid for. -/
theorem Effect.conserves_iff {s₀ : Task Runtime} (settled : Settled env s.stack)
    (same : s₀.stack = s.stack)
    (asks : ∀ f op, Asks info op → operation env s₀ info f = operationOf env f op)
    (ends : ∀ f, Finishes info → operation env s₀ info f = .finish)
    (effect : Effect env rearmCow s info s') :
    Conserves env s₀ info s' ↔ Conserving env s₀ info := by
  refine forall₄_congr fun top f last held => ?_
  rw [same] at last held ⊢
  cases effect with
  | @edited top' f' f'' last' held' asked edit =>
    obtain rfl := Option.some.inj (last.symm.trans last')
    obtain rfl := Option.some.inj (held.symm.trans held')
    have op : operation env s₀ info f = .edit := by
      rcases asked with spawns | identifies | ⟨yields, key, named, mints⟩
      · exact asks f _ spawns
      · exact asks f _ identifies
      · have inline : key ∈ inlineKeys := List.mem_cons_of_mem _ mints
        rw [asks f _ yields, operationOf_hostYield named, if_pos inline]
    rw [op]
    exact ⟨fun _ => trivial, fun _ => ⟨f'', .single edit, stackCensus_putFrame held f''⟩⟩
  | @metered top' f' last' held' asked named =>
    obtain rfl := Option.some.inj (last.symm.trans last')
    obtain rfl := Option.some.inj (held.symm.trans held')
    have op : operation env s₀ info f = .edit := by
      have inline : ykSetGasMeter ∈ inlineKeys := List.mem_cons_self
      rw [asks f _ asked, operationOf_hostYield named, if_pos inline]
    rw [op]
    refine ⟨fun _ => trivial, fun _ => ⟨f, .refl, ?_⟩⟩
    obtain ⟨value, set⟩ := setGasMeter_fst f s.gas
    rw [set]
    exact congrArg (· + frameCensus f) (stackCensus_putFrame_same held rfl)
  | @yielded top' f' key payload stack' last' held' asked named other read caught =>
    obtain rfl := Option.some.inj (last.symm.trans last')
    obtain rfl := Option.some.inj (held.symm.trans held')
    have op : operation env s₀ info f = .yield := by
      rw [asks f _ asked, operationOf_hostYield named, if_neg other]
    rw [op]
    simp only
    rw [caught.census settled last, add_right_inj]
    exact census_payload (settled.orderly _ f held).resident named read
  | @replied top' stack' finishes last' own returned =>
    obtain rfl := Option.some.inj (last.symm.trans last')
    rw [ends f finishes]
    simp only
    -- Nothing lies above the frame that ends.
    have none_ : s.stack.drop (top.target + 1) = [] := by
      rw [own, KernelTask.topIdx]
      exact List.drop_eq_nil_of_le (by omega)
    have ownFrame_ : ownFrame top = some f := by
      obtain ⟨e, found, own', -⟩ := settled.integrity.target_of_frameOf held
      rw [own, found_top last] at found
      cases found
      exact own'
    rw [none_, show stackCensus ([] : List (Entry Runtime)) = 0 from rfl, add_zero,
      eq_iff_of_lost (returned.census settled last ownFrame_), lostScratchpad_eq_zero]
  | @unwound top' stack' finishes last' other returned =>
    obtain rfl := Option.some.inj (last.symm.trans last')
    rw [ends f finishes]
    simp only
    obtain ⟨e, popped, last'', own, lost⟩ :=
      exists_ownFrame_dropped settled.integrity held
    have total := returned.census (settled.dropped last) last'' own
    have whole := stackCensus_dropped_add s.stack (top.target + 1)
    rw [← lostScratchpad_eq_zero, ← lost, ← eq_iff_of_lost total, ← whole, add_left_inj]
  | @resumed top' below handler yielder last' other asked held' under waiting lower =>
    obtain rfl := Option.some.inj (last.symm.trans last')
    obtain rfl := Option.some.inj (held.symm.trans held')
    rw [asks f _ asked]
    change _ = _ ↔ _
    rw [eq_iff_of_lost (census_resumed settled last other held under waiting lower),
      replaced_eq_zero]
    constructor
    · intro keeps below' yielder' under' waiting'
      obtain rfl := Option.some.inj (under.symm.trans under')
      obtain rfl := Option.some.inj (waiting.symm.trans waiting')
      exact keeps
    · exact fun keeps => keeps below yielder under waiting
  | @dropped top' last' other asked =>
    obtain rfl := Option.some.inj (last.symm.trans last')
    rw [asks f _ asked]
    exact ⟨fun _ => trivial, fun _ => stackCensus_dropped_add s.stack (top.target + 1)⟩
  | @called top' f' parent child catchSet gas last' held' asked calls funded =>
    obtain rfl := Option.some.inj (last.symm.trans last')
    obtain rfl := Option.some.inj (held.symm.trans held')
    rw [asks f _ asked]
    obtain ⟨lost, total, fits⟩ := calls.census (settled.orderly _ f held).resident
    have put := stackCensus_putFrame held (putSlot parent scratchpadSlot none)
    change stackCensus (putFrame s.stack top.target _ ++ _) = _ ↔ CalleeFits env f
    rw [← fits, stackCensus_append, stackCensus_singleton]
    apply eq_iff_of_lost
    apply add_right_cancel (b := frameCensus f)
    calc _ = (stackCensus (putFrame s.stack top.target (putSlot parent scratchpadSlot none)) +
          frameCensus f) +
          frameCensus (give child scratchpadSlot (parent.slots.peekKey scratchpadSlot)) + lost := by
          change _ + frameCensus _ + _ + _ = _
          abel
      _ = stackCensus s.stack + (frameCensus (putSlot parent scratchpadSlot none) +
          frameCensus (give child scratchpadSlot (parent.slots.peekKey scratchpadSlot)) + lost) := by
          rw [put]; abel
      _ = _ := by rw [total]; abel

theorem Unpaid.census {pc : BitVec 32} {stack stack' : List (Entry Runtime)}
    (settled : Settled env stack) (last : stack.getLast? = some top)
    (unpaid : Unpaid env stack pc stack') :
    stackCensus stack' = stackCensus stack + starvedHandle env top.metadata.gas := by
  cases unpaid with
  | @retried top' f gas last' held next =>
    obtain rfl := Option.some.inj (last.symm.trans last')
    have same : frameCensus (atPc f pc) = frameCensus f := rfl
    rw [stackCensus_withGas, stackCensus_putFrame_same held same, starvedHandle, next]
    exact (add_zero _).symm
  | @starved top' f meter payload stack' last' held exhausted primary handle caught =>
    obtain rfl := Option.some.inj (last.symm.trans last')
    -- The catcher sees the stack with the frame on top set back.
    have settled' : Settled env (withGas (putFrame stack top.target (atPc f pc))
        (stack.length - 1) top.metadata.gas.resetToPrimary) := by
      have touches : Touches env (fun _ _ => True) stack (withGas (putFrame stack top.target
          (atPc f pc)) (stack.length - 1) top.metadata.gas.resetToPrimary) :=
        (Touches.putFrame held (.single (.atPc ..))).trans (Touches.withGas _ _)
      refine settled.touches touches ?_ ((settled.scratchpads.putTop last).withGas _ _)
      have integrity : Integrity (putFrame stack top.target (atPc f pc)) :=
        settled.integrity.putFrame held (settled.integrity.resident held :) rfl rfl
      exact integrity.withGas _ _
    obtain ⟨e, last'', sameTarget⟩ : ∃ e, (withGas (putFrame stack top.target (atPc f pc))
        (stack.length - 1) top.metadata.gas.resetToPrimary).getLast? = some e ∧
        e.target = top.target := by
      have kept : activations (withGas (putFrame stack top.target (atPc f pc))
          (stack.length - 1) top.metadata.gas.resetToPrimary) = activations stack := by
        rw [activations_withGas, activations_putFrame]
      have acts := getLast?_activations last
      rw [← kept, activations, List.getLast?_map] at acts
      obtain ⟨e, found, equal⟩ := Option.map_eq_some_iff.mp acts
      exact ⟨e, found, congrArg Activation.target equal⟩
    have caught' : Caught (withGas (putFrame stack top.target (atPc f pc)) (stack.length - 1)
        top.metadata.gas.resetToPrimary) e.target (some payload) stack' := by
      rw [sameTarget]
      exact caught
    have same : frameCensus (atPc f pc) = frameCensus f := rfl
    rw [caught'.census settled' last'', stackCensus_withGas, stackCensus_putFrame_same held same,
      starvedHandle, exhausted, primary, Option.bind_some, handle, Option.map_some, targetCensus]
    congr 1

/-- Owned capabilities are conserved by exactly the steps that are conserving. -/
theorem Handled.conserves_iff (settled : Settled env s.stack)
    (handled : Handled env rearmCow s info (.resume, s')) :
    Conserves env s info s' ↔ Conserving env s info := by
  cases handled with
  | halted reason handles =>
    refine Effect.conserves_iff settled rfl (fun f op asked => ?_)
      (fun f _ => operation_of_halt reason) handles
    rcases asked.1 with call | call <;> (rw [reason] at call; cases call)
  | @paid cost _ pays nonneg handles =>
    have effect : Effect env rearmCow (charge s cost) info s' := handles
    have settled' : Settled env (charge s cost).stack := settled
    refine effect.conserves_iff settled' rfl (fun f op asked => operation_of_asks pays asked)
      fun f finishes => ?_
    rcases finishes with halts | replies
    · exact operation_of_halt halts
    · exact operation_of_asks pays replies
  | unpaid why free unpaid =>
    have notHalt : info.exitReason ≠ exitHalt := by
      intro reason
      rcases why with ⟨oog, -⟩ | ⟨call | call, -⟩ <;> (rw [reason] at *; contradiction)
    refine forall₄_congr fun top f last held => ?_
    rw [operation_of_free notHalt free]
    exact ⟨fun _ => trivial, fun _ => unpaid.census settled last⟩

theorem RanTop.census {machine : KernelMachine Runtime} {t : Task Runtime}
    (ran : RanTop env machine t info s) : stackCensus s.stack = stackCensus t.stack := by
  cases ran with
  | mk last held table ran => exact stackCensus_putFrame_same held rfl

end

/-! ## Pending slots -/

/-- Every slot that waits for its instance is empty. -/
def PendingEmpty (stack : List (Entry Runtime)) : Prop :=
  ∀ i f k, frameOf stack i = some f → slotIsPending f k = true → f.slots.entry k = none

def CallsNoScratchpad (env : Env) (s : Task Runtime) (info : ExitInfo) : Prop :=
  ∀ f slot, CallsSlot env s info f slot → slot ≠ scratchpadSlot

/-- No change makes a frame wait for an instance of its scratchpad, unless it calls that. -/
theorem Touch.scratchpad_free {calls : KernelFrame Runtime → Key → Prop}
    {f f' : KernelFrame Runtime} (safe : ∀ f slot, calls f slot → slot ≠ scratchpadSlot)
    (touch : Touch calls f f') (free : slotIsPending f scratchpadSlot = false) :
    slotIsPending f' scratchpadSlot = false := by
  have kept : ∀ {g g' : KernelFrame Runtime}, g'.pendingOrigins = g.pendingOrigins →
      slotIsPending g scratchpadSlot = false → slotIsPending g' scratchpadSlot = false := by
    intro g g' same free
    rw [slotIsPending, same]
    exact free
  cases touch with
  | ran p => exact free
  | edited edit => exact kept edit.sameButSlots.pendingOrigins free
  | received target => exact kept (sameButSlots_give f _ target).pendingOrigins free
  | sent => exact kept (sameButSlots_putSlot f _ none).pendingOrigins free
  | @called slot asked notPending =>
    have emptied : slotIsPending (putSlot f slot none) scratchpadSlot = false :=
      kept (sameButSlots_putSlot f slot none).pendingOrigins free
    rw [slotIsPending, withPending, SortedMap.lookup_insert_ne _ _ (safe f slot asked).symm]
    exact emptied
  | @returned slot cap waits =>
    refine kept (sameButSlots_putSlot (withoutPending f slot) slot _).pendingOrigins ?_
    by_cases same : scratchpadSlot = slot
    · rw [slotIsPending, withoutPending, same, SortedMap.lookup_remove_self]
      rfl
    · rw [slotIsPending, withoutPending, SortedMap.lookup_remove_ne _ same]
      exact free
  | @forgot pending fewer =>
    rw [Bool.eq_false_iff]
    intro waits
    rw [fewer _ waits] at free
    cases free

theorem Started.scratchpad_free {env : Env} {f : KernelFrame Runtime} (started : Started env f) :
    slotIsPending f scratchpadSlot = false := by
  cases started with
  | @mk inst cached origin child slots built =>
    rw [slotIsPending, (sameButSlots_withRootCnode child _).pendingOrigins, built.pendingOrigins]
    rfl

/-! ## Runs -/

section

variable {env : Env} {machine : KernelMachine Runtime} {t s t' : Task Runtime} {info : ExitInfo}

/-- The runs in which no step calls the scratchpad. -/
inductive UncalledRun (env : Env) (machine : KernelMachine Runtime) : Task Runtime → Prop
  | start {lane : Nat} {root : CapHash} {endpointIdx : BitVec 32} {args : Fin 4 → Word64}
      {initialGas : Int} {t : Task Runtime}
      (started : newTask env lane root endpointIdx args initialGas = pure t) :
      UncalledRun env machine t
  | step {t s t' : Task Runtime} {info : ExitInfo} (run : UncalledRun env machine t)
      (ran : runTop (javm env machine) machine.toMachine t = pure (info, s))
      (uncalled : CallsNoScratchpad env s info)
      (handled : dispatchExit (javm env machine) s info = pure (.resume, t')) :
      UncalledRun env machine t'

theorem UncalledRun.reachable (run : UncalledRun env machine t) : Reachable env machine t := by
  induction run with
  | start started => exact .start started
  | step run ran uncalled handled reached =>
    refine reached.step ?_
    unfold pollOnce
    rw [ran]
    exact handled

theorem UncalledRun.scratchpad_free (run : UncalledRun env machine t) :
    ∀ i f, frameOf t.stack i = some f → slotIsPending f scratchpadSlot = false := by
  induction run with
  | start started =>
    obtain ⟨inst, f, gas, stored, built, scope, rfl⟩ := newTask_eq_pure started
    intro i g held
    cases i with
    | zero =>
      cases held
      rw [slotIsPending, built.pendingOrigins]
      rfl
    | succ i => cases held
  | step run ran uncalled handled free =>
    have ranTop := runTop_eq_pure ran
    have sound := run.reachable.sound.ranTop ranTop
    have effect := Ends.of_pure sound.steps handled
    have ranTouches : Touches env (fun _ _ => False) _ _ := ranTop.touches
    have middle := ranTouches.forall_frames
      (fun f f' touch => touch.scratchpad_free fun _ _ no => no.elim)
      (fun f started => started.scratchpad_free) free
    exact (effect.touches sound.integrity).forall_frames
      (fun f f' touch => touch.scratchpad_free uncalled) (fun f started => started.scratchpad_free)
      middle

/-- Running a frame moves no owned capability, and exactly the conserving steps lose and copy none;
along runs that never call the scratchpad, pending slots are empty too. -/
theorem owned_conserved_iff :
    (∀ (t s t' : Task Runtime) (info : ExitInfo), Reachable env machine t →
      runTop (javm env machine) machine.toMachine t = pure (info, s) →
      dispatchExit (javm env machine) s info = pure (.resume, t') →
      stackCensus s.stack = stackCensus t.stack ∧
      (Conserves env s info t' ↔ Conserving env s info)) ∧
    ∀ t : Task Runtime, UncalledRun env machine t → PendingEmpty t.stack := by
  constructor
  · intro t s t' info reached ran handled
    have ranTop := runTop_eq_pure ran
    have sound := reached.sound.ranTop ranTop
    exact ⟨ranTop.census,
      (Ends.of_pure sound.steps handled).conserves_iff (reached.settled.ranTop ranTop)⟩
  · intro t run i f k held waits
    refine (run.reachable.orderly i f held).pendingEmpty k waits ?_
    rintro rfl
    rw [run.scratchpad_free i f held] at waits
    cases waits

end

/-! ## A return that keeps a capability, and one that loses it -/

/-- An image with two endpoints, and an instance of it in a slot. -/
def callsSlot (slot : Key) : ImageCap :=
  { smallImage [] [⟨slot, hashOf 2⟩] with
    endpoints := [([0], ⟨0, 0, [], 0, fun _ => 0⟩), ([1], ⟨100, 0, [], 0, fun _ => 0⟩)] }

/-- Call a slot; the callee spawns an instance into its own scratchpad, and replies. -/
def spawnAndReply (slot : Word64) : KernelMachine Unit :=
  scriptMachine fun pc =>
    if pc = 0 then (opHostCall, fun i => if i = 7 then slot else if i = 8 then 1 else 0)
    else if pc = 100 then (opDeriveSpawn, fun i => if i = 7 then 5 else 0)
    else (opReply, fun _ => 0)

/-- What a step shows of its operation and of the slot that the frame on top was called out of. -/
def originShown (env : Env) (info : ExitInfo) (s : Task Unit) : Option (Operation × Option Key) :=
  s.stack.getLast?.bind fun top => (frameOf s.stack top.target).map fun f =>
    (operation env s info f, f.origin.map (·.slot))

theorem originShown_spawnAndReply :
    ((taskAfter (smallEnv (callsSlot [6])) (spawnAndReply 6) zeroHash 100000 2).bind
      (stepParts (smallEnv (callsSlot [6])) (spawnAndReply 6))).map
        (fun step => originShown (smallEnv (callsSlot [6])) step.1 step.2.1) =
      some (some (.finish, some [6])) := by
  decide +kernel

/-- The reply of a frame that was called out of another slot than the scratchpad is conserving, and
the instance that the callee returns is kept. -/
theorem owned_conserved_iff_reply : ∃ (t s t' : Task Unit) (info : ExitInfo),
    Reachable (smallEnv (callsSlot [6])) (spawnAndReply 6) t ∧
    originShown (smallEnv (callsSlot [6])) info s = some (.finish, some [6]) ∧
    Conserving (smallEnv (callsSlot [6])) s info ∧ Conserves (smallEnv (callsSlot [6])) s info t' := by
  obtain ⟨t, s, t', info, reached, ran, handled, shows⟩ := exists_step (smallEnv (callsSlot [6]))
    (spawnAndReply 6) zeroHash 100000 2 (fun info s _ => originShown (smallEnv (callsSlot [6])) info s)
    originShown_spawnAndReply
  have conserving : Conserving (smallEnv (callsSlot [6])) s info := by
    intro top f last held
    rw [originShown, last, Option.bind_some, held, Option.map_some, Option.some.injEq,
      Prod.mk.injEq] at shows
    rw [shows.1]
    intro scratchpad
    exact absurd (shows.2.symm.trans scratchpad) (by decide)
  exact ⟨t, s, t', info, reached, shows, conserving,
    (owned_conserved_iff.1 t s t' info reached ran handled).2.mpr conserving⟩

/-- What a step shows of its operation and of how many owned capabilities there are. -/
def countsShown (env : Env) (info : ExitInfo) (s t' : Task Unit) :
    Option (Operation × Nat × Nat × Nat) :=
  s.stack.getLast?.bind fun top => (frameOf s.stack top.target).map fun f =>
    (operation env s info f, (stackCensus s.stack).card, (stackCensus t'.stack).card,
      (stackCensus (s.stack.drop (top.target + 1))).card)

/-- The third step is the reply, after which one capability less is there. -/
theorem countsShown_spawnAndReply :
    ((taskAfter (smallEnv (callsSlot [0])) (spawnAndReply 0) zeroHash 100000 2).bind
      (stepParts (smallEnv (callsSlot [0])) (spawnAndReply 0))).map
        (fun step => countsShown (smallEnv (callsSlot [0])) step.1 step.2.1 step.2.2) =
      some (some (.finish, 3, 2, 0)) := by
  decide +kernel

/-- The instance that the callee returns in its scratchpad is lost: the instance of the callee goes
back there. -/
theorem owned_conserved_fails : ∃ (t s t' : Task Unit) (info : ExitInfo),
    Reachable (smallEnv (callsSlot [0])) (spawnAndReply 0) t ∧
    runTop (javm (smallEnv (callsSlot [0])) (spawnAndReply 0)) (spawnAndReply 0).toMachine t =
      pure (info, s) ∧
    dispatchExit (javm (smallEnv (callsSlot [0])) (spawnAndReply 0)) s info = pure (.resume, t') ∧
    ¬ Conserves (smallEnv (callsSlot [0])) s info t' := by
  obtain ⟨t, s, t', info, reached, ran, handled, shows⟩ := exists_step (smallEnv (callsSlot [0]))
    (spawnAndReply 0) zeroHash 100000 2 (countsShown (smallEnv (callsSlot [0])))
    countsShown_spawnAndReply
  refine ⟨t, s, t', info, reached, ran, handled, fun conserves => ?_⟩
  obtain ⟨top, last, shows⟩ := Option.bind_eq_some_iff.mp shows
  obtain ⟨f, held, shows⟩ := Option.map_eq_some_iff.mp shows
  obtain ⟨finishes, shows⟩ := Prod.mk.inj shows
  obtain ⟨before, shows⟩ := Prod.mk.inj shows
  obtain ⟨after, above⟩ := Prod.mk.inj shows
  have law := conserves top f last held
  rw [finishes] at law
  -- Two capabilities are left of three.
  have count := congrArg Multiset.card law
  rw [Multiset.card_add, before, after, above] at count
  cases count

end Jar.Kernel
