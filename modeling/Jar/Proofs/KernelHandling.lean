import Jar.Proofs.KernelEffects

/-! Every way to handle an exit: which errors and panics it can end with, and what it does to the
call stack. -/

namespace Jar.Kernel

open Javm Ssz Relation Attempt
open scoped Word

variable {Runtime : Type}

/-! ## Bounds of the kernel's steps -/

/-- A step that returns within bounds, fails with any error but that of a broken origin, and panics
only if `missing` allows it. -/
abbrev Steps {α : Type} (missing : Prop) (returns : α → Prop) (step : Fallible α) : Prop :=
  Ends returns (· ≠ errPendingOriginInvariant) missing step

/-- The kernel reads a page that is known by its hash only: in the scratchpad region of a frame, or
in a receiver that one of its slots holds. -/
def ReadsMissing (env : Env) (stack : List (Entry Runtime)) : Prop :=
  ∃ t f, frameOf stack t = some f ∧ (readScratchpadHead f = crash ∨
    ∃ slot inst, readInstanceCap env f slot = pure (some inst) ∧
      yieldReceiverKeys env.hashes inst = none)

section

variable {env : Env} {missing : Prop} {frame : KernelFrame Runtime}

theorem Steps.of_pure {α : Type} {step : Fallible α} {a : α} (ran : step = pure a) :
    Steps missing (· = a) step := by
  rw [ran]
  exact Ends.pure rfl

theorem getImage_steps (hash : CapHash) :
    Steps missing (fun img => env.store hash = some (.image img)) (env.getImage hash) := by
  unfold Env.getImage
  split
  · exact Ends.throw (by decide)
  next img found => exact Ends.pure found
  · exact Ends.throw (by decide)

/-! ## Keys of meters -/

theorem length_keyFromRegs (packed len : Word64) : (keyFromRegs packed len).length ≤ maxKeyLen := by
  rw [keyFromRegs, List.length_take]
  exact le_trans (min_le_left _ _) (min_le_right _ _)

theorem gasMeterKey_steps (inst : InstanceCap Cap) :
    Steps missing (fun key => key.length ≤ maxKeyLen) (match gasMeterKey env.hashes inst with
      | some key => pure key
      | none => throw errGasSlotInvalid) := by
  split
  next key found =>
    refine Ends.pure ?_
    unfold gasMeterKey unitHandleKey at found
    split at found
    · cases found
    · cases found
      exact length_keyFromRegs _ _
  · exact Ends.throw (by decide)

theorem gasMeterKeyFromRef_steps (target : ResidentTarget Runtime) :
    Steps missing (fun key => key.length ≤ maxKeyLen) (gasMeterKeyFromRef env target) := by
  unfold gasMeterKeyFromRef
  simp only [pure_bind]
  split
  · split
    · exact gasMeterKey_steps _
    · exact Ends.throw (by decide)
  · exact gasMeterKey_steps _
  · exact Ends.throw (by decide)

/-- The keys of a scope fit into a register. -/
def ShortKeys (meters : List Key) : Prop := ∀ key ∈ meters, key.length ≤ maxKeyLen

theorem resolveMeters_steps (resident : frame.Resident) (slots meters : List Key)
    (short : ShortKeys meters) :
    Steps missing ShortKeys (resolveMeters env frame slots meters) := by
  induction slots generalizing meters with
  | nil => exact Ends.pure short
  | cons slot slots ih =>
    unfold resolveMeters
    split
    · exact Ends.throw (by decide)
    · refine Ends.bind (Steps.of_pure (cnodePeek_eq_pure.mpr ⟨resident, rfl⟩)) fun target _ => ?_
      split
      · exact ih meters short
      · refine Ends.bind (gasMeterKeyFromRef_steps _) fun meter bounded => ?_
        apply ih
        split
        · exact short
        · intro key member
          rcases List.mem_append.mp member with old | new
          · exact short key old
          · exact List.mem_singleton.mp new ▸ bounded

/-- A declared scope names at least one meter. -/
structure DeclaredScope (gas : FrameGas) : Prop where
  meters : gas.meters ≠ []
  active : gas.active = some 0
  short : ShortKeys gas.meters

theorem resolveFrameGas_steps (resident : frame.Resident) :
    Steps missing (fun gas => ∀ declared, gas = some declared → DeclaredScope declared)
      (resolveFrameGas env frame) := by
  unfold resolveFrameGas
  refine Ends.bind (getImage_steps _) fun img _ => ?_
  split
  · exact Ends.pure nofun
  · refine Ends.bind (resolveMeters_steps resident _ [] nofun) fun meters short => ?_
    split
    · exact Ends.throw (by decide)
    next nonempty =>
      refine Ends.pure fun declared same => ?_
      cases same
      exact ⟨nonempty, rfl, short⟩

/-! ## Reading slots -/

theorem readInstanceCap_steps (resident : frame.Resident) (slot : Key) :
    Steps missing (fun inst => readInstanceCap env frame slot = pure inst)
      (readInstanceCap env frame slot) := by
  refine Ends.mono (Ends.returns_self (P := fun _ => True) ?_) fun _ both => both.1
  unfold readInstanceCap
  refine Ends.bind (Steps.of_pure (cnodePeek_eq_pure.mpr ⟨resident, rfl⟩)) fun target _ => ?_
  split
  · split <;> exact Ends.pure trivial
  · exact Ends.pure trivial
  · exact Ends.pure trivial

theorem readInstanceCapGuest_steps (resident : frame.Resident) (slot : Key) :
    Steps missing (fun inst => ∀ found, inst = some found →
        readInstanceCap env frame slot = pure found)
      (readInstanceCapGuest env frame slot) := by
  unfold readInstanceCapGuest
  split
  · exact Ends.pure nofun
  · refine Ends.bind (readInstanceCap_steps resident slot) fun inst found => Ends.pure ?_
    intro inst' same
    cases same
    exact found

/-- What a frame reads from a slot that holds a receiver without its pages. -/
def ReadsReceiver (env : Env) (frame : KernelFrame Runtime) : Prop :=
  ∃ slot inst, readInstanceCap env frame slot = pure (some inst) ∧
    yieldReceiverKeys env.hashes inst = none

theorem snapshotCatchSet_steps (resident : frame.Resident)
    (allowed : ReadsReceiver env frame → missing) :
    Steps missing (fun _ => True) (snapshotCatchSet env frame) := by
  unfold snapshotCatchSet
  split
  · split
    · exact Ends.pure trivial
    · refine Ends.bind (readInstanceCapGuest_steps resident _) fun read found => ?_
      split
      · exact Ends.pure trivial
      next inst =>
        split
        next lost => exact Ends.crash (allowed ⟨_, inst, found _ rfl, lost⟩)
        · exact Ends.pure trivial
      · exact Ends.pure trivial
  · exact Ends.pure trivial

/-! ## Writing slots -/

/-- The guest writes one or two slots that it may write. -/
inductive Edit (frame : KernelFrame Runtime) : KernelFrame Runtime → Prop
  | one {slot : Key} (cap : CachedCap Runtime) (free : slotWriteBlocked frame slot = false) :
      Edit frame (putSlot frame slot (some (.owned cap)))
  | two {slot slot' : Key} (cap cap' : CachedCap Runtime)
      (free : slotWriteBlocked frame slot = false) (free' : slotWriteBlocked frame slot' = false) :
      Edit frame (putSlot (putSlot frame slot (some (.owned cap))) slot' (some (.owned cap')))

theorem dispatchDeriveSpawn_steps (resident : frame.Resident) :
    Steps missing (fun next => ∀ frame', next = some frame' → Edit frame frame')
      (dispatchDeriveSpawn env frame) := by
  unfold dispatchDeriveSpawn
  simp only
  split
  · exact Ends.pure nofun
  next free =>
  split
  · exact Ends.pure nofun
  refine Ends.bind (Steps.of_pure (cnodePeek_eq_pure.mpr ⟨resident, rfl⟩)) fun target _ => ?_
  refine Ends.bind (getImage_steps _) fun img _ => ?_
  rw [frameCnodeSet_eq frame resident, pure_bind]
  refine Ends.pure fun frame' same => ?_
  cases same
  exact .one _ (by simpa using free)

theorem typeIdentity_steps (target : ResidentTarget Runtime) :
    Steps missing (fun _ => True) (typeIdentity env target) := by
  unfold typeIdentity
  split
  · split
    · exact Ends.throw (by decide)
    all_goals exact Ends.pure trivial
  all_goals exact Ends.pure trivial

theorem dispatchImageHashChain_steps (resident : frame.Resident) :
    Steps missing (fun next => ∀ frame', next = some frame' → Edit frame frame')
      (dispatchImageHashChain env frame) := by
  unfold dispatchImageHashChain
  simp only
  split
  · exact Ends.pure nofun
  next free =>
  split
  · exact Ends.pure nofun
  refine Ends.bind (Steps.of_pure (cnodePeek_eq_pure.mpr ⟨resident, rfl⟩)) fun target _ => ?_
  split
  · exact Ends.pure nofun
  refine Ends.bind (typeIdentity_steps _) fun chain _ => ?_
  split
  · exact Ends.pure nofun
  rw [frameCnodeSet_eq frame resident, pure_bind]
  refine Ends.pure fun frame' same => ?_
  cases same
  exact .one _ (by simpa using free)

theorem unitHandle_ofReg (env : Env) (image : KernelImage) (r : Word64) :
    ∃ inst, unitHandle env.hashes image (Key.ofReg r) = some inst := by
  rw [unitHandle, keyToRegs, if_pos (by simp [Key.ofReg, maxKeyLen])]
  exact ⟨_, rfl⟩

/-- What a minting or merging operation does to the frame. -/
def Minted (frame : KernelFrame Runtime) (result : YieldOutcome × KernelFrame Runtime) : Prop :=
  result.1 = .trap ∧ result.2 = frame ∨ result.1 = .inline ∧ Edit frame result.2

theorem mintUnitHandle_steps (resident : frame.Resident) (image : KernelImage) (r : Word64) :
    Steps missing (Minted frame)
      (mintUnitHandle frame (unitHandle env.hashes image (Key.ofReg r))) := by
  obtain ⟨inst, made⟩ := unitHandle_ofReg env image r
  unfold mintUnitHandle minted
  rw [made, pure_bind]
  simp only
  split
  · exact Ends.pure (.inl ⟨rfl, rfl⟩)
  next free =>
    rw [frameCnodeSet_eq frame resident, pure_bind]
    exact Ends.pure (.inr ⟨rfl, .one _ (by simpa using free)⟩)

theorem mintYield_steps (resident : frame.Resident) :
    Steps missing (Minted frame) (mintYield env frame) := by
  obtain ⟨sender, made⟩ := unitHandle_ofReg env .yieldSender (frame.inst.regs 8)
  unfold mintYield minted yieldSender
  simp only
  split
  · exact Ends.pure (.inl ⟨rfl, rfl⟩)
  next free =>
    simp only [Bool.or_eq_true, not_or, Bool.not_eq_true] at free
    rw [made, pure_bind, frameCnodeSet_eq frame resident, pure_bind, frameCnodeSet_eq _
      ((sameButSlots_putSlot frame _ _).resident resident), pure_bind]
    exact Ends.pure (.inr ⟨rfl, .two _ _ free.1 free.2⟩)

theorem mergeReceivers_steps (resident : frame.Resident)
    (allowed : ReadsReceiver env frame → missing) :
    Steps missing (Minted frame) (mergeReceivers env frame) := by
  unfold mergeReceivers
  simp only
  split
  · exact Ends.pure (.inl ⟨rfl, rfl⟩)
  next free =>
  refine Ends.bind (readInstanceCapGuest_steps resident _) fun read found => ?_
  split
  · exact Ends.pure (.inl ⟨rfl, rfl⟩)
  · exact Ends.throw (by decide)
  next a =>
  refine Ends.bind (readInstanceCapGuest_steps resident _) fun read' found' => ?_
  split
  · exact Ends.pure (.inl ⟨rfl, rfl⟩)
  · exact Ends.throw (by decide)
  next b =>
  split
  next lost =>
    -- Merging panics if one of the two receivers cannot be read.
    refine Ends.crash (allowed ?_)
    cases keys : yieldReceiverKeys env.hashes a with
    | none => exact ⟨_, a, found _ rfl, keys⟩
    | some read =>
      cases keys' : yieldReceiverKeys env.hashes b with
      | none => exact ⟨_, b, found' _ rfl, keys'⟩
      | some read' =>
        simp only [mergeYieldReceivers, keys, keys', Option.bind_eq_bind, Option.bind_some] at lost
        cases read <;> cases read' <;> cases lost
  · exact Ends.pure (.inl ⟨rfl, rfl⟩)
  next merged _ =>
    rw [frameCnodeSet_eq frame resident, pure_bind]
    exact Ends.pure (.inr ⟨rfl, .one _ (by simpa using free)⟩)

/-! ## Yields -/

/-- The keys that put new capabilities into slots. -/
def mintKeys : List Key := [ykMintYield, ykMergeYieldReceiver, ykMintGas, ykMintQuota]

/-- The keys that the kernel handles at once. -/
def inlineKeys : List Key := ykSetGasMeter :: mintKeys

/-- What a yield does before it is routed. -/
inductive Yields (env : Env) (frame : KernelFrame Runtime) (gas : TaskGasState Key) :
    YieldOutcome → KernelFrame Runtime → TaskGasState Key → Prop
  | trap : Yields env frame gas .trap frame gas
  | edit {key : Key} {frame' : KernelFrame Runtime} (named : yieldKey env frame = pure (some key))
      (inline : key ∈ mintKeys) (edit : Edit frame frame') :
      Yields env frame gas .inline frame' gas
  | meter (named : yieldKey env frame = pure (some ykSetGasMeter)) :
      Yields env frame gas .inline (setGasMeter frame gas).1 (setGasMeter frame gas).2
  | route {key : Key} (named : yieldKey env frame = pure (some key)) (other : key ∉ inlineKeys) :
      Yields env frame gas (.route key (Key.ofReg (frame.inst.regs 7))) frame gas

theorem yieldKey_steps (resident : frame.Resident) :
    Steps missing (fun key => yieldKey env frame = pure key) (yieldKey env frame) := by
  refine Ends.mono (Ends.returns_self (P := fun _ => True) ?_) fun _ both => both.1
  unfold yieldKey
  refine Ends.bind (readInstanceCapGuest_steps resident _) fun read _ => ?_
  split <;> exact Ends.pure trivial

theorem dispatchHostYield_steps (resident : frame.Resident) (gas : TaskGasState Key)
    (allowed : ReadsReceiver env frame → missing) :
    Steps missing (fun result => Yields env frame gas result.1 result.2.1 result.2.2)
      (dispatchHostYield env frame gas) := by
  unfold dispatchHostYield
  refine Ends.bind (yieldKey_steps resident) fun read named => ?_
  split
  · exact Ends.pure .trap
  next key =>
  -- Each inline operation traps or edits the frame.
  have inline : ∀ {op : Fallible (YieldOutcome × KernelFrame Runtime)}, key ∈ mintKeys →
      Steps missing (Minted frame) op →
      Steps missing (fun result => Yields env frame gas result.1 result.2.1 result.2.2)
        (op >>= fun result => pure (result.1, result.2, gas)) := by
    intro op isInline steps
    refine Ends.bind steps fun result minted => ?_
    obtain ⟨outcome, frame'⟩ := result
    rcases minted with ⟨rfl, rfl⟩ | ⟨rfl, edit⟩
    · exact Ends.pure .trap
    · exact Ends.pure (.edit named isInline edit)
  split
  next user =>
    refine Ends.pure (.route named fun isInline => ?_)
    have isKernel : ∀ k ∈ inlineKeys, isKernelYieldKey k = true := by decide
    rw [isKernel key isInline] at user
    cases user
  split
  next same => exact inline (by simp [same, mintKeys]) (mintYield_steps resident)
  split
  next same => exact inline (by simp [same, mintKeys]) (mergeReceivers_steps resident allowed)
  split
  next same => exact inline (by simp [same, mintKeys]) (mintUnitHandle_steps resident _ _)
  split
  next same => exact inline (by simp [same, mintKeys]) (mintUnitHandle_steps resident _ _)
  split
  next same => exact Ends.pure (.meter (same ▸ named))
  next h1 h2 h3 h4 h5 =>
    exact Ends.pure (.route named (by simp [inlineKeys, mintKeys, h1, h2, h3, h4, h5]))

/-! ## Building frames -/

theorem materializeRootCnode_steps (target : CapHashOrRef Cap) :
    Steps missing (fun cnode : ResidentCNode Runtime =>
        materializeRootCnode env target = pure cnode)
      (materializeRootCnode env target) := by
  refine Ends.mono (Ends.returns_self (P := fun _ => True) ?_) fun _ both => both.1
  unfold materializeRootCnode
  split
  · split
    · exact Ends.pure trivial
    · split
      · exact Ends.throw (by decide)
      · exact Ends.pure trivial
      · exact Ends.throw (by decide)
  · exact Ends.pure trivial
  · exact Ends.throw (by decide)

/-- The slots that a call starts from: those that were at hand, or the stored ones. -/
def StartSlots (env : Env) (inst : InstanceCap Cap) (cached : Option (ResidentCNode Runtime))
    (cnode : ResidentCNode Runtime) : Prop :=
  cached = some cnode ∨ cached = none ∧ materializeRootCnode env inst.rootCnode = pure cnode

/-- A new frame of an instance. -/
structure FrameBuilt (env : Env) (inst : InstanceCap Cap)
    (cached : Option (ResidentCNode Runtime)) (origin : Option FrameOrigin)
    (child : KernelFrame Runtime) : Prop where
  image : ∃ img cnode, env.store inst.imageHash = some (.image img) ∧
    StartSlots env inst cached cnode ∧ child.slots = overlayImageSlots img cnode ∧
    child.pinned = img.pinned.map (·.slot)
  resident : child.Resident
  origin : child.origin = origin
  pendingOrigins : child.pendingOrigins = SortedMap.empty
  imageHash : child.inst.imageHash = inst.imageHash
  imageHashChain : child.inst.imageHashChain = inst.imageHashChain

/-- Another page table changes nothing. -/
theorem FrameBuilt.withRuntime {inst : InstanceCap Cap} {cached : Option (ResidentCNode Runtime)}
    {origin : Option FrameOrigin} {child : KernelFrame Runtime} {runtime : Option Runtime}
    (built : FrameBuilt env inst cached origin child) :
    FrameBuilt env inst cached origin { child with runtime } :=
  ⟨built.image, built.resident, built.origin, built.pendingOrigins, built.imageHash,
    built.imageHashChain⟩

theorem buildFrame_steps (inst : InstanceCap Cap) (cached : Option (ResidentCNode Runtime))
    (origin : Option FrameOrigin) (endpointIdx : BitVec 32) (args : Fin 4 → Word64) :
    Steps missing (FrameBuilt env inst cached origin)
      (buildFrame env inst cached origin endpointIdx args) := by
  unfold buildFrame
  refine Ends.bind (getImage_steps _) fun img found => ?_
  split
  · exact Ends.throw (by decide)
  cases cached with
  | some cnode =>
    exact Ends.pure ⟨⟨img, cnode, found, .inl rfl, rfl, rfl⟩, ⟨_, _, rfl⟩, rfl, rfl, rfl, rfl⟩
  | none =>
    refine Ends.bind (materializeRootCnode_steps _) fun cnode stored => ?_
    exact Ends.pure
      ⟨⟨img, cnode, found, .inr ⟨rfl, stored⟩, rfl, rfl⟩, ⟨_, _, rfl⟩, rfl, rfl, rfl, rfl⟩

/-! ## Calls -/

/-- The slots at hand of an instance that ran before. -/
def parkedSlots : CapCache Runtime (CachedCap Runtime) → Option (ResidentCNode Runtime)
  | .instance _ cnode => cnode
  | _ => none

/-- A child frame is built from the capability that was in the slot. -/
inductive Callee (env : Env) (origin : FrameOrigin) :
    ResidentTarget Runtime → KernelFrame Runtime → Prop
  | owned {inst : InstanceCap Cap} {cache : CapCache Runtime (CachedCap Runtime)}
      {child : KernelFrame Runtime}
      (built : FrameBuilt env inst (parkedSlots cache) (some origin) child) :
      Callee env origin (.owned (.mk (.inst inst) cache)) child
  | hash {h : CapHash} {inst : InstanceCap Cap} {child : KernelFrame Runtime}
      (stored : env.store h = some (.inst inst))
      (built : FrameBuilt env inst none (some origin) child) :
      Callee env origin (.hash h) child

/-- A frame that waits for the instance of a slot. -/
def withPending (frame : KernelFrame Runtime) (slot : Key) : KernelFrame Runtime :=
  { frame with pendingOrigins := frame.pendingOrigins.insert slot () }

/-- The caller and the child of a call, before the scratchpad moves. -/
inductive Calls (env : Env) (frame : KernelFrame Runtime) (owner : Nat) :
    KernelFrame Runtime → KernelFrame Runtime → Prop
  | mk {slot : Key} {callee : ResidentTarget Runtime} {child : KernelFrame Runtime}
      (named : slot = Key.ofReg (frame.inst.regs 7)) (free : slotIsPending frame slot = false)
      (held : frame.slots.peekKey slot = some callee) (built : Callee env ⟨owner, slot⟩ callee child) :
      Calls env frame owner (withPending (putSlot frame slot none) slot)
        (withRootCnode child
          (inheritSlots (withPending (putSlot frame slot none) slot).slots child.slots))

theorem dispatchHostCall_steps (resident : frame.Resident) (owner : Nat) :
    Steps missing (fun next => ∀ parent child, next = some (parent, child) →
        Calls env frame owner parent child)
      (dispatchHostCall env frame owner) := by
  unfold dispatchHostCall
  simp only
  split
  · exact Ends.pure nofun
  next free =>
  rw [frameCnodeTake_eq frame resident, pure_bind]
  have residentParent : (putSlot frame (Key.ofReg (frame.inst.regs 7)) none).Resident :=
    (sameButSlots_putSlot frame _ none).resident resident
  -- What is left to do once the child is built.
  have rest : ∀ {callee : ResidentTarget Runtime} {child : KernelFrame Runtime},
      frame.slots.peekKey (Key.ofReg (frame.inst.regs 7)) = some callee →
      Callee env ⟨owner, Key.ofReg (frame.inst.regs 7)⟩ callee child → child.Resident →
      Steps missing (fun next => ∀ parent child, next = some (parent, child) →
        Calls env frame owner parent child)
        (do
          let parent := withPending (putSlot frame (Key.ofReg (frame.inst.regs 7)) none)
            (Key.ofReg (frame.inst.regs 7))
          let __do_lift ← rootCnode parent
          let __do_lift_1 ← rootCnode child
          let cnode := inheritSlots __do_lift __do_lift_1
          return some (parent, withRootCnode child cnode)) := by
    intro callee child held built residentChild
    simp only
    have parentSlots : rootCnode (withPending (putSlot frame (Key.ofReg (frame.inst.regs 7)) none)
        (Key.ofReg (frame.inst.regs 7))) = pure (withPending
          (putSlot frame (Key.ofReg (frame.inst.regs 7)) none)
          (Key.ofReg (frame.inst.regs 7))).slots := rootCnode_of_resident residentParent
    rw [parentSlots, pure_bind, rootCnode_of_resident residentChild, pure_bind]
    refine Ends.pure fun parent child same => ?_
    cases same
    exact .mk rfl (by simpa using free) held built
  cases held : frame.slots.peekKey (Key.ofReg (frame.inst.regs 7)) with
  | none => exact Ends.throw (by decide)
  | some callee =>
    simp only
    split
    next inst cache =>
      refine Ends.bind (P := FrameBuilt env inst (parkedSlots cache)
        (some ⟨owner, Key.ofReg (frame.inst.regs 7)⟩)) ?_ fun child built => ?_
      · cases cache <;> exact buildFrame_steps ..
      rw [pure_bind]
      split
      · exact rest held (.owned built.withRuntime) built.resident
      · exact rest held (.owned built) built.resident
    · exact Ends.throw (by decide)
    next h =>
      split
      · exact Ends.throw (by decide)
      next inst stored =>
        refine Ends.bind (buildFrame_steps inst none _ _ _) fun child built => ?_
        exact rest held (.hash stored built) built.resident
      · exact Ends.throw (by decide)

end

/-! ## Catches -/

/-- An owner catches: it gets the payload and runs as a handler. -/
inductive Caught (stack : List (Entry Runtime)) (t : Nat) (payload : Option (InstanceCap Cap)) :
    List (Entry Runtime) → Prop
  | mk {c : Nat} {e : Entry Runtime} {f : KernelFrame Runtime}
      (caller : TransGen (Activation.Owns (activations stack)) t c) (found : stack[c]? = some e)
      (held : frameOf stack c = some f) :
      Caught stack t payload
        (putFrame stack c (setReg (give f scratchpadSlot
          (payload.map fun inst => .owned (.new (.inst inst)))) 8 statusYielded) ++
        [{ kind := .reference
           target := c
           instanceId := e.instanceId
           metadata := ⟨e.metadata.owner, [], e.metadata.gas⟩ }])

section

variable {env : Env} {missing : Prop} {stack : List (Entry Runtime)}

theorem findCatcher_steps (shape : StackShape stack) (key : Key) (fuel node : Nat)
    (inside : node < stack.length) (enough : node < fuel) :
    Steps missing (fun catcher => ∀ c, catcher = some c →
        TransGen (Activation.Owns (activations stack)) node c)
      (findCatcher stack key fuel node) := by
  induction fuel generalizing node with
  | zero => omega
  | succ fuel ih =>
    unfold findCatcher
    rw [List.getElem?_eq_getElem inside]
    simp only
    split
    · exact Ends.pure nofun
    next owner owned =>
      have owns : Activation.Owns (activations stack) node owner :=
        ⟨_, StackShape.activation (List.getElem?_eq_getElem inside), owned⟩
      split
      · refine Ends.pure fun c same => ?_
        cases same
        exact .single owns
      · have lower := shape.shaped.lt_of_owns owns
        refine Ends.mono (ih owner (by omega) (by omega)) fun catcher way c same => ?_
        exact .head owns (way c same)

theorem routeYield_steps (shape : StackShape stack) {topIdx : Nat} {top : Entry Runtime}
    (found : stack[topIdx]? = some top) (key : Key) (payload : Option (InstanceCap Cap)) :
    Steps missing (fun next => ∀ stack', next = some stack' → Caught stack top.target payload stack')
      (routeYield stack topIdx key payload) := by
  have inside := (List.getElem?_eq_some_iff.mp found).1
  have bounded := shape.target_le found
  unfold routeYield
  rw [found]
  simp only
  refine Ends.bind (findCatcher_steps shape key _ _ (by omega) (by omega)) fun catcher way => ?_
  cases catcher with
  | none => exact Ends.pure nofun
  | some c =>
    have caller := way c rfl
    obtain ⟨b, ⟨a, foundOwner, owned⟩⟩ := Activation.Shaped.owns_of_transGen caller
    rw [getElem?_activations] at foundOwner
    obtain ⟨e, foundEntry, rfl⟩ := Option.map_eq_some_iff.mp foundOwner
    obtain ⟨-, f, held⟩ := shape.frameOf_owner foundEntry owned
    obtain ⟨recv, foundRecv, own, same⟩ := shape.target_of_frameOf held
    have resident := shape.resident held
    simp only
    rw [foundRecv]
    simp only
    rw [shape.frameAt_own held, pure_bind]
    have caught : Caught stack top.target payload _ := .mk caller foundRecv held
    cases payload with
    | none =>
      simp only [pure_bind]
      rw [shape.setFrameAt_own held]
      refine Ends.pure fun stack' same => ?_
      cases same
      exact caught
    | some inst =>
      simp only
      rw [frameCnodeSet_eq f resident, pure_bind, shape.setFrameAt_own held]
      refine Ends.pure fun stack' same => ?_
      cases same
      exact caught

def atPc (frame : KernelFrame Runtime) (pc : BitVec 32) : KernelFrame Runtime :=
  { frame with inst := { frame.inst with pc := pc.setWidth 64 } }

/-- The frame on top cannot pay: it tries again on its next meter, or an owner catches the fault. -/
inductive Unpaid (env : Env) (stack : List (Entry Runtime)) (pc : BitVec 32) :
    List (Entry Runtime) → Prop
  | retried {top : Entry Runtime} {f : KernelFrame Runtime} {gas : FrameGas}
      (last : stack.getLast? = some top) (held : frameOf stack top.target = some f)
      (next : top.metadata.gas.advance = some gas) :
      Unpaid env stack pc (withGas (putFrame stack top.target (atPc f pc)) (stack.length - 1) gas)
  | starved {top : Entry Runtime} {f : KernelFrame Runtime} {meter : Key}
      {payload : InstanceCap Cap} {stack' : List (Entry Runtime)}
      (last : stack.getLast? = some top) (held : frameOf stack top.target = some f)
      (exhausted : top.metadata.gas.advance = none)
      (primary : top.metadata.gas.primaryKey = some meter)
      (handle : gasHandle env.hashes meter = some payload)
      (caught : Caught (withGas (putFrame stack top.target (atPc f pc)) (stack.length - 1)
        top.metadata.gas.resetToPrimary) top.target (some payload) stack') :
      Unpaid env stack pc stack'

theorem tryOogYield_steps (shape : StackShape stack) (pc : BitVec 32)
    (short : ∀ e ∈ stack, ShortKeys e.metadata.gas.meters) :
    Steps missing (fun next => ∀ stack', next = some stack' → Unpaid env stack pc stack')
      (tryOogYield env stack (stack.length - 1) pc) := by
  obtain ⟨top, last⟩ := shape.top
  have found : stack[stack.length - 1]? = some top := by rw [← List.getLast?_eq_getElem?, last]
  obtain ⟨f, held⟩ := shape.frameOf_target found
  have resident := shape.resident held
  unfold tryOogYield
  rw [found]
  simp only
  split
  · exact Ends.pure nofun
  rw [frameAt_eq_pure.mpr ⟨top, found, held⟩, pure_bind, setFrameAt_eq found]
  have shape' : StackShape (putFrame stack top.target (atPc f pc)) :=
    shape.putFrame held resident rfl
  split
  next gas next =>
    refine Ends.pure fun stack' same => ?_
    cases same
    exact .retried last held next
  next exhausted =>
    split
    · exact Ends.pure nofun
    next meter primary =>
      split
      next none_ =>
        -- The keys of the meter table fit into a register.
        have bounded : meter.length ≤ maxKeyLen :=
          short top (List.mem_of_getLast? last) meter (List.mem_of_head? primary)
        rw [gasHandle, unitHandle, keyToRegs, if_pos bounded] at none_
        cases none_
      next payload handle =>
        have shape'' := shape'.withGas (stack.length - 1) top.metadata.gas.resetToPrimary
        have found' : (withGas (putFrame stack top.target (atPc f pc)) (stack.length - 1)
            top.metadata.gas.resetToPrimary)[stack.length - 1]? = some
              { kind := if stack.length - 1 = top.target then .instance (atPc f pc) else top.kind
                target := top.target
                instanceId := top.instanceId
                metadata := { top.metadata with gas := top.metadata.gas.resetToPrimary } } := by
          rw [getElem?_withGas, getElem?_putFrame, found]
          by_cases own : stack.length - 1 = top.target <;> simp [own]
        refine Ends.mono (routeYield_steps shape'' found' ykOog (some payload))
          fun next caught stack' same => ?_
        exact .starved last held exhausted primary handle (caught stack' same)

end

/-! ## Effects -/

section

variable (env : Env) (rearmCow : Runtime → List Nat → Runtime)

def IsCall (info : ExitInfo) : Prop := info.exitReason = exitHostCall ∨ info.exitReason = exitEcall

def Asks (info : ExitInfo) (op : Nat) : Prop := IsCall info ∧ info.op = op

/-- The guest asks for a new capability in one of its slots. -/
def AsksMint (info : ExitInfo) (f : KernelFrame Runtime) : Prop :=
  Asks info opDeriveSpawn ∨ Asks info opImageHashChain ∨
    Asks info opHostYield ∧ ∃ key, yieldKey env f = pure (some key) ∧ key ∈ mintKeys

def Finishes (info : ExitInfo) : Prop := info.exitReason = exitHalt ∨ Asks info opReply

/-- What an operation that was paid for does to the task. -/
inductive Effect (s : Task Runtime) (info : ExitInfo) : Task Runtime → Prop
  | edited {top : Entry Runtime} {f f' : KernelFrame Runtime} (last : s.stack.getLast? = some top)
      (held : frameOf s.stack top.target = some f) (asked : AsksMint env info f)
      (edit : Edit f f') : Effect s info { s with stack := putFrame s.stack top.target f' }
  | metered {top : Entry Runtime} {f : KernelFrame Runtime} (last : s.stack.getLast? = some top)
      (held : frameOf s.stack top.target = some f) (asked : Asks info opHostYield)
      (named : yieldKey env f = pure (some ykSetGasMeter)) :
      Effect s info { s with
        stack := putFrame s.stack top.target (setGasMeter f s.gas).1
        gas := (setGasMeter f s.gas).2 }
  | yielded {top : Entry Runtime} {f : KernelFrame Runtime} {key : Key}
      {payload : Option (InstanceCap Cap)} {stack' : List (Entry Runtime)}
      (last : s.stack.getLast? = some top) (held : frameOf s.stack top.target = some f)
      (asked : Asks info opHostYield) (named : yieldKey env f = pure (some key))
      (other : key ∉ inlineKeys)
      (read : readInstanceCap env f (Key.ofReg (f.inst.regs 7)) = pure payload)
      (caught : Caught s.stack top.target payload stack') :
      Effect s info { s with stack := stack' }
  | replied {top : Entry Runtime} {stack' : List (Entry Runtime)} (finishes : Finishes info)
      (last : s.stack.getLast? = some top) (own : top.target = s.topIdx)
      (returned : Returned rearmCow (info.regs 7) s.stack stack') :
      Effect s info { s with stack := stack' }
  | unwound {top : Entry Runtime} {stack' : List (Entry Runtime)} (finishes : Finishes info)
      (last : s.stack.getLast? = some top) (other : top.target ≠ s.topIdx)
      (returned : Returned rearmCow (info.regs 7) (dropped s.stack (top.target + 1)) stack') :
      Effect s info { s with stack := stack' }
  | resumed {top below : Entry Runtime} {handler yielder : KernelFrame Runtime}
      (last : s.stack.getLast? = some top) (other : top.target ≠ s.topIdx)
      (asked : Asks info opCallResume) (held : frameOf s.stack top.target = some handler)
      (under : s.stack.dropLast.getLast? = some below)
      (waiting : frameOf s.stack below.target = some yielder) (lower : top.target < below.target) :
      Effect s info { s with
        stack := putFrame (putFrame s.stack.dropLast top.target
            (putSlot handler scratchpadSlot none)) below.target
          (setReg (give yielder scratchpadSlot (handler.slots.peekKey scratchpadSlot)) 8
            statusOk) }
  | dropped {top : Entry Runtime} (last : s.stack.getLast? = some top)
      (other : top.target ≠ s.topIdx) (asked : Asks info opDropResume) :
      Effect s info { s with stack := dropped s.stack (top.target + 1) }
  | called {top : Entry Runtime} {f parent child : KernelFrame Runtime} {catchSet : List Key}
      {gas : FrameGas} (last : s.stack.getLast? = some top)
      (held : frameOf s.stack top.target = some f) (asked : Asks info opHostCall)
      (calls : Calls env f top.target parent child)
      (funded : gas = top.metadata.gas ∨ DeclaredScope gas)
      (snapshot : snapshotCatchSet env f = pure (some catchSet)) :
      Effect s info { s with
        stack := putFrame s.stack top.target (putSlot parent scratchpadSlot none) ++
          [{ kind := .instance (give child scratchpadSlot (parent.slots.peekKey scratchpadSlot))
             target := s.stack.length
             instanceId := s.nextIid
             metadata := ⟨some top.target, catchSet, gas⟩ }]
        nextIid := s.nextIid + 1 }

/-- What the handling of an operation that was paid for returns. -/
def Handles (s : Task Runtime) (info : ExitInfo) (result : Flow × Task Runtime) : Prop :=
  match result.1 with
  | .resume => Effect env rearmCow s info result.2
  | .done outcome => result.2.gas = s.gas ∧ outcome.gasRemaining = s.gas.rootRemaining

variable {env : Env} {rearmCow : Runtime → List Nat → Runtime} {missing : Prop}
  {task : Task Runtime} {info : ExitInfo}

theorem handles_finish (exitReason exitArg : Nat) (value : Word64) (head : List Byte) :
    Handles env rearmCow task info (task.finish exitReason exitArg value head, task) := ⟨rfl, rfl⟩

theorem found_top {top : Entry Runtime} (last : task.stack.getLast? = some top) :
    task.stack[task.topIdx]? = some top := by
  rw [KernelTask.topIdx, ← List.getLast?_eq_getElem?, last]

theorem popAndReflect_steps {stack : List (Entry Runtime)} {e : Entry Runtime}
    {popped : KernelFrame Runtime} (integrity : Integrity stack) (last : stack.getLast? = some e)
    (own : ownFrame e = some popped) (value : Word64) :
    Steps missing (fun next => ∀ stack', next = some stack' → Returned rearmCow value stack stack')
      (popAndReflect rearmCow stack value) := by
  obtain ⟨base, rfl⟩ := List.getLast?_eq_some_iff.mp last
  cases below : base.getLast? with
  | none =>
    obtain rfl := List.getLast?_eq_none_iff.mp below
    rw [List.nil_append] at integrity ⊢
    rw [integrity.popAndReflect_root]
    exact Ends.pure nofun
  | some under =>
    obtain ⟨stack', ran, returned⟩ := integrity.popAndReflect_child rearmCow own below value
    rw [ran]
    refine Ends.pure fun next same => ?_
    cases same
    exact returned

/-- The frame that is left on top after everything above it is dropped. -/
theorem getLast?_dropped {stack : List (Entry Runtime)} (integrity : Integrity stack) {t : Nat}
    {f : KernelFrame Runtime} (held : frameOf stack t = some f) :
    ∃ e g, (dropped stack (t + 1)).getLast? = some e ∧ ownFrame e = some g := by
  have inside := lt_length_of_frameOf held
  have integrity' := integrity.dropped (Nat.succ_pos t)
  have length : (dropped stack (t + 1)).length = t + 1 := length_dropped inside
  obtain ⟨g, held'⟩ : ∃ g, frameOf (dropped stack (t + 1)) t = some g := by
    rw [dropped, frameOf_take (Nat.lt_succ_self t)]
    apply Option.isSome_iff_exists.mp
    rw [isSome_frameOf_released, held]
    rfl
  obtain ⟨e, found, own, -⟩ := integrity'.target_of_frameOf held'
  refine ⟨e, g, ?_, own⟩
  rw [List.getLast?_eq_getElem?, length]
  exact found

/-- With no frame left the task ends; otherwise it goes on in the frame below. -/
theorem settle_steps {drain : Fallible (Option (List (Entry Runtime)))} (head : List Byte)
    (drains : Steps missing (fun drained => ∀ stack', drained = some stack' →
      Effect env rearmCow task info { task with stack := stack' }) drain) :
    Steps missing (Handles env rearmCow task info) (drain >>= fun drained => match drained with
      | none => pure (task.finish info.exitReason info.exitArg (info.regs 7) head, task)
      | some stack => pure (.resume, { task with stack })) := by
  refine Ends.bind drains fun drained effect => ?_
  cases drained with
  | none => exact Ends.pure (handles_finish ..)
  | some stack' => exact Ends.pure (effect stack' rfl)

/-- What is left to do once the head of the scratchpad region is read. -/
theorem finishHead_steps (integrity : Integrity task.stack) (finishes : Finishes info)
    {top : Entry Runtime} (last : task.stack.getLast? = some top) (head : List Byte) :
    Steps missing (Handles env rearmCow task info) (do
      let drained ← if top.target ≠ task.topIdx then
          unwindToHandler rearmCow task.stack task.topIdx (info.regs 7)
        else popAndReflect rearmCow task.stack (info.regs 7)
      match drained with
      | none => return (task.finish info.exitReason info.exitArg (info.regs 7) head, task)
      | some stack => return (.resume, { task with stack })) := by
  have found := found_top last
  obtain ⟨f, held⟩ := integrity.frameOf_target found
  simp only
  split
  next other =>
    refine settle_steps head ?_
    unfold unwindToHandler
    rw [found]
    simp only
    rw [releasePendingOriginsForDropped_eq integrity.toStackShape, pure_bind]
    obtain ⟨e, g, last', own⟩ := getLast?_dropped integrity held
    refine Ends.mono (popAndReflect_steps (integrity.dropped (Nat.succ_pos top.target)) last'
      own (info.regs 7)) fun next returned stack' same => ?_
    exact .unwound finishes last other (returned stack' same)
  next own =>
    refine settle_steps head ?_
    have own := not_not.mp own
    obtain ⟨e, found', ownFrame', -⟩ := integrity.target_of_frameOf held
    rw [own, found] at found'
    obtain rfl := Option.some.inj found'
    refine Ends.mono (popAndReflect_steps integrity last ownFrame' (info.regs 7))
      fun next returned stack' same => ?_
    exact .replied finishes last own (returned stack' same)

theorem finishFrame_steps (integrity : Integrity task.stack) (finishes : Finishes info)
    (allowed : ReadsMissing env task.stack → missing) :
    Steps missing (Handles env rearmCow task info) (finishFrame rearmCow task info) := by
  obtain ⟨top, last⟩ := integrity.top
  have found := found_top last
  obtain ⟨f, held⟩ := integrity.frameOf_target found
  have running := frameAt_eq_pure.mpr ⟨top, found, held⟩
  unfold finishFrame
  simp only
  rw [found]
  simp only
  split
  · rw [running, pure_bind]
    refine Ends.bind (P := fun _ => True) ?_ fun head _ =>
      finishHead_steps integrity finishes last head
    cases read : readScratchpadHead f with
    | none => exact allowed ⟨_, f, held, .inl read⟩
    | some result =>
      cases result with
      | error e =>
        unfold readScratchpadHead at read
        split at read
        · split at read <;> cases read
        · cases read
      | ok head => trivial
  · exact finishHead_steps integrity finishes last _

theorem inFrame_steps (integrity : Integrity task.stack)
    {dispatch : KernelFrame Runtime → Fallible (Option (KernelFrame Runtime))}
    (steps : ∀ f : KernelFrame Runtime, f.Resident →
      Steps missing (fun next => ∀ f', next = some f' → Edit f f') (dispatch f))
    (asked : ∀ f : KernelFrame Runtime, AsksMint env info f) :
    Steps missing (Handles env rearmCow task info) (inFrame task info dispatch) := by
  obtain ⟨top, last⟩ := integrity.top
  have found := found_top last
  obtain ⟨f, held⟩ := integrity.frameOf_target found
  unfold inFrame
  rw [frameAt_eq_pure.mpr ⟨top, found, held⟩, pure_bind]
  refine Ends.bind (steps f (integrity.resident held)) fun next edit => ?_
  split
  · exact Ends.pure (handles_finish ..)
  next f' =>
    rw [setFrameAt_eq found]
    exact Ends.pure (Effect.edited last held (asked f) (edit f' rfl))

theorem hostYield_steps (integrity : Integrity task.stack) (asked : Asks info opHostYield)
    (allowed : ReadsMissing env task.stack → missing) :
    Steps missing (Handles env rearmCow task info) (hostYield env task info) := by
  obtain ⟨top, last⟩ := integrity.top
  have found := found_top last
  obtain ⟨f, held⟩ := integrity.frameOf_target found
  have resident := integrity.resident held
  have running := frameAt_eq_pure.mpr ⟨top, found, held⟩
  unfold hostYield
  rw [running, pure_bind]
  refine Ends.bind (dispatchHostYield_steps resident task.gas
    fun reads => allowed ⟨_, f, held, .inr reads⟩) fun result yields => ?_
  obtain ⟨outcome, f', gas⟩ := result
  simp only at yields ⊢
  rw [setFrameAt_eq found]
  cases yields with
  | trap => exact Ends.pure ⟨rfl, rfl⟩
  | edit named inline edit =>
    exact Ends.pure (Effect.edited last held (.inr (.inr ⟨asked, _, named, inline⟩)) edit)
  | meter named => exact Ends.pure (Effect.metered last held asked named)
  | @route key named other =>
    -- The frame is as it was.
    simp only [integrity.toStackShape.putFrame_self held]
    change Steps missing _ (frameAt task.stack task.topIdx >>= _)
    rw [running, pure_bind]
    refine Ends.bind (readInstanceCap_steps resident _) fun payload read => ?_
    refine Ends.bind (routeYield_steps integrity.toStackShape found key payload)
      fun next caught => ?_
    split
    next stack' =>
      exact Ends.pure (Effect.yielded last held asked named other read (caught stack' rfl))
    · exact Ends.pure ⟨rfl, rfl⟩

theorem dropLast_putFrame (stack : List (Entry Runtime)) (t : Nat) (f : KernelFrame Runtime) :
    (putFrame stack t f).dropLast = putFrame stack.dropLast t f := by
  apply List.ext_getElem?
  intro i
  simp only [List.getElem?_dropLast, getElem?_putFrame, length_putFrame]
  split <;> rfl

theorem callResume_steps (integrity : Integrity task.stack) (asked : Asks info opCallResume) :
    Steps missing (Handles env rearmCow task info) (callResume task info) := by
  obtain ⟨top, last⟩ := integrity.top
  have found := found_top last
  obtain ⟨handler, held⟩ := integrity.frameOf_target found
  have resident := integrity.resident held
  unfold callResume
  simp only
  rw [found]
  simp only
  split
  · exact Ends.pure (handles_finish ..)
  next other =>
  -- A handler is not the first entry: below it waits the one that it caught from.
  obtain ⟨base, split_⟩ := List.getLast?_eq_some_iff.mp last
  have nonempty : base ≠ [] := by
    intro empty
    have := integrity.target_le found
    simp only [KernelTask.topIdx, split_, empty, List.nil_append, List.length_singleton] at this other
    omega
  obtain ⟨below, under⟩ : ∃ below, base.getLast? = some below :=
    ⟨_, List.getLast?_eq_some_getLast nonempty⟩
  have baseEq : task.stack.dropLast = base := by rw [split_, List.dropLast_concat]
  have underFound := Activation.getElem?_of_getLast? under
  have lastIdx : task.topIdx = base.length - 1 + 1 := by
    have := List.length_pos_iff.mpr nonempty
    simp only [KernelTask.topIdx, split_, List.length_append, List.length_cons, List.length_nil]
    omega
  have underFound' : task.stack[base.length - 1]? = some below := by
    rw [split_]
    exact Activation.getElem?_append_of_some underFound [top]
  rw [lastIdx] at other
  have way := integrity.shaped.caller_of_catch
    (lastIdx ▸ StackShape.activation found) (StackShape.activation underFound') other
  have lower := integrity.shaped.lt_of_transGen way
  simp only at lower
  obtain ⟨yielder, waiting⟩ := integrity.frameOf_target underFound'
  have inside : below.target < base.length := by
    have := integrity.target_le underFound'
    have := List.length_pos_iff.mpr nonempty
    omega
  rw [frameAt_eq_pure.mpr ⟨top, found, held⟩, pure_bind, frameCnodeTake_eq handler resident,
    pure_bind]
  simp only
  rw [setFrameAt_eq found, dropLast_putFrame, baseEq, length_putFrame]
  have underFound'' : (putFrame base top.target (putSlot handler scratchpadSlot none))[
      base.length - 1]? = some (if base.length - 1 = top.target then
        { below with kind := .instance (putSlot handler scratchpadSlot none) } else below) := by
    rw [getElem?_putFrame, underFound]
    rfl
  have waiting' : frameOf (putFrame base top.target (putSlot handler scratchpadSlot none))
      below.target = some yielder := by
    rw [frameOf_putFrame_ne (by omega), ← waiting, split_, frameOf_append inside]
  have target : (if base.length - 1 = top.target then
      { below with kind := .instance (putSlot handler scratchpadSlot none) } else below).target =
      below.target := by
    split <;> rfl
  have effect : Effect env rearmCow task info _ :=
    .resumed last (lastIdx ▸ other) asked held (baseEq ▸ under) waiting lower
  rw [baseEq] at effect
  rw [frameAt_eq_pure.mpr ⟨_, underFound'', by rw [target]; exact waiting'⟩, pure_bind]
  have residentYielder := integrity.resident waiting
  cases response : handler.slots.peekKey scratchpadSlot with
  | none =>
    simp only [pure_bind]
    rw [setFrameAt_eq underFound'', target]
    rw [response] at effect
    exact Ends.pure effect
  | some cap =>
    simp only
    rw [frameCnodeSet_eq yielder residentYielder, pure_bind, setFrameAt_eq underFound'', target]
    rw [response] at effect
    exact Ends.pure effect

theorem dropResume_steps (integrity : Integrity task.stack) (asked : Asks info opDropResume) :
    Steps missing (Handles env rearmCow task info) (dropResume task info) := by
  obtain ⟨top, last⟩ := integrity.top
  have found := found_top last
  unfold dropResume
  simp only
  rw [found]
  simp only
  split
  · exact Ends.pure (handles_finish ..)
  next other =>
    rw [releasePendingOriginsForDropped_eq integrity.toStackShape, pure_bind]
    exact Ends.pure (Effect.dropped last other asked)

theorem Calls.resident {f parent child : KernelFrame Runtime} {owner : Nat} (resident : f.Resident)
    (calls : Calls env f owner parent child) : parent.Resident ∧ child.Resident := by
  cases calls with
  | mk named free held built =>
    refine ⟨(sameButSlots_putSlot f _ none).resident resident, resident_withRootCnode ?_ _⟩
    cases built with
    | owned built => exact built.resident
    | hash stored built => exact built.resident

theorem hostCall_steps (integrity : Integrity task.stack) (asked : Asks info opHostCall)
    (allowed : ReadsMissing env task.stack → missing) :
    Steps missing (Handles env rearmCow task info) (hostCall env task info) := by
  obtain ⟨top, last⟩ := integrity.top
  have found := found_top last
  obtain ⟨f, held⟩ := integrity.frameOf_target found
  have resident := integrity.resident held
  have running := frameAt_eq_pure.mpr ⟨top, found, held⟩
  unfold hostCall
  simp only
  rw [found]
  simp only
  rw [running, pure_bind]
  refine Ends.bind (Ends.returns_self (snapshotCatchSet_steps resident
    fun reads => allowed ⟨_, f, held, .inr reads⟩)) fun read snapshot => ?_
  split
  · exact Ends.pure (handles_finish ..)
  next catchSet =>
  rw [pure_bind]
  refine Ends.bind (dispatchHostCall_steps resident top.target) fun next calls => ?_
  split
  · exact Ends.pure (handles_finish ..)
  next parent child =>
  have calls := calls parent child rfl
  obtain ⟨residentParent, residentChild⟩ := calls.resident resident
  rw [frameCnodeTake_eq parent residentParent, pure_bind]
  simp only
  -- What is left to do once the scratchpad has moved.
  have rest : ∀ child' : KernelFrame Runtime,
      child' = give child scratchpadSlot (parent.slots.peekKey scratchpadSlot) → child'.Resident →
      Steps missing (Handles env rearmCow task info) (do
        let stack := setFrameAt task.stack task.topIdx (putSlot parent scratchpadSlot none)
        let gas ← resolveFrameGas env child'
        let entry : Entry Runtime :=
          { kind := .instance child'
            target := stack.length
            instanceId := task.nextIid
            metadata := ⟨some top.target, catchSet, gas.getD top.metadata.gas⟩ }
        return (.resume, { task with stack := stack ++ [entry], nextIid := task.nextIid + 1 })) := by
    intro child' same residentChild'
    simp only
    refine Ends.bind (resolveFrameGas_steps residentChild') fun gas declared => ?_
    rw [setFrameAt_eq found, length_putFrame, same]
    refine Ends.pure (Effect.called last held asked calls ?_ snapshot.1)
    cases gas with
    | none => exact .inl rfl
    | some gas => exact .inr (declared gas rfl)
  cases scratch : parent.slots.peekKey scratchpadSlot with
  | none =>
    simp only [pure_bind]
    rw [scratch] at rest
    exact rest child rfl residentChild
  | some cap =>
    simp only
    rw [scratch] at rest
    rw [frameCnodeSet_eq child residentChild, pure_bind]
    exact rest _ rfl ((sameButSlots_putSlot child _ _).resident residentChild)

/-! ## Payment -/

theorem callFrameCostFor_steps (imageHash : CapHash) :
    Steps missing (fun cost => 0 ≤ cost) (callFrameCostFor env imageHash) := by
  unfold callFrameCostFor
  refine Ends.bind (getImage_steps _) fun img _ => ?_
  exact Ends.pure (Int.natCast_nonneg _)

theorem hostCallFrameCost_steps {f : KernelFrame Runtime} (resident : f.Resident) :
    Steps missing (fun cost => ∀ c, cost = some c → 0 ≤ c) (hostCallFrameCost env f) := by
  have rest : ∀ imageHash : CapHash, Steps missing (fun cost => ∀ c, cost = some c → 0 ≤ c)
      (do return some (← callFrameCostFor env imageHash)) := by
    intro imageHash
    refine Ends.bind (callFrameCostFor_steps imageHash) fun cost nonneg => ?_
    refine Ends.pure fun c same => ?_
    cases same
    exact nonneg
  unfold hostCallFrameCost
  simp only
  split
  · exact Ends.pure nofun
  rw [cnodePeek_eq_pure.mpr ⟨resident, rfl⟩, pure_bind]
  split
  · rw [pure_bind]
    exact rest _
  · exact Ends.throw (by decide)
  · split
    · exact Ends.throw (by decide)
    · rw [pure_bind]
      exact rest _
    · exact Ends.throw (by decide)
  · exact Ends.throw (by decide)

theorem ecallCost_steps (integrity : Integrity task.stack) (op : Nat) :
    Steps missing (fun cost => 0 ≤ cost.1) (ecallCost env task op info) := by
  obtain ⟨top, last⟩ := integrity.top
  have found := found_top last
  obtain ⟨f, held⟩ := integrity.frameOf_target found
  have base : 0 ≤ (ecallDynamicCost (decide (info.exitReason = exitHostCall)) : Int) :=
    Int.natCast_nonneg _
  unfold ecallCost
  simp only
  split
  · split
    · exact Ends.throw (by decide)
    · rw [frameAt_eq_pure.mpr ⟨top, found, held⟩, pure_bind]
      refine Ends.bind (hostCallFrameCost_steps (integrity.resident held)) fun cost nonneg => ?_
      split
      next cost' => exact Ends.pure (add_nonneg base (nonneg cost' rfl))
      · exact Ends.pure base
  · exact Ends.pure base

def charge (task : Task Runtime) (cost : Int) : Task Runtime :=
  { task with gas := { task.gas with liveGas := task.gas.liveGas - cost } }

instance (info : ExitInfo) : Decidable (IsCall info) := inferInstanceAs (Decidable (_ ∨ _))

/-- What the guest pays for an exit: the price of a call, if the live balance covers it. -/
def payment (env : Env) (task : Task Runtime) (info : ExitInfo) : Option Int :=
  if IsCall info then
    match ecallCost env task info.op info with
    | some (.ok (cost, _)) => if task.gas.liveGas < cost then none else some cost
    | _ => none
  else none

theorem isCall_of_payment {cost : Int} (pays : payment env task info = some cost) :
    IsCall info := by
  by_contra other
  rw [payment, if_neg other] at pays
  cases pays

/-- A payment is the price of the call, which the live balance covers. -/
theorem of_payment {cost : Int} (pays : payment env task info = some cost) :
    ∃ pending, ecallCost env task info.op info = pure (cost, pending) ∧ ¬ task.gas.liveGas < cost := by
  rw [payment, if_pos (isCall_of_payment pays)] at pays
  split at pays
  next cost' pending price =>
    split at pays
    · cases pays
    next enough =>
      cases pays
      exact ⟨pending, price, enough⟩
  · cases pays

theorem payment_of_halt (reason : info.exitReason = exitHalt) : payment env task info = none := by
  rw [payment, if_neg]
  rintro (call | call) <;> (rw [reason] at call; cases call)

/-- Where a frame that could not pay goes on: at the block, or at the call. -/
def Reattempts (info : ExitInfo) (pc : BitVec 32) : Prop :=
  info.exitReason = exitOog ∧ pc = info.pc ∨ IsCall info ∧ pc = reattemptPc info.pc

/-- What the handling of an exit returns. -/
inductive Handled (env : Env) (rearmCow : Runtime → List Nat → Runtime) (task : Task Runtime)
    (info : ExitInfo) : Flow × Task Runtime → Prop
  | halted {result : Flow × Task Runtime} (reason : info.exitReason = exitHalt)
      (handles : Handles env rearmCow task info result) : Handled env rearmCow task info result
  | paid {cost : Int} {result : Flow × Task Runtime} (pays : payment env task info = some cost)
      (nonneg : 0 ≤ cost) (handles : Handles env rearmCow (charge task cost) info result) :
      Handled env rearmCow task info result
  | unpaid {pc : BitVec 32} {stack' : List (Entry Runtime)} (why : Reattempts info pc)
      (free : payment env task info = none) (unpaid : Unpaid env task.stack pc stack') :
      Handled env rearmCow task info (.resume, { task with stack := stack' })
  | ended {outcome : LoopOutcome} (free : payment env task info = none)
      (remaining : outcome.gasRemaining = task.gas.rootRemaining) :
      Handled env rearmCow task info (.done outcome, task)

theorem onEcall_steps (integrity : Integrity task.stack)
    (short : ∀ e ∈ task.stack, ShortKeys e.metadata.gas.meters) (call : IsCall info)
    (allowed : ReadsMissing env task.stack → missing) :
    Steps missing (Handled env rearmCow task info) (onEcall env rearmCow task info.op info) := by
  unfold onEcall
  refine Ends.bind (Ends.returns_self (ecallCost_steps integrity info.op)) fun cost bounds => ?_
  obtain ⟨cost, pending⟩ := cost
  obtain ⟨price, nonneg⟩ := bounds
  simp only at nonneg ⊢
  have pays : payment env task info = if task.gas.liveGas < cost then none else some cost := by
    rw [payment, if_pos call, price]
    rfl
  split
  next short_ =>
    rw [if_pos short_] at pays
    refine Ends.bind (tryOogYield_steps integrity.toStackShape _ short) fun next unpaid => ?_
    split
    next stack' => exact Ends.pure (.unpaid (.inr ⟨call, rfl⟩) pays (unpaid stack' rfl))
    · exact Ends.pure (.ended pays rfl)
  next enough =>
    rw [if_neg enough] at pays
    -- Every operation works on the task that paid.
    have paid : ∀ {step : Fallible (Flow × Task Runtime)},
        Steps missing (Handles env rearmCow (charge task cost) info) step →
        Steps missing (Handled env rearmCow task info) step :=
      fun steps => Ends.mono steps fun _ handles => .paid pays nonneg handles
    have integrity' : Integrity (charge task cost).stack := integrity
    split
    next asked => exact paid (finishFrame_steps integrity' (.inr ⟨call, asked⟩) allowed)
    split
    next asked =>
      exact paid (inFrame_steps integrity' (fun f resident => dispatchDeriveSpawn_steps resident)
        fun f => .inl ⟨call, asked⟩)
    split
    next asked =>
      exact paid (inFrame_steps integrity'
        (fun f resident => dispatchImageHashChain_steps resident) fun f => .inr (.inl ⟨call, asked⟩))
    split
    next asked => exact paid (hostYield_steps integrity' ⟨call, asked⟩ allowed)
    split
    next asked => exact paid (callResume_steps integrity' ⟨call, asked⟩)
    split
    next asked => exact paid (dropResume_steps integrity' ⟨call, asked⟩)
    split
    next asked =>
      split
      · exact paid (Ends.pure (handles_finish ..))
      · exact paid (hostCall_steps integrity' ⟨call, asked⟩ allowed)
    · exact paid (Ends.pure (handles_finish ..))

theorem onExit_steps (integrity : Integrity task.stack)
    (short : ∀ e ∈ task.stack, ShortKeys e.metadata.gas.meters) (other : ¬ IsCall info) :
    Steps missing (Handled env rearmCow task info) (onExit env task info) := by
  have free : payment env task info = none := if_neg other
  unfold onExit
  simp only
  split
  next reason =>
    refine Ends.bind (tryOogYield_steps integrity.toStackShape _ short) fun next unpaid => ?_
    split
    next stack' => exact Ends.pure (.unpaid (.inl ⟨reason, rfl⟩) free (unpaid stack' rfl))
    · exact Ends.pure (.ended free rfl)
  · exact Ends.pure (.ended free rfl)

theorem dispatchExit_call {machine : KernelMachine Runtime} (call : IsCall info) :
    dispatchExit (javm env machine) task info = onEcall env machine.rearmCow task info.op info := by
  have running : info.exitReason ≠ exitHalt := by
    rcases call with reason | reason <;> rw [reason] <;> decide
  exact (if_neg running).trans (if_pos call)

theorem dispatchExit_exit {machine : KernelMachine Runtime} (reason : info.exitReason = exitOog) :
    dispatchExit (javm env machine) task info = onExit env task info := by
  have running : info.exitReason ≠ exitHalt := by rw [reason]; decide
  have other : ¬ IsCall info := by
    rintro (call | call) <;> (rw [reason] at call; cases call)
  exact (if_neg running).trans (if_neg other)

/-- Handling an exit of a well-formed stack: no broken origins, panics only on missing pages, and
one of the known effects. -/
theorem dispatchExit_steps {machine : KernelMachine Runtime} (integrity : Integrity task.stack)
    (short : ∀ e ∈ task.stack, ShortKeys e.metadata.gas.meters) :
    Steps (ReadsMissing env task.stack) (Handled env machine.rearmCow task info)
      (dispatchExit (javm env machine) task info) := by
  unfold dispatchExit
  split
  next reason =>
    exact Ends.mono (finishFrame_steps integrity (.inl reason) id) fun _ handles => .halted reason handles
  split
  next call => exact onEcall_steps integrity short call id
  next other => exact onExit_steps integrity short other

end

end Jar.Kernel
