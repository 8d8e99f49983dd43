import Jar.Proofs.KernelStack

/-! What handling an exit does to the call stack. -/

namespace Jar.Kernel

open Javm Ssz Relation
open scoped Word

variable {Runtime : Type}

/-! ## Well-shaped stacks -/

/-- The stacks that calls and catches build: an entry holds a frame exactly if it is an invocation
of its own, and the frame came out of a slot of the invocation that called it. -/
structure StackShape (stack : List (Entry Runtime)) : Prop where
  shaped : Activation.Shaped (activations stack)
  own : ∀ (i : Nat) (e : Entry Runtime), stack[i]? = some e →
    ((ownFrame e).isSome ↔ e.target = i)
  frames : ∀ (i : Nat) (e : Entry Runtime) (f : KernelFrame Runtime), stack[i]? = some e →
    ownFrame e = some f →
    f.Resident ∧ f.origin.map (·.owner) = e.metadata.owner

namespace StackShape

variable {stack : List (Entry Runtime)} {i t : Nat} {e : Entry Runtime}
  {f frame : KernelFrame Runtime}

theorem ne_nil (shape : StackShape stack) : stack ≠ [] := by
  intro empty
  exact shape.shaped.ne_nil (by rw [empty]; rfl)

theorem length_pos (shape : StackShape stack) : 0 < stack.length :=
  List.length_pos_iff.mpr shape.ne_nil

theorem top (shape : StackShape stack) : ∃ top, stack.getLast? = some top :=
  ⟨_, List.getLast?_eq_some_getLast shape.ne_nil⟩

theorem activation (found : stack[i]? = some e) :
    (activations stack)[i]? = some ⟨e.target, e.metadata.owner⟩ := by
  rw [getElem?_activations, found]
  rfl

theorem target_le (shape : StackShape stack) (found : stack[i]? = some e) : e.target ≤ i :=
  shape.shaped.target_le (activation found)

theorem target_of_frameOf (shape : StackShape stack) (held : frameOf stack t = some f) :
    ∃ e, stack[t]? = some e ∧ ownFrame e = some f ∧ e.target = t := by
  obtain ⟨e, found, own⟩ := Option.bind_eq_some_iff.mp held
  exact ⟨e, found, own, (shape.own t e found).mp (by rw [own]; rfl)⟩

theorem frameOf_target (shape : StackShape stack) (found : stack[i]? = some e) :
    ∃ f, frameOf stack e.target = some f := by
  obtain ⟨own, held, same, -⟩ := (shape.shaped.started (activation found)).own
  rw [getElem?_activations] at held
  obtain ⟨e', found', rfl⟩ := Option.map_eq_some_iff.mp held
  have isOwn := (shape.own _ e' found').mpr same
  exact ⟨_, by rw [frameOf, found', Option.bind_some, Option.some_get isOwn]⟩

theorem frameOf_owner (shape : StackShape stack) {o : Nat} (found : stack[i]? = some e)
    (owner : e.metadata.owner = some o) : o < e.target ∧ ∃ f, frameOf stack o = some f := by
  obtain ⟨lower, own, held, same⟩ :=
    (shape.shaped.started (activation found)).owner_lt o owner
  rw [getElem?_activations] at held
  obtain ⟨e', found', rfl⟩ := Option.map_eq_some_iff.mp held
  have isOwn := (shape.own _ e' found').mpr same
  exact ⟨lower, _, by rw [frameOf, found', Option.bind_some, Option.some_get isOwn]⟩

theorem resident (shape : StackShape stack) (held : frameOf stack t = some f) : f.Resident := by
  obtain ⟨e, found, own, -⟩ := shape.target_of_frameOf held
  exact (shape.frames t e f found own).1

theorem frameAt_own (shape : StackShape stack) (held : frameOf stack t = some f) :
    frameAt stack t = pure f := by
  obtain ⟨e, found, own, same⟩ := shape.target_of_frameOf held
  exact frameAt_eq_pure.mpr ⟨e, found, by rwa [same]⟩

theorem setFrameAt_own (shape : StackShape stack) (held : frameOf stack t = some f) :
    setFrameAt stack t frame = putFrame stack t frame := by
  obtain ⟨e, found, own, same⟩ := shape.target_of_frameOf held
  rw [setFrameAt_eq found, same]

/-- Writing a frame back as it is. -/
theorem putFrame_self (shape : StackShape stack) (held : frameOf stack t = some f) :
    Kernel.putFrame stack t f = stack := by
  apply List.ext_getElem?
  intro i
  rw [getElem?_putFrame]
  by_cases here : i = t
  · obtain ⟨e, found, own, -⟩ := shape.target_of_frameOf held
    rw [here, found]
    simp only [Option.map_some, if_true]
    obtain ⟨kind, target, iid, metadata⟩ := e
    cases kind with
    | «instance» g => cases own; rfl
    | reference => cases own
  · simp [here]

theorem putFrame (shape : StackShape stack) (held : frameOf stack t = some f)
    (resident : frame.Resident) (origin : frame.origin = f.origin) :
    StackShape (putFrame stack t frame) := by
  refine ⟨by simpa using shape.shaped, fun i e found => ?_, fun i e g found own => ?_⟩
  · rw [getElem?_putFrame] at found
    obtain ⟨e, was, rfl⟩ := Option.map_eq_some_iff.mp found
    obtain ⟨e', found', own, same⟩ := shape.target_of_frameOf held
    by_cases here : i = t
    · subst here
      obtain rfl := Option.some.inj (was.symm.trans found')
      simp [ownFrame, same]
    · simpa [here] using shape.own i e was
  · rw [getElem?_putFrame] at found
    obtain ⟨e, was, rfl⟩ := Option.map_eq_some_iff.mp found
    obtain ⟨e', found', own', same⟩ := shape.target_of_frameOf held
    by_cases here : i = t
    · subst here
      obtain rfl := Option.some.inj (was.symm.trans found')
      rw [if_pos rfl] at own ⊢
      cases own
      rw [origin]
      exact ⟨resident, (shape.frames i e f was own').2⟩
    · rw [if_neg here] at own ⊢
      exact shape.frames i e g was own

end StackShape

theorem putFrame_putFrame (stack : List (Entry Runtime)) (t : Nat)
    (frame frame' : KernelFrame Runtime) :
    putFrame (putFrame stack t frame) t frame' = putFrame stack t frame' := by
  apply List.ext_getElem?
  intro i
  simp only [getElem?_putFrame, Option.map_map]
  congr 1
  funext e
  by_cases here : i = t <;> simp [here]

/-! ## Gas scopes of entries -/

def withGas (stack : List (Entry Runtime)) (i : Nat) (gas : FrameGas) : List (Entry Runtime) :=
  stack.modify i fun e => { e with metadata := { e.metadata with gas } }

theorem getElem?_withGas (stack : List (Entry Runtime)) (i j : Nat) (gas : FrameGas) :
    (withGas stack i gas)[j]? = stack[j]?.map fun e =>
      if j = i then { e with metadata := { e.metadata with gas } } else e := by
  rw [withGas, List.getElem?_modify]
  by_cases same : i = j
  · simp [same]
  · simp [same, Ne.symm same]

@[simp]
theorem length_withGas (stack : List (Entry Runtime)) (i : Nat) (gas : FrameGas) :
    (withGas stack i gas).length = stack.length := List.length_modify ..

@[simp]
theorem activations_withGas (stack : List (Entry Runtime)) (i : Nat) (gas : FrameGas) :
    activations (withGas stack i gas) = activations stack := by
  apply List.ext_getElem?
  intro j
  simp only [activations, List.getElem?_map, getElem?_withGas, Option.map_map]
  congr 1
  funext e
  simp only [Function.comp]
  split <;> rfl

@[simp]
theorem frameOf_withGas (stack : List (Entry Runtime)) (i t : Nat) (gas : FrameGas) :
    frameOf (withGas stack i gas) t = frameOf stack t := by
  rw [frameOf, frameOf, getElem?_withGas]
  cases stack[t]? with
  | none => rfl
  | some e =>
    simp only [Option.map_some, Option.bind_some]
    split <;> rfl

theorem StackShape.withGas {stack : List (Entry Runtime)} (shape : StackShape stack) (i : Nat)
    (gas : FrameGas) : StackShape (withGas stack i gas) := by
  refine ⟨by simpa using shape.shaped, fun j e found => ?_, fun j e f found own => ?_⟩
  · rw [getElem?_withGas] at found
    obtain ⟨e, was, rfl⟩ := Option.map_eq_some_iff.mp found
    have old := shape.own j e was
    split <;> exact old
  · rw [getElem?_withGas] at found
    obtain ⟨e, was, rfl⟩ := Option.map_eq_some_iff.mp found
    by_cases here : j = i
    · rw [if_pos here] at own ⊢
      exact shape.frames j e f was own
    · rw [if_neg here] at own ⊢
      exact shape.frames j e f was own

/-! ## Forgotten origins -/

/-- A frame that no longer waits for the instance of a slot. -/
def withoutPending (frame : KernelFrame Runtime) (slot : Key) : KernelFrame Runtime :=
  { frame with pendingOrigins := frame.pendingOrigins.remove slot }

/-- A frame no longer waits for an instance that came out of one of its slots. -/
def forgetOrigin (stack : List (Entry Runtime)) (origin : FrameOrigin) : List (Entry Runtime) :=
  match frameOf stack origin.owner with
  | some frame => putFrame stack origin.owner (withoutPending frame origin.slot)
  | none => stack

/-- The origins of the entries from an index on that lie in frames below it. -/
def droppedOrigins (stack : List (Entry Runtime)) (start : Nat) : List FrameOrigin :=
  ((stack.drop start).filterMap entryOrigin).filter fun origin => origin.owner < start

/-- The stack before the entries from an index on are dropped. -/
def released (stack : List (Entry Runtime)) (start : Nat) : List (Entry Runtime) :=
  (droppedOrigins stack start).foldl forgetOrigin stack

theorem StackShape.forgetOrigin {stack : List (Entry Runtime)} (shape : StackShape stack)
    (origin : FrameOrigin) : StackShape (forgetOrigin stack origin) := by
  unfold Kernel.forgetOrigin
  split
  next frame held =>
    have resident : frame.Resident := shape.resident held
    exact shape.putFrame held resident rfl
  · exact shape

theorem entryOrigin_eq (e : Entry Runtime) : entryOrigin e = (ownFrame e).bind (·.origin) := by
  unfold entryOrigin ownFrame
  cases e.kind <;> rfl

theorem StackShape.frameOf_origin {stack : List (Entry Runtime)} (shape : StackShape stack)
    {e : Entry Runtime} {origin : FrameOrigin} (member : e ∈ stack)
    (from_ : entryOrigin e = some origin) : ∃ f, frameOf stack origin.owner = some f := by
  obtain ⟨i, found⟩ := List.getElem?_of_mem member
  rw [entryOrigin_eq] at from_
  obtain ⟨f, own, from_⟩ := Option.bind_eq_some_iff.mp from_
  have owner := (shape.frames i e f found own).2
  rw [from_, Option.map_some] at owner
  exact (shape.frameOf_owner found owner.symm).2

theorem isSome_frameOf_forgetOrigin (stack : List (Entry Runtime)) (origin : FrameOrigin)
    (t : Nat) : (frameOf (forgetOrigin stack origin) t).isSome = (frameOf stack t).isSome := by
  unfold forgetOrigin
  split
  next frame held =>
    by_cases here : t = origin.owner
    · rw [here, frameOf_putFrame_self held, held]
      rfl
    · rw [frameOf_putFrame_ne here]
  · rfl

theorem releasePendingOriginsForDropped_eq {stack : List (Entry Runtime)}
    (shape : StackShape stack) (start : Nat) :
    releasePendingOriginsForDropped stack start = pure (released stack start) := by
  have inside : ∀ origin ∈ (stack.drop start).filterMap entryOrigin,
      (frameOf stack origin.owner).isSome := by
    intro origin member
    obtain ⟨e, member, from_⟩ := List.mem_filterMap.mp member
    obtain ⟨f, held⟩ := shape.frameOf_origin (List.mem_of_mem_drop member) from_
    rw [held]
    rfl
  unfold releasePendingOriginsForDropped released droppedOrigins
  generalize (stack.drop start).filterMap entryOrigin = origins at inside
  -- The loop runs over any list of origins in frames of the stack.
  induction origins generalizing stack with
  | nil => rfl
  | cons origin origins ih =>
    obtain ⟨here, later⟩ := List.forall_mem_cons.mp inside
    obtain ⟨f, held⟩ := Option.isSome_iff_exists.mp here
    rw [List.foldlM_cons]
    by_cases below : origin.owner < start
    · have step : forgetOrigin stack origin =
          putFrame stack origin.owner (withoutPending f origin.slot) := by
        rw [forgetOrigin, held]
      rw [if_pos below, shape.frameAt_own held, pure_bind, shape.setFrameAt_own held, pure_bind,
        List.filter_cons_of_pos (by simpa using below), List.foldl_cons]
      rw [withoutPending] at step
      rw [← step]
      exact ih (shape.forgetOrigin origin) fun o member => by
        rw [isSome_frameOf_forgetOrigin]
        exact later o member
    · rw [if_neg below, pure_bind, List.filter_cons_of_neg (by simpa using below)]
      exact ih shape later

section

variable {stack : List (Entry Runtime)}

theorem map_forgetOrigin {α : Type} (view : Entry Runtime → α)
    (blind : ∀ e kind, view { e with kind } = view e) (origin : FrameOrigin) :
    (forgetOrigin stack origin).map view = stack.map view := by
  unfold forgetOrigin
  split
  · exact map_putFrame view blind
  · rfl

/-- A frame after some origins were forgotten waits for the others. -/
theorem frameOf_foldl_forgetOrigin {t : Nat} {f : KernelFrame Runtime} (origins : List FrameOrigin)
    (held : frameOf stack t = some f) :
    ∃ pending, frameOf (origins.foldl forgetOrigin stack) t =
        some { f with pendingOrigins := pending } ∧
      ∀ k, (pending.lookup k).isSome ↔
        (f.pendingOrigins.lookup k).isSome ∧ ⟨t, k⟩ ∉ origins := by
  induction origins generalizing stack f with
  | nil => exact ⟨f.pendingOrigins, held, fun k => by simp⟩
  | cons origin origins ih =>
    rw [List.foldl_cons]
    by_cases here : t = origin.owner
    · obtain ⟨o, k₀⟩ := origin
      obtain rfl : t = o := here
      have next : frameOf (forgetOrigin stack ⟨t, k₀⟩) t = some (withoutPending f k₀) := by
        unfold forgetOrigin
        rw [held]
        exact frameOf_putFrame_self held
      obtain ⟨pending, held', waits⟩ := ih next
      refine ⟨pending, held', fun k => ?_⟩
      rw [waits k]
      by_cases same : k = k₀
      · subst same
        simp [withoutPending]
      · simp [withoutPending, SortedMap.lookup_remove_ne _ same, same]
    · have next : frameOf (forgetOrigin stack origin) t = some f := by
        unfold forgetOrigin
        split
        · rw [frameOf_putFrame_ne here, held]
        · exact held
      obtain ⟨pending, held', waits⟩ := ih next
      refine ⟨pending, held', fun k => ?_⟩
      rw [waits k]
      have other : (⟨t, k⟩ : FrameOrigin) ≠ origin := fun same => here (same ▸ rfl)
      simp [other]

theorem StackShape.released (shape : StackShape stack) (start : Nat) :
    StackShape (released stack start) := by
  unfold Kernel.released
  generalize droppedOrigins stack start = origins
  induction origins generalizing stack with
  | nil => exact shape
  | cons origin origins ih => exact ih (shape.forgetOrigin origin)

theorem map_released {α : Type} (view : Entry Runtime → α)
    (blind : ∀ e kind, view { e with kind } = view e) (start : Nat) :
    (released stack start).map view = stack.map view := by
  unfold released
  generalize droppedOrigins stack start = origins
  induction origins generalizing stack with
  | nil => rfl
  | cons origin origins ih => rw [List.foldl_cons, ih, map_forgetOrigin view blind]

@[simp]
theorem activations_released (start : Nat) :
    activations (released stack start) = activations stack :=
  map_released _ (fun _ _ => rfl) start

@[simp]
theorem length_released (start : Nat) : (released stack start).length = stack.length := by
  rw [← length_activations, activations_released, length_activations]

theorem isSome_frameOf_released (start t : Nat) :
    (frameOf (released stack start) t).isSome = (frameOf stack t).isSome := by
  unfold released
  generalize droppedOrigins stack start = origins
  induction origins generalizing stack with
  | nil => rfl
  | cons origin origins ih => rw [List.foldl_cons, ih, isSome_frameOf_forgetOrigin]

theorem frameOf_take {t n : Nat} (below : t < n) :
    frameOf (stack.take n) t = frameOf stack t := by
  rw [frameOf, frameOf, List.getElem?_take_of_lt below]

/-- The frames that stay when the entries from an index on are dropped. -/
def dropped (stack : List (Entry Runtime)) (start : Nat) : List (Entry Runtime) :=
  (released stack start).take start

theorem length_dropped {start : Nat} (inside : start ≤ stack.length) :
    (dropped stack start).length = start := by
  rw [dropped, List.length_take, length_released, min_eq_left inside]

theorem frameOf_dropped {start t : Nat} {f : KernelFrame Runtime}
    (held : frameOf (dropped stack start) t = some f) : t < start ∧
      ∃ old, frameOf stack t = some old ∧ f = { old with pendingOrigins := f.pendingOrigins } ∧
        ∀ k, (f.pendingOrigins.lookup k).isSome ↔
          (old.pendingOrigins.lookup k).isSome ∧ ⟨t, k⟩ ∉ droppedOrigins stack start := by
  have below : t < start := by
    have := lt_length_of_frameOf held
    rw [dropped, List.length_take] at this
    omega
  rw [dropped, frameOf_take below] at held
  have some_ : (frameOf stack t).isSome := by
    rw [← isSome_frameOf_released start t, held]
    rfl
  obtain ⟨old, heldOld⟩ := Option.isSome_iff_exists.mp some_
  obtain ⟨pending, held', waits⟩ :=
    frameOf_foldl_forgetOrigin (droppedOrigins stack start) heldOld
  obtain rfl := Option.some.inj (held.symm.trans held')
  exact ⟨below, old, heldOld, rfl, waits⟩

theorem mem_droppedOrigins {start : Nat} {origin : FrameOrigin} :
    origin ∈ droppedOrigins stack start ↔
      origin.owner < start ∧ ∃ i g, start ≤ i ∧ frameOf stack i = some g ∧
        g.origin = some origin := by
  unfold droppedOrigins
  rw [List.mem_filter, List.mem_filterMap]
  simp only [decide_eq_true_eq, entryOrigin_eq, Option.bind_eq_some_iff, List.mem_iff_getElem?,
    List.getElem?_drop, frameOf]
  constructor
  · rintro ⟨⟨e, ⟨i, found⟩, g, own, from_⟩, below⟩
    exact ⟨below, start + i, g, Nat.le_add_right _ _, ⟨e, found, own⟩, from_⟩
  · rintro ⟨below, i, g, above, ⟨e, found, own⟩, from_⟩
    exact ⟨⟨e, ⟨i - start, by rwa [Nat.add_sub_cancel' above]⟩, g, own, from_⟩, below⟩

end

/-! ## Stacks with their pending origins -/

/-- A slot is pending exactly if its instance runs in a frame of the stack, and then in one. -/
structure Integrity (stack : List (Entry Runtime)) : Prop extends StackShape stack where
  pending : ∀ (t : Nat) (f : KernelFrame Runtime) (k : Key), frameOf stack t = some f →
    ((f.pendingOrigins.lookup k).isSome ↔
      ∃ i g, frameOf stack i = some g ∧ g.origin = some ⟨t, k⟩)
  unique : ∀ (i j : Nat) (g g' : KernelFrame Runtime) (origin : FrameOrigin),
    frameOf stack i = some g → frameOf stack j = some g' → g.origin = some origin →
    g'.origin = some origin → i = j

/-! ## Returns -/

variable (rearmCow : Runtime → List Nat → Runtime)

/-- The instance of a frame that stops running, with its page table and slots at hand. -/
def park (popped : KernelFrame Runtime) : CachedCap Runtime :=
  .mk
    (.inst
      { imageHashChain := popped.inst.imageHashChain
        imageHash := popped.inst.imageHash
        rootCnode := .hash zeroHash
        mem := popped.inst.mem
        regs := popped.inst.regs
        pc := popped.inst.pc
        gasRemaining := 0 })
    (.instance
      (popped.runtime.map fun rt => rearmCow rt (popped.inst.mem.overlay.entries.map (·.1)))
      (some popped.slots))

def reflect (parent : KernelFrame Runtime) (value : Word64)
    (scratch : Option (ResidentTarget Runtime)) : KernelFrame Runtime :=
  give (setReg (setReg parent 7 value) 8 statusOk) scratchpadSlot scratch

/-- A frame is popped and its instance goes back to the slot of the caller. -/
inductive Returned (value : Word64) : List (Entry Runtime) → List (Entry Runtime) → Prop
  | mk {base : List (Entry Runtime)} {e below : Entry Runtime}
      {popped parent : KernelFrame Runtime} {k : Key} (own : ownFrame e = some popped)
      (last : base.getLast? = some below) (held : frameOf base below.target = some parent)
      (origin : popped.origin = some ⟨below.target, k⟩) :
      Returned value (base ++ [e])
        (putFrame base below.target
          (putSlot
            (withoutPending (reflect parent value (popped.slots.peekKey scratchpadSlot)) k) k
            (some (.owned (park rearmCow (putSlot popped scratchpadSlot none))))))

theorem reclaimInstance_eq {popped : KernelFrame Runtime} {origin : FrameOrigin}
    (resident : popped.Resident) (from_ : popped.origin = some origin) :
    reclaimInstance rearmCow popped = pure (some (origin, park rearmCow popped)) := by
  obtain ⟨cap, cnode, same⟩ := resident
  unfold reclaimInstance residentInstanceToCachedCap takeResidentRootCnode park KernelFrame.slots
  rw [from_, same]
  cases popped.runtime <;> rfl

theorem StackShape.take {stack : List (Entry Runtime)} (shape : StackShape stack) {n : Nat}
    (pos : 0 < n) : StackShape (stack.take n) := by
  have lower : ∀ {i : Nat} {e : Entry Runtime}, (stack.take n)[i]? = some e →
      stack[i]? = some e := by
    intro i e found
    rw [List.getElem?_take] at found
    split at found
    · exact found
    · cases found
  refine ⟨?_, fun i e found => shape.own i e (lower found),
    fun i e f found own => shape.frames i e f (lower found) own⟩
  rw [activations, List.map_take]
  exact shape.shaped.take pos

namespace Integrity

variable {stack base : List (Entry Runtime)} {e below : Entry Runtime}
  {popped parent : KernelFrame Runtime}

theorem owner_lt (integrity : Integrity stack) {i : Nat} {g : KernelFrame Runtime}
    {origin : FrameOrigin} (held : frameOf stack i = some g) (from_ : g.origin = some origin) :
    origin.owner < i := by
  obtain ⟨e, found, own, same⟩ := integrity.target_of_frameOf held
  have owner := (integrity.frames i e g found own).2
  rw [from_, Option.map_some] at owner
  exact same ▸ (integrity.frameOf_owner found owner.symm).1

theorem pendingOrigins_top (integrity : Integrity (base ++ [e])) (own : ownFrame e = some popped) :
    popped.pendingOrigins.entries = [] := by
  have held : frameOf (base ++ [e]) base.length = some popped := by
    rw [frameOf_concat_length, own]
  apply SortedMap.entries_eq_nil
  intro k
  by_contra some_
  obtain ⟨i, g, heldChild, from_⟩ :=
    (integrity.pending _ _ k held).mp (Option.isSome_iff_ne_none.mpr some_)
  -- A child would lie above the top.
  have above : base.length < i := integrity.owner_lt heldChild from_
  have inside := lt_length_of_frameOf heldChild
  simp only [List.length_append, List.length_cons, List.length_nil] at inside
  omega

/-- The frame on top came out of a slot of the frame that runs next. -/
theorem origin_top (integrity : Integrity (base ++ [e])) (own : ownFrame e = some popped)
    (last : base.getLast? = some below) : ∃ k, popped.origin = some ⟨below.target, k⟩ := by
  have found : (base ++ [e])[base.length]? = some e := List.getElem?_concat_length
  have isOwn : e.target = base.length := (integrity.own _ e found).mp (by rw [own]; rfl)
  have owner := (integrity.frames _ e popped found own).2
  have lastFound := Activation.getElem?_of_getLast? last
  have two : base.length - 1 + 1 = base.length := by
    have := (List.getElem?_eq_some_iff.mp lastFound).1
    omega
  have under := StackShape.activation (Activation.getElem?_append_of_some lastFound [e])
  have upper := StackShape.activation found
  rw [← two] at upper isOwn
  have called := integrity.shaped.owner_of_call upper under isOwn
  simp only at called
  rw [called] at owner
  obtain ⟨⟨o, k⟩, from_, same⟩ := Option.map_eq_some_iff.mp owner
  simp only at same
  exact ⟨k, same ▸ from_⟩

/-- Dropping the entries from an index on keeps the pending origins right. -/
theorem dropped (integrity : Integrity stack) {start : Nat} (pos : 0 < start) :
    Integrity (dropped stack start) := by
  refine { (integrity.toStackShape.released start).take pos with pending := ?_, unique := ?_ }
  · intro t f k held
    obtain ⟨below, old, heldOld, same, waits⟩ := frameOf_dropped held
    rw [waits k, integrity.pending t old k heldOld, mem_droppedOrigins]
    constructor
    · rintro ⟨⟨i, g, heldChild, from_⟩, stays⟩
      -- The child is below the cut, or its origin would have been forgotten.
      have lower : i < start := by
        by_contra above
        exact stays ⟨below, i, g, Nat.le_of_not_lt above, heldChild, from_⟩
      obtain ⟨g', held'⟩ : ∃ g', frameOf (Kernel.dropped stack start) i = some g' := by
        rw [Kernel.dropped, frameOf_take lower]
        apply Option.isSome_iff_exists.mp
        rw [isSome_frameOf_released, heldChild]
        rfl
      obtain ⟨-, old', heldOld', same', -⟩ := frameOf_dropped held'
      obtain rfl := Option.some.inj (heldChild.symm.trans heldOld')
      exact ⟨i, g', held', by rw [same']; exact from_⟩
    · rintro ⟨i, g, heldChild, from_⟩
      obtain ⟨lower, old', heldOld', same', -⟩ := frameOf_dropped heldChild
      have from' : old'.origin = some ⟨t, k⟩ := by
        rw [same'] at from_
        exact from_
      refine ⟨⟨i, old', heldOld', from'⟩, ?_⟩
      rintro ⟨-, j, g', above, heldChild', from''⟩
      have := integrity.unique i j old' g' _ heldOld' heldChild' from' from''
      omega
  · intro i j g g' origin held held' from_ from'
    obtain ⟨-, old, heldOld, same, -⟩ := frameOf_dropped held
    obtain ⟨-, old', heldOld', same', -⟩ := frameOf_dropped held'
    rw [same] at from_
    rw [same'] at from'
    exact integrity.unique i j old old' origin heldOld heldOld' from_ from'

theorem popAndReflect_root (integrity : Integrity [e]) (value : Word64) :
    popAndReflect rearmCow [e] value = pure none := by
  obtain ⟨popped, own⟩ : ∃ popped, ownFrame e = some popped := by
    have same := integrity.shaped.target_le (StackShape.activation (i := 0) (e := e) rfl)
    exact Option.isSome_iff_exists.mp
      ((integrity.own 0 e rfl).mpr (Nat.le_zero.mp same))
  have settled := pendingOrigins_top (List.nil_append [e] ▸ integrity) own
  obtain ⟨kind, target, iid, metadata⟩ := e
  obtain rfl : kind = .instance popped := by
    cases kind with
    | «instance» frame => exact congrArg _ (Option.some.inj own)
    | reference => cases own
  unfold popAndReflect
  simp [settled]

/-- Every other frame on top goes back to its caller. -/
theorem popAndReflect_child (integrity : Integrity (base ++ [e])) (own : ownFrame e = some popped)
    (last : base.getLast? = some below) (value : Word64) :
    ∃ stack', popAndReflect rearmCow (base ++ [e]) value = pure (some stack') ∧
      Returned rearmCow value (base ++ [e]) stack' := by
  have lastFound := Activation.getElem?_of_getLast? last
  have nonempty : base ≠ [] := fun empty => by rw [empty] at last; cases last
  have shape : StackShape base := by
    have := integrity.toStackShape.take (List.length_pos_iff.mpr nonempty)
    rwa [List.take_left] at this
  obtain ⟨parent, held⟩ := shape.frameOf_target lastFound
  obtain ⟨k, from_⟩ := integrity.origin_top own last
  have settled := integrity.pendingOrigins_top own
  have resident : popped.Resident := integrity.resident (t := base.length) (by
    rw [frameOf_concat_length, own])
  have residentParent := shape.resident held
  refine ⟨_, ?_, .mk own last held from_⟩
  -- The caller waits for this slot.
  have waits : (parent.pendingOrigins.lookup k).isSome := by
    refine (integrity.pending below.target parent k ?_).mpr ⟨base.length, popped, ?_, from_⟩
    · rw [frameOf_append (lt_length_of_frameOf held), held]
    · rw [frameOf_concat_length, own]
  obtain ⟨kind, target, iid, metadata⟩ := e
  obtain rfl : kind = .instance popped := by
    cases kind with
    | «instance» frame => exact congrArg _ (Option.some.inj own)
    | reference => cases own
  unfold popAndReflect
  rw [List.getLast?_concat]
  simp only [List.dropLast_concat]
  rw [if_neg (by simpa using settled), if_neg nonempty,
    frameCnodeTake_eq popped resident, pure_bind]
  simp only
  have kept := sameButSlots_putSlot popped scratchpadSlot none
  rw [reclaimInstance_eq rearmCow (kept.resident resident) (kept.origin.trans from_), pure_bind,
    frameAt_eq_pure.mpr ⟨below, lastFound, held⟩, pure_bind]
  have restored : ∀ reflected : KernelFrame Runtime, reflected.Resident →
      reflected.origin = parent.origin → reflected.pendingOrigins = parent.pendingOrigins →
      restoreInstanceToOrigin (setFrameAt base (base.length - 1) reflected) ⟨below.target, k⟩
        (park rearmCow (putSlot popped scratchpadSlot none)) =
      pure (putFrame base below.target (putSlot (withoutPending reflected k) k
        (some (.owned (park rearmCow (putSlot popped scratchpadSlot none)))))) := by
    intro reflected resident origin pending
    have shape' := shape.putFrame held resident origin
    have held' : frameOf (putFrame base below.target reflected) below.target = some reflected :=
      frameOf_putFrame_self held
    rw [← pending] at waits
    obtain ⟨u, some_⟩ := Option.isSome_iff_exists.mp waits
    unfold restoreInstanceToOrigin
    rw [setFrameAt_eq lastFound, shape'.frameAt_own held', pure_bind, if_neg (by simp [some_])]
    change frameCnodeSet (withoutPending reflected k) k _ >>= _ = _
    rw [frameCnodeSet_eq (withoutPending reflected k) resident, pure_bind,
      shape'.setFrameAt_own held', putFrame_putFrame]
  cases scratch : popped.slots.peekKey scratchpadSlot with
  | none =>
    simp only [pure_bind]
    rw [restored (setReg (setReg parent 7 value) 8 statusOk) residentParent rfl rfl]
    rfl
  | some cap =>
    simp only
    rw [frameCnodeSet_eq (setReg (setReg parent 7 value) 8 statusOk) residentParent, pure_bind]
    have keptParent :=
      sameButSlots_putSlot (setReg (setReg parent 7 value) 8 statusOk) scratchpadSlot (some cap)
    rw [restored _ (keptParent.resident residentParent) keptParent.origin
      keptParent.pendingOrigins]
    rfl

end Integrity

end Jar.Kernel
