import Jar.Lib.AssocSum
import Jar.Proofs.FrameChanges
import Mathlib.Algebra.Order.Group.Multiset
import Mathlib.Data.Multiset.OrderedMonoid
import Mathlib.Tactic.Abel

/-! The owned capabilities of a stack, with those inside of instances and cnodes, and how writes of
slots change them. -/

namespace Jar.Kernel

open Javm Ssz AssocSum
open scoped Word

variable {Runtime : Type}

/-! ## What is counted -/

/-- What stays the same of a capability while it is used: the type of an instance, the content of
others. -/
inductive CapId where
  | inst (imageHashChain imageHash : CapHash)
  | image (image : ImageCap)
  | data (data : DataCap)
  | cnode

mutual

/-- The capabilities that a stored one consists of. -/
def capCensus : Cap → Multiset CapId
  | .inst ⟨chain, image, .owned (.cnode ⟨slots⟩), _, _, _, _⟩ =>
    {.inst chain image} + wireCensus slots
  | .inst inst => {.inst inst.imageHashChain inst.imageHash}
  | .image image => {.image image}
  | .data data => {.data data}
  | .cnode ⟨slots⟩ => {.cnode} + wireCensus slots
termination_by structural cap => cap

/-- The owned capabilities in stored slots; the last entry of a slot counts. -/
def wireCensus : List (Key × MissingOr (CapHashOrRef Cap)) → Multiset CapId
  | [] => 0
  | (key, .materialized (.owned cap)) :: rest =>
    (if key ∈ rest.map (·.1) then 0 else capCensus cap) + wireCensus rest
  | (_, .materialized (.hash _)) :: rest => wireCensus rest
  | (_, .missing _) :: rest => wireCensus rest
termination_by structural slots => slots

end

mutual

/-- The capabilities that a resident one consists of. -/
def census : CachedCap Runtime → Multiset CapId
  | .mk (.inst inst) (.instance _ (some ⟨slots⟩)) =>
    {.inst inst.imageHashChain inst.imageHash} + slotsCensus [] slots
  | .mk (.cnode _) (.cnode ⟨slots⟩) => {.cnode} + slotsCensus [] slots
  | .mk cap _ => capCensus cap
termination_by structural cap => cap

/-- The owned capabilities in resident slots; the first entry of a slot counts. -/
def slotsCensus (seen : List Key) :
    List (Key × MissingOr (ResidentTarget Runtime)) → Multiset CapId
  | [] => 0
  | (key, .materialized (.owned cap)) :: rest =>
    (if key ∈ seen then 0 else census cap) + slotsCensus (key :: seen) rest
  | (key, .materialized (.hash _)) :: rest => slotsCensus (key :: seen) rest
  | (key, .missing _) :: rest => slotsCensus (key :: seen) rest
termination_by structural slots => slots

end

def cnodeCensus (cnode : ResidentCNode Runtime) : Multiset CapId := slotsCensus [] cnode.slots

/-- What a slot's capability counts; hashes are not owned. -/
def targetCensus : Option (ResidentTarget Runtime) → Multiset CapId
  | some (.owned cap) => census cap
  | some (.hash _) => 0
  | none => 0

/-- What a slot's entry counts. -/
def entryCensus : MissingOr (ResidentTarget Runtime) → Multiset CapId
  | .materialized target => targetCensus (some target)
  | .missing _ => 0

/-- A slot holds a capability of its own. -/
def IsOwned : Option (ResidentTarget Runtime) → Prop
  | some (.owned _) => True
  | some (.hash _) => False
  | none => False

theorem capCensus_ne_zero (cap : Cap) : capCensus cap ≠ 0 := by
  unfold capCensus
  split <;> simp

theorem census_ne_zero (cap : CachedCap Runtime) : census cap ≠ 0 := by
  unfold census
  split
  · simp
  · simp
  · exact capCensus_ne_zero _

theorem targetCensus_eq_zero {target : Option (ResidentTarget Runtime)} :
    targetCensus target = 0 ↔ ¬ IsOwned target := by
  match target with
  | none => exact ⟨fun _ => id, fun _ => rfl⟩
  | some (.hash h) => exact ⟨fun _ => id, fun _ => rfl⟩
  | some (.owned cap) => exact ⟨fun zero => absurd zero (census_ne_zero cap), fun no => (no trivial).elim⟩

theorem slotsCensus_eq (seen : List Key) (slots : List (Key × MissingOr (ResidentTarget Runtime))) :
    slotsCensus seen slots = firstSum entryCensus seen slots := by
  induction slots generalizing seen with
  | nil => rw [slotsCensus, firstSum]
  | cons e rest ih =>
    obtain ⟨key, entry⟩ := e
    rw [firstSum, ← ih]
    cases entry with
    | missing h =>
      rw [slotsCensus, entryCensus]
      simp
    | materialized target =>
      cases target with
      | hash h =>
        rw [slotsCensus, entryCensus, targetCensus]
        simp
      | owned cap =>
        rw [slotsCensus, entryCensus, targetCensus]
        congr

theorem cnodeCensus_eq (cnode : ResidentCNode Runtime) :
    cnodeCensus cnode = firstSum entryCensus [] cnode.slots := slotsCensus_eq ..

/-! ## Writing slots -/

theorem valueAt_entryCensus (cnode : ResidentCNode Runtime) (key : Key) :
    valueAt entryCensus key cnode.slots = targetCensus (cnode.peekKey key) := by
  have found : valueAt entryCensus key cnode.slots = ((cnode.entry key).map entryCensus).getD 0 := by
    unfold valueAt CNodeCap.entry
    rw [Option.map_map]
    congr
    funext e
    congr
  rw [found, CNodeCap.peekKey]
  cases cnode.entry key with
  | none => rfl
  | some entry =>
    cases entry with
    | materialized target => rfl
    | missing h => rfl

/-- A write takes away what the slot held, and adds what is put there. -/
theorem cnodeCensus_setKey (cnode : ResidentCNode Runtime) (key : Key)
    (target : Option (ResidentTarget Runtime)) :
    cnodeCensus (cnode.setKey key target) + targetCensus (cnode.peekKey key) =
      cnodeCensus cnode + targetCensus target := by
  have fresh : key ∉ ([] : List Key) := nofun
  rw [cnodeCensus_eq, cnodeCensus_eq cnode, ← valueAt_entryCensus,
    firstSum_eq_valueAt_add fresh cnode.slots]
  cases target with
  | none =>
    have removed : firstSum entryCensus [] (cnode.setKey key none).slots =
        firstSum entryCensus [key] cnode.slots := by
      rw [← firstSum_filter]
      congr 1
      apply List.filter_congr
      intro e _
      exact decide_eq_decide.mpr Iff.rfl
    rw [removed, targetCensus]
    abel
  | some target =>
    have inserted : firstSum entryCensus [] (cnode.setKey key (some target)).slots =
        targetCensus (some target) + firstSum entryCensus [key] cnode.slots :=
      firstSum_insertEntry fresh _ _
    rw [inserted]
    abel

/-- A write to a slot without an owned capability adds what is put there. -/
theorem cnodeCensus_setKey_of_free {cnode : ResidentCNode Runtime} {key : Key}
    (free : targetCensus (cnode.peekKey key) = 0) (target : Option (ResidentTarget Runtime)) :
    cnodeCensus (cnode.setKey key target) = cnodeCensus cnode + targetCensus target := by
  have both := cnodeCensus_setKey cnode key target
  rwa [free, add_zero] at both

/-! ## Slots of images and callers -/

theorem cnodeCensus_inheritSlots (parent child : ResidentCNode Runtime) :
    cnodeCensus (inheritSlots parent child) = cnodeCensus child := by
  unfold inheritSlots
  generalize parent.slots = slots
  induction slots generalizing child with
  | nil => rfl
  | cons e rest ih =>
    rw [List.foldl_cons, ih]
    obtain ⟨slot, offered⟩ := e
    simp only
    -- An entry that is not owned goes into a slot without an entry.
    have fills : entryCensus offered = 0 →
        cnodeCensus (if (child.entry slot).isNone then child.insert slot offered else child) =
          cnodeCensus child := by
      intro notOwned
      split
      next empty =>
        have fresh : slot ∉ ([] : List Key) := nofun
        have absent : valueAt entryCensus slot child.slots = 0 := by
          rw [valueAt_entryCensus, CNodeCap.peekKey, Option.isNone_iff_eq_none.mp empty]
          rfl
        rw [cnodeCensus_eq, cnodeCensus_eq child, firstSum_eq_valueAt_add fresh child.slots, absent,
          zero_add]
        have inserted : firstSum entryCensus []
            (SortedMap.insertEntry slot offered child.slots) =
            entryCensus offered + firstSum entryCensus [slot] child.slots :=
          firstSum_insertEntry fresh offered child.slots
        rw [notOwned, zero_add] at inserted
        exact inserted
      · rfl
    split
    · rfl
    · split
      · rfl
      next other =>
        apply fills
        cases offered with
        | missing h => rfl
        | materialized target =>
          cases target with
          | hash h => rfl
          | owned cap => exact absurd rfl (other cap)

theorem cnodeCensus_fillInitial (initial : List ImageSlotEntry) (cnode : ResidentCNode Runtime) :
    cnodeCensus (initial.foldl (fun cnode e =>
      if (cnode.peekKey e.slot).isNone then cnode.setKey e.slot (some (.hash e.capHash)) else cnode)
      cnode) = cnodeCensus cnode := by
  induction initial generalizing cnode with
  | nil => rfl
  | cons e rest ih =>
    rw [List.foldl_cons, ih]
    split
    next empty =>
      rw [cnodeCensus_setKey_of_free, targetCensus, add_zero]
      rw [Option.isNone_iff_eq_none.mp empty]
      rfl
    · rfl

theorem isOwned_setKey_hash {cnode : ResidentCNode Runtime} {slot : Key}
    (free : ¬ IsOwned (cnode.peekKey slot)) (h : CapHash) (key : Key) :
    IsOwned ((cnode.setKey slot (some (.hash h))).peekKey key) ↔ IsOwned (cnode.peekKey key) := by
  by_cases same : key = slot
  · rw [same, CNodeCap.peekKey_setKey_self]
    exact ⟨False.elim, free⟩
  · rw [CNodeCap.peekKey_setKey_ne _ _ same]

/-- What a loss of owned capabilities is, if pinned slots replace them. -/
theorem exists_lost_installPinned (pinned : List ImageSlotEntry) (cnode : ResidentCNode Runtime) :
    ∃ lost, cnodeCensus
        (pinned.foldl (fun cnode e => cnode.setKey e.slot (some (.hash e.capHash))) cnode) + lost =
      cnodeCensus cnode ∧ (lost = 0 ↔ ∀ e ∈ pinned, ¬ IsOwned (cnode.peekKey e.slot)) := by
  induction pinned generalizing cnode with
  | nil => exact ⟨0, add_zero _, by simp⟩
  | cons e rest ih =>
    obtain ⟨lost, total, none_⟩ := ih (cnode.setKey e.slot (some (.hash e.capHash)))
    have here := cnodeCensus_setKey cnode e.slot (some (.hash e.capHash))
    rw [show targetCensus (some (.hash e.capHash) : Option (ResidentTarget Runtime)) = 0 from rfl,
      add_zero] at here
    refine ⟨lost + targetCensus (cnode.peekKey e.slot), ?_, ?_⟩
    · rw [List.foldl_cons, ← add_assoc, total, here]
    · rw [add_eq_zero, none_, targetCensus_eq_zero, List.forall_mem_cons, and_comm]
      refine and_congr_right fun free => forall₂_congr fun e' _ => not_congr ?_
      exact isOwned_setKey_hash free e.capHash e'.slot

/-- The slots of an image replace something that is owned exactly if the pinned ones do. -/
theorem exists_lost_overlayImageSlots (img : ImageCap) (cnode : ResidentCNode Runtime) :
    ∃ lost, cnodeCensus (overlayImageSlots img cnode) + lost = cnodeCensus cnode ∧
      (lost = 0 ↔ ∀ e ∈ img.pinned, ¬ IsOwned (cnode.peekKey e.slot)) := by
  unfold overlayImageSlots
  rw [cnodeCensus_fillInitial]
  exact exists_lost_installPinned img.pinned cnode

theorem isOwned_overlayImageSlots {img : ImageCap} {cnode : ResidentCNode Runtime}
    (free : ∀ e ∈ img.pinned, ¬ IsOwned (cnode.peekKey e.slot)) (key : Key) :
    IsOwned ((overlayImageSlots img cnode).peekKey key) ↔ IsOwned (cnode.peekKey key) := by
  have fills : ∀ (initial : List ImageSlotEntry) (cnode : ResidentCNode Runtime),
      IsOwned ((initial.foldl (fun cnode e =>
        if (cnode.peekKey e.slot).isNone then cnode.setKey e.slot (some (.hash e.capHash))
        else cnode) cnode).peekKey key) ↔ IsOwned (cnode.peekKey key) := by
    intro initial
    induction initial with
    | nil => exact fun cnode => Iff.rfl
    | cons e rest ih =>
      intro cnode
      rw [List.foldl_cons, ih]
      split
      next empty =>
        apply isOwned_setKey_hash
        rw [Option.isNone_iff_eq_none.mp empty]
        exact id
      · rfl
  unfold overlayImageSlots
  rw [fills]
  generalize img.pinned = pinned at free
  induction pinned generalizing cnode with
  | nil => rfl
  | cons e rest ih =>
    obtain ⟨here, later⟩ := List.forall_mem_cons.mp free
    have later' : ∀ e' ∈ rest,
        ¬ IsOwned ((cnode.setKey e.slot (some (.hash e.capHash))).peekKey e'.slot) := by
      intro e' member
      rw [isOwned_setKey_hash here]
      exact later e' member
    exact (ih later').trans (isOwned_setKey_hash here e.capHash key)

theorem isOwned_inheritSlots (parent child : ResidentCNode Runtime) (key : Key) :
    IsOwned ((inheritSlots parent child).peekKey key) ↔ IsOwned (child.peekKey key) := by
  unfold inheritSlots
  generalize parent.slots = slots
  induction slots generalizing child with
  | nil => rfl
  | cons e rest ih =>
    rw [List.foldl_cons, ih]
    obtain ⟨slot, offered⟩ := e
    simp only
    -- An entry that is not owned goes into a slot without an entry.
    have fills : (∀ cap, offered ≠ .materialized (.owned cap)) →
        (IsOwned ((if (child.entry slot).isNone then child.insert slot offered
          else child).peekKey key) ↔ IsOwned (child.peekKey key)) := by
      intro notOwned
      split
      next empty =>
        by_cases same : key = slot
        · have before : child.peekKey key = none := by
            rw [CNodeCap.peekKey, same, Option.isNone_iff_eq_none.mp empty]
          rw [before, CNodeCap.peekKey, same, CNodeCap.entry_insert_self]
          refine ⟨fun owned => ?_, False.elim⟩
          cases offered with
          | missing h => exact owned
          | materialized target =>
            cases target with
            | hash h => exact owned
            | owned cap => exact notOwned cap rfl
        · rw [CNodeCap.peekKey_of_entry _ (CNodeCap.entry_insert_ne _ _ same)]
      · rfl
    split
    · rfl
    · split
      · rfl
      next other => exact fills fun cap same => other cap same

/-! ## Stored slots -/

mutual

/-- A stored capability counts the same when it is resident. -/
theorem census_wireTargetToCached (Runtime : Type) (cap : Cap) :
    targetCensus (some (wireTargetToCached (.owned cap) : ResidentTarget Runtime)) =
      capCensus cap := by
  match cap with
  | .cnode ⟨slots⟩ =>
    rw [wireTargetToCached, targetCensus, CachedCap.ofCnode, census, capCensus, slotsCensus_eq,
      firstSum_copySlots Runtime slots [], firstSum, add_zero]
  | .inst inst =>
    rw [wireTargetToCached, targetCensus, CachedCap.new, census] <;> simp
  | .image image =>
    rw [wireTargetToCached, targetCensus, CachedCap.new, census] <;> simp
  | .data data =>
    rw [wireTargetToCached, targetCensus, CachedCap.new, census] <;> simp

theorem firstSum_copySlots (Runtime : Type) (slots : List (Key × MissingOr (CapHashOrRef Cap)))
    (dst : List (Key × MissingOr (ResidentTarget Runtime))) :
    firstSum entryCensus [] (wireTargetToCached.copySlots slots dst) =
      wireCensus slots + firstSum entryCensus (slots.map (·.1)) dst := by
  match slots with
  | [] =>
    rw [wireTargetToCached.copySlots, wireCensus, List.map_nil, zero_add]
  | (key, .missing h) :: rest =>
    rw [wireTargetToCached.copySlots, firstSum_copySlots Runtime rest, wireCensus,
      firstSum_insertEntry_eq, firstSum, entryCensus, ite_self, zero_add]
    rfl
  | (key, .materialized (.hash h)) :: rest =>
    rw [wireTargetToCached.copySlots, firstSum_copySlots Runtime rest, wireCensus,
      firstSum_insertEntry_eq, firstSum, wireTargetToCached, entryCensus, targetCensus, ite_self,
      zero_add]
    rfl
  | (key, .materialized (.owned cap)) :: rest =>
    -- A later entry of the same slot replaces this one.
    rw [wireTargetToCached.copySlots, firstSum_copySlots Runtime rest, wireCensus,
      firstSum_insertEntry_eq, firstSum, entryCensus, census_wireTargetToCached Runtime cap]
    by_cases again : key ∈ rest.map (·.1)
    · rw [if_pos again, if_pos again, zero_add, zero_add]
      rfl
    · rw [if_neg again, if_neg again, List.map_cons]
      abel

end

/-- What the stored slots of an instance count. -/
def rootCensus (env : Env) : CapHashOrRef Cap → Multiset CapId
  | .hash h =>
    if h = zeroHash then 0
    else
      match env.store h with
      | some (.cnode cnode) => wireCensus cnode.slots
      | _ => 0
  | .owned (.cnode cnode) => wireCensus cnode.slots
  | .owned _ => 0

theorem cnodeCensus_copyWireCnodeIntoCached (src : CNodeCap Cap) :
    cnodeCensus (copyWireCnodeIntoCached src : ResidentCNode Runtime) = wireCensus src.slots := by
  rw [cnodeCensus_eq, copyWireCnodeIntoCached]
  exact (firstSum_copySlots Runtime src.slots []).trans (by rw [firstSum, add_zero])

theorem cnodeCensus_materializeRootCnode {env : Env} {root : CapHashOrRef Cap}
    {cnode : ResidentCNode Runtime} (ran : materializeRootCnode env root = pure cnode) :
    cnodeCensus cnode = rootCensus env root := by
  unfold materializeRootCnode at ran
  split at ran
  next h =>
    rw [rootCensus]
    split at ran
    next zero =>
      obtain rfl := Attempt.pure_inj.mp ran
      rw [if_pos zero]
      rfl
    next other =>
      rw [if_neg other]
      split at ran
      · exact absurd ran Attempt.throw_ne_pure
      next stored found =>
        obtain rfl := Attempt.pure_inj.mp ran
        rw [found]
        exact cnodeCensus_copyWireCnodeIntoCached stored
      · exact absurd ran Attempt.throw_ne_pure
  next stored =>
    obtain rfl := Attempt.pure_inj.mp ran
    exact cnodeCensus_copyWireCnodeIntoCached stored
  · exact absurd ran Attempt.throw_ne_pure

/-! ## Stacks -/

/-- The owned capabilities of a running instance: the instance itself, and those in its slots. -/
def frameCensus (f : KernelFrame Runtime) : Multiset CapId :=
  {.inst f.inst.imageHashChain f.inst.imageHash} + cnodeCensus f.slots

/-- The owned capabilities of an entry, none for a handler. -/
def ownCensus (e : Entry Runtime) : Multiset CapId :=
  match ownFrame e with
  | some f => frameCensus f
  | none => 0

def stackCensus (stack : List (Entry Runtime)) : Multiset CapId := (stack.map ownCensus).sum

section

variable {stack : List (Entry Runtime)} {t : Nat} {f frame : KernelFrame Runtime}

theorem stackCensus_append (stack more : List (Entry Runtime)) :
    stackCensus (stack ++ more) = stackCensus stack + stackCensus more := by
  rw [stackCensus, List.map_append, List.sum_append]
  rfl

theorem stackCensus_singleton (e : Entry Runtime) : stackCensus [e] = ownCensus e := by
  rw [stackCensus, List.map_singleton, List.sum_singleton]

theorem frameCensus_putSlot (resident : f.Resident) (slot : Key)
    (target : Option (ResidentTarget Runtime)) :
    frameCensus (putSlot f slot target) + targetCensus (f.slots.peekKey slot) =
      frameCensus f + targetCensus target := by
  have kept := sameButSlots_putSlot f slot target
  rw [frameCensus, kept.imageHashChain, kept.imageHash, slots_putSlot resident, frameCensus,
    add_assoc, cnodeCensus_setKey, add_assoc]

/-- What goes when something is put into a slot. -/
def replaced (f : KernelFrame Runtime) (slot : Key) :
    Option (ResidentTarget Runtime) → Multiset CapId
  | some _ => targetCensus (f.slots.peekKey slot)
  | none => 0

theorem frameCensus_give (resident : f.Resident) (slot : Key)
    (target : Option (ResidentTarget Runtime)) :
    frameCensus (give f slot target) + replaced f slot target =
      frameCensus f + targetCensus target := by
  cases target with
  | none => rfl
  | some target => exact frameCensus_putSlot resident slot (some target)

theorem replaced_eq_zero {slot : Key} {target : Option (ResidentTarget Runtime)} :
    replaced f slot target = 0 ↔ (target.isSome → ¬ IsOwned (f.slots.peekKey slot)) := by
  cases target with
  | none => exact ⟨fun _ => nofun, fun _ => rfl⟩
  | some target =>
    rw [replaced, targetCensus_eq_zero]
    exact ⟨fun free _ => free, fun free => free rfl⟩

theorem stackCensus_putFrame (held : frameOf stack t = some f) (frame : KernelFrame Runtime) :
    stackCensus (putFrame stack t frame) + frameCensus f =
      stackCensus stack + frameCensus frame := by
  obtain ⟨e, found, own⟩ := Option.bind_eq_some_iff.mp held
  -- The stack splits around the entry of the invocation.
  obtain ⟨inside, same⟩ := List.getElem?_eq_some_iff.mp found
  have split : stack = stack.take t ++ e :: stack.drop (t + 1) := by
    rw [← same, List.cons_getElem_drop_succ, List.take_append_drop]
  have put : putFrame stack t frame =
      stack.take t ++ { e with kind := .instance frame } :: stack.drop (t + 1) := by
    rw [putFrame, List.modify_eq_take_cons_drop inside, same]
  have before : ownCensus e = frameCensus f := by rw [ownCensus, own]
  have total : stackCensus stack =
      stackCensus (stack.take t) + (frameCensus f + stackCensus (stack.drop (t + 1))) := by
    conv_lhs => rw [split]
    simp only [stackCensus, List.map_append, List.map_cons, List.sum_append, List.sum_cons, before]
  have totalPut : stackCensus (putFrame stack t frame) =
      stackCensus (stack.take t) + (frameCensus frame + stackCensus (stack.drop (t + 1))) := by
    rw [put]
    simp only [stackCensus, List.map_append, List.map_cons, List.sum_append, List.sum_cons]
    rfl
  rw [total, totalPut]
  abel

theorem stackCensus_putFrame_same (held : frameOf stack t = some f)
    (same : frameCensus frame = frameCensus f) :
    stackCensus (putFrame stack t frame) = stackCensus stack := by
  have both : stackCensus (putFrame stack t frame) + frameCensus f =
      stackCensus stack + frameCensus frame := stackCensus_putFrame held frame
  rw [same] at both
  exact add_right_cancel both

@[simp]
theorem stackCensus_withGas (i : Nat) (gas : FrameGas) :
    stackCensus (withGas stack i gas) = stackCensus stack := by
  have same : (withGas stack i gas).map ownCensus = stack.map ownCensus := by
    apply List.ext_getElem?
    intro j
    simp only [List.getElem?_map, getElem?_withGas, Option.map_map]
    congr 1
    funext e
    simp only [Function.comp]
    split <;> rfl
  rw [stackCensus, same]
  rfl

theorem stackCensus_forgetOrigin (origin : FrameOrigin) :
    (forgetOrigin stack origin).map ownCensus = stack.map ownCensus := by
  unfold forgetOrigin
  split
  next f held =>
    obtain ⟨e, found, own⟩ := Option.bind_eq_some_iff.mp held
    apply List.ext_getElem?
    intro j
    simp only [List.getElem?_map, getElem?_putFrame, Option.map_map]
    by_cases here : j = origin.owner
    · -- Forgetting an origin changes no slots.
      rw [here, found]
      simp only [Option.map_some, Function.comp, if_true, ownCensus, own]
      rfl
    · simp only [if_neg here]
      rfl
  · rfl

/-- The frames that stay when others are dropped count as before. -/
theorem stackCensus_dropped (start : Nat) :
    stackCensus (dropped stack start) = stackCensus (stack.take start) := by
  have kept : ∀ origins : List FrameOrigin, ∀ stack : List (Entry Runtime),
      (origins.foldl forgetOrigin stack).map ownCensus = stack.map ownCensus := by
    intro origins
    induction origins with
    | nil => exact fun stack => rfl
    | cons origin origins ih =>
      intro stack
      rw [List.foldl_cons, ih, stackCensus_forgetOrigin]
  rw [stackCensus, dropped, released, List.map_take, kept, ← List.map_take]
  rfl

theorem stackCensus_dropped_add (stack : List (Entry Runtime)) (start : Nat) :
    stackCensus (dropped stack start) + stackCensus (stack.drop start) = stackCensus stack := by
  rw [stackCensus_dropped, ← stackCensus_append, List.take_append_drop]

end

end Jar.Kernel
