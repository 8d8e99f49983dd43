import Jar.Kernel.Frame

/-! Resident and stored slots: copying stored slots and folding them back changes nothing, and a
fold of slots that the kernel produced keeps every slot at every depth. -/

namespace Jar.Kernel

open Javm Ssz
open scoped Word

variable {Runtime : Type}

/-! ## Copying and folding as loops -/

def entryToWire : MissingOr (ResidentTarget Runtime) → MissingOr (CapHashOrRef Cap)
  | .materialized target => .materialized (targetToWire target)
  | .missing h => .missing h

def entryToCached : MissingOr (CapHashOrRef Cap) → MissingOr (ResidentTarget Runtime)
  | .materialized target => .materialized (wireTargetToCached target)
  | .missing h => .missing h

theorem foldSlots_eq_foldl (slots : List (Key × MissingOr (ResidentTarget Runtime)))
    (out : List (Key × MissingOr (CapHashOrRef Cap))) :
    foldSlots slots out =
      slots.foldl (fun out e => SortedMap.insertEntry e.1 (entryToWire e.2) out) out := by
  induction slots generalizing out with
  | nil => rw [foldSlots, List.foldl_nil]
  | cons e rest ih =>
    obtain ⟨key, target | h⟩ := e <;> rw [foldSlots, ih] <;> rfl

theorem copySlots_eq_foldl (slots : List (Key × MissingOr (CapHashOrRef Cap)))
    (dst : List (Key × MissingOr (ResidentTarget Runtime))) :
    wireTargetToCached.copySlots slots dst =
      slots.foldl (fun dst e => SortedMap.insertEntry e.1 (entryToCached e.2) dst) dst := by
  induction slots generalizing dst with
  | nil => rw [wireTargetToCached.copySlots, List.foldl_nil]
  | cons e rest ih =>
    obtain ⟨key, target | h⟩ := e <;> rw [wireTargetToCached.copySlots, ih] <;> rfl

def Ascending {O : Type} (slots : List (Key × MissingOr (CapHashOrRef O))) : Prop :=
  slots.Pairwise fun a b => a.1 < b.1

theorem foldSlots_of_ascending {slots : List (Key × MissingOr (ResidentTarget Runtime))}
    (ascending : Ascending slots) :
    foldSlots slots [] = slots.map fun e => (e.1, entryToWire e.2) := by
  rw [foldSlots_eq_foldl]
  exact SortedMap.foldl_insertEntry_of_sorted _ _ ascending fun e _ old member =>
    absurd member List.not_mem_nil

theorem copySlots_of_ascending {slots : List (Key × MissingOr (CapHashOrRef Cap))}
    (ascending : Ascending slots) :
    (wireTargetToCached.copySlots slots [] : List (Key × MissingOr (ResidentTarget Runtime))) =
      slots.map fun e => (e.1, entryToCached e.2) := by
  rw [copySlots_eq_foldl]
  exact SortedMap.foldl_insertEntry_of_sorted _ _ ascending fun e _ old member =>
    absurd member List.not_mem_nil

/-! ## Copying and folding back -/

mutual

/-- Every cnode of a stored capability keeps its slots in order. -/
def OrderedCap : Cap → Prop
  | .cnode ⟨slots⟩ => Ascending slots ∧ OrderedSlots slots
  | _ => True
termination_by structural cap => cap

/-- Every cnode in some slots keeps its slots in order. -/
def OrderedSlots : List (Key × MissingOr (CapHashOrRef Cap)) → Prop
  | [] => True
  | (_, .materialized (.owned cap)) :: rest => OrderedCap cap ∧ OrderedSlots rest
  | (_, .materialized (.hash _)) :: rest => OrderedSlots rest
  | (_, .missing _) :: rest => OrderedSlots rest
termination_by structural slots => slots

end

mutual

theorem targetToWire_wireTargetToCached (Runtime : Type) (cap : Cap) (ordered : OrderedCap cap) :
    targetToWire (wireTargetToCached (.owned cap) : ResidentTarget Runtime) = .owned cap := by
  match cap with
  | .cnode ⟨slots⟩ =>
    rw [OrderedCap] at ordered
    have ascending : Ascending (slots.map fun e =>
        (e.1, (entryToCached e.2 : MissingOr (ResidentTarget Runtime)))) :=
      List.pairwise_map.mpr ordered.1
    rw [wireTargetToCached, targetToWire, CachedCap.ofCnode, CachedCap.toWireCap,
      copySlots_of_ascending ordered.1, foldSlots_of_ascending ascending, List.map_map]
    rw [map_entryToWire Runtime slots ordered.2]
  | .inst inst => rw [wireTargetToCached, targetToWire, CachedCap.new, CachedCap.toWireCap] <;> simp
  | .image image =>
    rw [wireTargetToCached, targetToWire, CachedCap.new, CachedCap.toWireCap] <;> simp
  | .data data => rw [wireTargetToCached, targetToWire, CachedCap.new, CachedCap.toWireCap] <;> simp

theorem map_entryToWire (Runtime : Type) (slots : List (Key × MissingOr (CapHashOrRef Cap)))
    (ordered : OrderedSlots slots) :
    slots.map ((fun e : Key × MissingOr (ResidentTarget Runtime) => (e.1, entryToWire e.2)) ∘
      fun e => (e.1, entryToCached e.2)) = slots := by
  match slots with
  | [] => rfl
  | (key, .missing h) :: rest =>
    rw [OrderedSlots] at ordered
    rw [List.map_cons, map_entryToWire Runtime rest ordered]
    rfl
  | (key, .materialized (.hash h)) :: rest =>
    rw [OrderedSlots] at ordered
    rw [List.map_cons, map_entryToWire Runtime rest ordered, Function.comp_apply, entryToCached,
      wireTargetToCached, entryToWire, targetToWire]
  | (key, .materialized (.owned cap)) :: rest =>
    rw [OrderedSlots] at ordered
    rw [List.map_cons, map_entryToWire Runtime rest ordered.2, Function.comp_apply, entryToCached,
      entryToWire, targetToWire_wireTargetToCached Runtime cap ordered.1]

end

theorem foldCnodeToWire_copyWireCnodeIntoCached {src : CNodeCap Cap}
    (ordered : OrderedCap (.cnode src)) :
    foldCnodeToWire (copyWireCnodeIntoCached src : ResidentCNode Runtime) = src := by
  have same := targetToWire_wireTargetToCached Runtime (.cnode src) ordered
  rw [wireTargetToCached, targetToWire, CachedCap.ofCnode, CachedCap.toWireCap] at same
  injection same with same
  injection same

/-! ## What slots hold -/

/-- What a slot holds, without the slots below it. -/
inductive Held where
  | hash (h : CapHash)
  | missing (h : CapHash)
  /-- An instance; its slots are its own or named by a hash. -/
  | inst (inst : InstanceCap Unit)
  | image (image : ImageCap)
  | data (data : DataCap)
  | cnode

/-- What a capability is, without the slots below it. -/
def heldCap (root : CapHashOrRef Cap → CapHashOrRef Unit) : Cap → Held
  | .inst inst => .inst { inst with rootCnode := root inst.rootCnode }
  | .image image => .image image
  | .data data => .data data
  | .cnode _ => .cnode

/-- Whether stored slots are named by a hash. -/
def storedRoot : CapHashOrRef Cap → CapHashOrRef Unit
  | .hash h => .hash h
  | .owned _ => .owned ()

mutual

/-- The slots below a stored capability, with their paths. -/
def capInventory (path : List Key) : Cap → List (List Key × Held)
  | .cnode ⟨slots⟩ => wireInventory path slots
  | .inst ⟨_, _, .owned (.cnode ⟨slots⟩), _, _, _, _⟩ => wireInventory path slots
  | _ => []
termination_by structural cap => cap

/-- Stored slots and all below them, with their paths. -/
def wireInventory (path : List Key) :
    List (Key × MissingOr (CapHashOrRef Cap)) → List (List Key × Held)
  | [] => []
  | (key, .materialized (.owned cap)) :: rest =>
    (path ++ [key], heldCap storedRoot cap) ::
      (capInventory (path ++ [key]) cap ++ wireInventory path rest)
  | (key, .materialized (.hash h)) :: rest => (path ++ [key], .hash h) :: wireInventory path rest
  | (key, .missing h) :: rest => (path ++ [key], .missing h) :: wireInventory path rest
termination_by structural slots => slots

end

/-- What a resident capability is, without the slots below it. -/
def CachedCap.held : CachedCap Runtime → Held
  | .mk cap (.instance _ (some _)) => heldCap (fun _ => .owned ()) cap
  | .mk cap _ => heldCap storedRoot cap

mutual

/-- The slots below a resident capability, with their paths: stored in it or at hand. -/
def CachedCap.inventory (path : List Key) : CachedCap Runtime → List (List Key × Held)
  | .mk cap (.cnode ⟨slots⟩) => capInventory path cap ++ slotsInventory path slots
  | .mk cap (.instance _ (some ⟨slots⟩)) => capInventory path cap ++ slotsInventory path slots
  | .mk cap _ => capInventory path cap
termination_by structural cap => cap

/-- Resident slots and all below them, with their paths. -/
def slotsInventory (path : List Key) :
    List (Key × MissingOr (ResidentTarget Runtime)) → List (List Key × Held)
  | [] => []
  | (key, .materialized (.owned cap)) :: rest =>
    (path ++ [key], cap.held) :: (cap.inventory (path ++ [key]) ++ slotsInventory path rest)
  | (key, .materialized (.hash h)) :: rest => (path ++ [key], .hash h) :: slotsInventory path rest
  | (key, .missing h) :: rest => (path ++ [key], .missing h) :: slotsInventory path rest
termination_by structural slots => slots

end

/-! ## Folding what the kernel produced -/

mutual

/-- The resident slots that the kernel produces. -/
inductive Produced : ResidentCNode Runtime → Prop
  | empty : Produced CNodeCap.empty
  | copied (src : CNodeCap Cap) : Produced (copyWireCnodeIntoCached src)
  | insert {cnode : ResidentCNode Runtime} (key : Key) {entry : MissingOr (ResidentTarget Runtime)}
      (before : Produced cnode)
      (owned : ∀ cap, entry = .materialized (.owned cap) → ProducedCap cap) :
      Produced (cnode.insert key entry)
  | remove {cnode : ResidentCNode Runtime} (key : Key) (before : Produced cnode) :
      Produced (cnode.remove key)

/-- The resident capabilities that the kernel produces: without derived state, with resident slots,
taken from a slot, or an instance that stops running. -/
inductive ProducedCap : CachedCap Runtime → Prop
  | new (cap : Cap) : ProducedCap (.new cap)
  | ofCnode {cnode : ResidentCNode Runtime} (slots : Produced cnode) : ProducedCap (.ofCnode cnode)
  | taken {cnode : ResidentCNode Runtime} {key : Key} {cap : CachedCap Runtime}
      (slots : Produced cnode) (holds : (cnode.takeKey key).1 = some (.owned cap)) :
      ProducedCap cap
  | stopped {inst : InstanceCap (CachedCap Runtime)} {runtime : Option Runtime}
      {cap : CachedCap Runtime} (root : ∀ root, inst.rootCnode = .owned root → ProducedCap root)
      (ran : residentInstanceToCachedCap inst runtime = pure cap) : ProducedCap cap

end

/-- A fold keeps the capability and all below it, and slots at hand shadow none. -/
structure CachedCap.Folds (cap : CachedCap Runtime) : Prop where
  held : heldCap storedRoot cap.toWireCap = cap.held
  slots : ∀ path, capInventory path cap.toWireCap = cap.inventory path
  empty : ∀ {stored cnode}, cap = .mk stored (.cnode cnode) → stored = .cnode CNodeCap.empty

/-- Slots in order whose capabilities keep everything in a fold. -/
structure FoldingSlots (slots : List (Key × MissingOr (ResidentTarget Runtime))) : Prop where
  ascending : Ascending slots
  folds : ∀ key cap, (key, .materialized (.owned cap)) ∈ slots → cap.Folds

theorem wireInventory_map {slots : List (Key × MissingOr (ResidentTarget Runtime))}
    (folds : ∀ key cap, (key, .materialized (.owned cap)) ∈ slots → cap.Folds) (path : List Key) :
    wireInventory path (slots.map fun e => (e.1, entryToWire e.2)) = slotsInventory path slots := by
  induction slots with
  | nil => rw [List.map_nil, wireInventory, slotsInventory]
  | cons e rest ih =>
    have later := ih fun key cap member => folds key cap (List.mem_cons_of_mem _ member)
    match e with
    | (key, .missing h) => rw [List.map_cons, entryToWire, wireInventory, slotsInventory, later]
    | (key, .materialized (.hash h)) =>
      rw [List.map_cons, entryToWire, targetToWire, wireInventory, slotsInventory, later]
    | (key, .materialized (.owned cap)) =>
      have kept := folds key cap List.mem_cons_self
      rw [List.map_cons, entryToWire, targetToWire, wireInventory, slotsInventory, later, kept.held,
        kept.slots]

theorem FoldingSlots.wireInventory_foldSlots
    {slots : List (Key × MissingOr (ResidentTarget Runtime))} (good : FoldingSlots slots)
    (path : List Key) : wireInventory path (foldSlots slots []) = slotsInventory path slots := by
  rw [foldSlots_of_ascending good.ascending, wireInventory_map good.folds]

theorem FoldingSlots.insertEntry {slots : List (Key × MissingOr (ResidentTarget Runtime))}
    (good : FoldingSlots slots) (key : Key) {entry : MissingOr (ResidentTarget Runtime)}
    (new : ∀ cap, entry = .materialized (.owned cap) → cap.Folds) :
    FoldingSlots (SortedMap.insertEntry key entry slots) where
  ascending := SortedMap.sorted_insertEntry key entry good.ascending
  folds key' cap member := by
    rcases (SortedMap.mem_insertEntry good.ascending).mp member with same | ⟨old, -⟩
    · exact new cap (congrArg Prod.snd same).symm
    · exact good.folds key' cap old

theorem CachedCap.Folds.new (cap : Cap) : (CachedCap.new cap : CachedCap Runtime).Folds := by
  have same : (CachedCap.new cap : CachedCap Runtime).toWireCap = cap := by
    rw [CachedCap.new, CachedCap.toWireCap] <;> simp
  refine ⟨by rw [same]; rfl, fun path => ?_, fun shadowed => by cases shadowed⟩
  rw [same, CachedCap.new, CachedCap.inventory] <;> simp

theorem CachedCap.Folds.ofCnode {cnode : ResidentCNode Runtime} (good : FoldingSlots cnode.slots) :
    (CachedCap.ofCnode cnode).Folds := by
  obtain ⟨slots⟩ := cnode
  refine ⟨?_, fun path => ?_, fun shadowed => by cases shadowed; rfl⟩
  · rw [CachedCap.ofCnode, CachedCap.toWireCap]
    rfl
  · rw [CachedCap.ofCnode, CachedCap.toWireCap, capInventory, good.wireInventory_foldSlots,
      CachedCap.inventory, CNodeCap.empty, capInventory, wireInventory, List.nil_append]

mutual

theorem folds_wireTargetToCached (Runtime : Type) (cap : Cap) (resident : CachedCap Runtime)
    (same : wireTargetToCached (.owned cap) = .owned resident) : resident.Folds := by
  match cap with
  | .cnode ⟨slots⟩ =>
    rw [wireTargetToCached] at same
    cases same
    exact .ofCnode (foldingSlots_copySlots Runtime slots ⟨.nil, fun _ _ member => nomatch member⟩)
  | .inst inst =>
    rw [wireTargetToCached] at same
    · cases same
      exact .new _
    · simp
  | .image image =>
    rw [wireTargetToCached] at same
    · cases same
      exact .new _
    · simp
  | .data data =>
    rw [wireTargetToCached] at same
    · cases same
      exact .new _
    · simp

theorem foldingSlots_copySlots (Runtime : Type) (slots : List (Key × MissingOr (CapHashOrRef Cap)))
    {dst : List (Key × MissingOr (ResidentTarget Runtime))} (good : FoldingSlots dst) :
    FoldingSlots (wireTargetToCached.copySlots slots dst) := by
  match slots with
  | [] => rwa [wireTargetToCached.copySlots]
  | (key, .missing h) :: rest =>
    rw [wireTargetToCached.copySlots]
    exact foldingSlots_copySlots Runtime rest (good.insertEntry key fun cap same => nomatch same)
  | (key, .materialized (.hash h)) :: rest =>
    rw [wireTargetToCached.copySlots]
    refine foldingSlots_copySlots Runtime rest (good.insertEntry key fun cap same => ?_)
    rw [wireTargetToCached] at same
    cases same
  | (key, .materialized (.owned cap)) :: rest =>
    rw [wireTargetToCached.copySlots]
    refine foldingSlots_copySlots Runtime rest (good.insertEntry key fun resident same => ?_)
    exact folds_wireTargetToCached Runtime cap resident (by injection same)

end

/-- An instance that stops running folds with the slots that its frame had. -/
theorem CachedCap.Folds.stopped {inst : InstanceCap (CachedCap Runtime)} {runtime : Option Runtime}
    {cap : CachedCap Runtime} (root : ∀ root, inst.rootCnode = .owned root → root.Folds)
    (ran : residentInstanceToCachedCap inst runtime = pure cap) : cap.Folds := by
  -- Without slots at hand the stored form is the capability itself.
  have plain : ∀ stored : InstanceCap Cap, ∀ runtime : Option Runtime,
      (CachedCap.mk (.inst stored) (.instance runtime none)).Folds := fun stored runtime => by
    have same : (CachedCap.mk (.inst stored) (.instance runtime none)).toWireCap = .inst stored := by
      rw [CachedCap.toWireCap] <;> simp
    refine ⟨by rw [same]; rfl, fun path => ?_, fun shadowed => by cases shadowed⟩
    rw [same, CachedCap.inventory] <;> simp
  rw [residentInstanceToCachedCap] at ran
  obtain ⟨⟨wire, resident⟩, split, ran⟩ := Attempt.bind_eq_pure.mp ran
  cases rootIs : inst.rootCnode with
  | hash h =>
    rw [rootIs, takeResidentRootCnode] at split
    cases Attempt.pure_inj.mp split
    cases runtime with
    | none => cases Attempt.pure_inj.mp ran; exact .new _
    | some runtime => cases Attempt.pure_inj.mp ran; exact plain _ _
  | owned owned =>
    have folds := root owned rootIs
    obtain ⟨stored, cache⟩ := owned
    rw [rootIs] at split
    unfold takeResidentRootCnode at split
    simp only at split
    split at split
    next cnode =>
      cases Attempt.pure_inj.mp split
      -- The slots at hand were folded with the root itself, where they shadow nothing.
      obtain ⟨slots⟩ := cnode
      obtain rfl := folds.empty rfl
      have kept : ∀ path, wireInventory path (foldSlots slots []) = slotsInventory path slots :=
        fun path => by
          have := folds.slots path
          rwa [CachedCap.toWireCap, capInventory, CachedCap.inventory, CNodeCap.empty, capInventory,
            wireInventory, List.nil_append] at this
      obtain rfl : CachedCap.mk (.inst _) (.instance runtime (some ⟨slots⟩)) = cap := by
        cases runtime <;> exact Attempt.pure_inj.mp ran
      refine ⟨?_, fun path => ?_, fun shadowed => by cases shadowed⟩
      · rw [CachedCap.toWireCap]
        rfl
      · rw [CachedCap.toWireCap, capInventory, kept, CachedCap.inventory, capInventory,
          List.nil_append] <;> simp
    next cnode =>
      cases Attempt.pure_inj.mp split
      cases runtime with
      | none => cases Attempt.pure_inj.mp ran; exact .new _
      | some runtime => cases Attempt.pure_inj.mp ran; exact plain _ _
    next => exact absurd split Attempt.throw_ne_pure

mutual

theorem Produced.foldingSlots {cnode : ResidentCNode Runtime} :
    Produced cnode → FoldingSlots cnode.slots
  | .empty => ⟨.nil, fun _ _ member => nomatch member⟩
  | .copied src =>
    foldingSlots_copySlots Runtime src.slots ⟨.nil, fun _ _ member => nomatch member⟩
  | .insert key before owned =>
    before.foldingSlots.insertEntry key fun cap same => (owned cap same).folds
  | .remove key before =>
    have good := before.foldingSlots
    ⟨good.ascending.filter _,
      fun key' cap member => good.folds key' cap (List.mem_filter.mp member).1⟩

theorem ProducedCap.folds {cap : CachedCap Runtime} : ProducedCap cap → cap.Folds
  | .new cap => .new cap
  | .ofCnode slots => .ofCnode slots.foldingSlots
  | .taken slots holds => by
    have good := slots.foldingSlots
    simp only [CNodeCap.takeKey, CNodeCap.peekKey, CNodeCap.entry] at holds
    split at holds
    next target found =>
      obtain ⟨e, search, entry⟩ := Option.map_eq_some_iff.mp found
      cases holds
      exact good.folds e.1 cap (entry ▸ List.mem_of_find?_eq_some search)
    next => cases holds
  | .stopped root ran => .stopped (fun owned is => (root owned is).folds) ran

end

/-- Stored slots survive being made resident, and resident slots that the kernel produced survive
being folded, with everything below them. -/
theorem resident_wire_isomorphic (Runtime : Type) :
    (∀ src : CNodeCap Cap, OrderedCap (.cnode src) →
      foldCnodeToWire (copyWireCnodeIntoCached src : ResidentCNode Runtime) = src) ∧
    ∀ cnode : ResidentCNode Runtime, Produced cnode →
      (foldCnodeToWire cnode).slots.map (·.1) = cnode.slots.map (·.1) ∧
      wireInventory [] (foldCnodeToWire cnode).slots = slotsInventory [] cnode.slots := by
  refine ⟨fun src ordered => foldCnodeToWire_copyWireCnodeIntoCached ordered, fun cnode made => ?_⟩
  have good := made.foldingSlots
  refine ⟨?_, good.wireInventory_foldSlots []⟩
  rw [foldCnodeToWire, foldSlots_of_ascending good.ascending, List.map_map]
  rfl

/-- A cnode with a nested one, and an instance whose slots are at hand. -/
theorem resident_wire_isomorphic_nested :
    let src : CNodeCap Cap :=
      ⟨[([1], .materialized (.owned (.cnode ⟨[([2], .missing zeroHash)]⟩)))]⟩
    let halted : CachedCap Unit := .mk (.inst ⟨zeroHash, zeroHash, .hash zeroHash, DataCap.empty,
      fun _ => 0, 0, 0⟩) (.instance none (some (copyWireCnodeIntoCached src)))
    let cnode : ResidentCNode Unit := CNodeCap.empty.insert [7] (.materialized (.owned halted))
    OrderedCap (.cnode src) ∧
      foldCnodeToWire (copyWireCnodeIntoCached src : ResidentCNode Unit) = src ∧
      Produced cnode ∧
      wireInventory [] (foldCnodeToWire cnode).slots = slotsInventory [] cnode.slots := by
  intro src halted cnode
  have ordered : OrderedCap (.cnode src) := by
    simp [src, OrderedCap, OrderedSlots, Ascending]
  have made : Produced cnode := .insert [7] .empty fun cap same => by
    obtain rfl : halted = cap := by injection same with same; injection same
    have ran : residentInstanceToCachedCap ⟨zeroHash, zeroHash,
        .owned (.ofCnode (copyWireCnodeIntoCached src)), DataCap.empty, fun _ => 0, 0, 0⟩ none =
        pure halted := rfl
    exact .stopped (fun root is => by cases is; exact .ofCnode (.copied src)) ran
  exact ⟨ordered, (resident_wire_isomorphic Unit).1 src ordered, made,
    ((resident_wire_isomorphic Unit).2 cnode made).2⟩

end Jar.Kernel
