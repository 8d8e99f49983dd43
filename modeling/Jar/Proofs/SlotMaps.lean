import Jar.Kernel.CallLoop

/-! Slot maps: reading after a write, the slots that an image installs and that a child inherits, and
the search in a sorted list of pinned slots. -/

namespace Jar.Javm.CNodeCap

open scoped Word

variable {O : Type} (cnode : CNodeCap O) {key other : Key}

/-! ## Reading after a write -/

@[simp]
theorem entry_insert_self (value : Ssz.MissingOr (CapHashOrRef O)) :
    (cnode.insert key value).entry key = some value := by
  obtain ⟨slots⟩ := cnode
  unfold insert entry
  -- Only smaller keys come before the new entry.
  induction slots with
  | nil => simp [SortedMap.insertEntry]
  | cons e rest ih =>
    unfold SortedMap.insertEntry
    split
    · simp
    next notBelow =>
      split
      · simp
      next different =>
        rw [List.find?_cons_of_neg (by simpa using Ne.symm different)]
        exact ih

theorem entry_insert_ne (value : Ssz.MissingOr (CapHashOrRef O)) (different : other ≠ key) :
    (cnode.insert key value).entry other = cnode.entry other := by
  obtain ⟨slots⟩ := cnode
  unfold insert entry
  induction slots with
  | nil => simp [SortedMap.insertEntry, Ne.symm different]
  | cons e rest ih =>
    unfold SortedMap.insertEntry
    split
    · -- The new entry is passed over.
      rw [List.find?_cons_of_neg (by simpa using Ne.symm different)]
    next notBelow =>
      split
      next same =>
        -- It replaces an entry that was passed over.
        rw [List.find?_cons_of_neg (by simpa using Ne.symm different),
          List.find?_cons_of_neg (by simpa [← same] using Ne.symm different)]
      next notSame =>
        by_cases here : e.1 = other
        · rw [List.find?_cons_of_pos (by simpa using here),
            List.find?_cons_of_pos (by simpa using here)]
        · rw [List.find?_cons_of_neg (by simpa using here),
            List.find?_cons_of_neg (by simpa using here)]
          exact ih

@[simp]
theorem entry_remove_self : (cnode.remove key).entry key = none := by
  rw [entry, Option.map_eq_none_iff, List.find?_eq_none]
  intro e member
  simpa [remove] using (List.mem_filter.mp member).2

theorem entry_remove_ne (different : other ≠ key) :
    (cnode.remove key).entry other = cnode.entry other := by
  unfold remove entry
  rw [List.find?_filter]
  congr 2
  funext e
  by_cases here : e.1 = other
  · simp [here, different]
  · simp [here]

theorem peekKey_of_entry {cnode' : CNodeCap O} (same : cnode'.entry other = cnode.entry other) :
    cnode'.peekKey other = cnode.peekKey other := by
  unfold peekKey
  rw [same]

@[simp]
theorem peekKey_setKey_self (target : Option (CapHashOrRef O)) :
    (cnode.setKey key target).peekKey key = target := by
  cases target with
  | none => simp [peekKey, setKey]
  | some target => simp [peekKey, setKey]

theorem entry_setKey_ne (target : Option (CapHashOrRef O)) (different : other ≠ key) :
    (cnode.setKey key target).entry other = cnode.entry other := by
  cases target with
  | none => exact cnode.entry_remove_ne different
  | some target => exact cnode.entry_insert_ne _ different

theorem peekKey_setKey_ne (target : Option (CapHashOrRef O)) (different : other ≠ key) :
    (cnode.setKey key target).peekKey other = cnode.peekKey other :=
  cnode.peekKey_of_entry (cnode.entry_setKey_ne target different)

end Jar.Javm.CNodeCap

namespace Jar.Kernel

open Javm
open scoped Word

variable {Runtime : Type}

/-! ## Slots of an image -/

theorem peekKey_fillInitial (initial : List ImageSlotEntry) (cnode : ResidentCNode Runtime)
    {key : Key} {target : ResidentTarget Runtime} (held : cnode.peekKey key = some target) :
    (initial.foldl (fun cnode e =>
      if (cnode.peekKey e.slot).isNone then cnode.setKey e.slot (some (.hash e.capHash)) else cnode)
      cnode).peekKey key = some target := by
  induction initial generalizing cnode with
  | nil => exact held
  | cons e rest ih =>
    rw [List.foldl_cons]
    apply ih
    split
    next empty =>
      -- An empty slot is another one.
      have different : key ≠ e.slot := by
        rintro rfl
        rw [held] at empty
        cases empty
      rw [CNodeCap.peekKey_setKey_ne _ _ different, held]
    · exact held

theorem peekKey_installPinned {pinned : List ImageSlotEntry}
    (distinct : (pinned.map (·.slot)).Nodup) (cnode : ResidentCNode Runtime) {e : ImageSlotEntry}
    (member : e ∈ pinned) :
    (pinned.foldl (fun cnode e => cnode.setKey e.slot (some (.hash e.capHash))) cnode).peekKey
      e.slot = some (.hash e.capHash) := by
  -- Later entries have other slots.
  have later : ∀ (rest : List ImageSlotEntry) (cnode : ResidentCNode Runtime),
      e.slot ∉ rest.map (·.slot) → cnode.peekKey e.slot = some (.hash e.capHash) →
      (rest.foldl (fun cnode e => cnode.setKey e.slot (some (.hash e.capHash))) cnode).peekKey
        e.slot = some (.hash e.capHash) := by
    intro rest
    induction rest with
    | nil => exact fun _ _ held => held
    | cons e' rest ih =>
      intro cnode other held
      rw [List.map_cons, List.mem_cons, not_or] at other
      exact ih _ other.2 (by rw [CNodeCap.peekKey_setKey_ne _ _ other.1, held])
  induction pinned generalizing cnode with
  | nil => cases member
  | cons first rest ih =>
    rw [List.map_cons, List.nodup_cons] at distinct
    rw [List.foldl_cons]
    rcases List.mem_cons.mp member with rfl | tail
    · exact later rest _ distinct.1 (CNodeCap.peekKey_setKey_self ..)
    · exact ih distinct.2 _ tail

theorem peekKey_overlayImageSlots {img : ImageCap} (distinct : (img.pinned.map (·.slot)).Nodup)
    (cnode : ResidentCNode Runtime) {e : ImageSlotEntry} (member : e ∈ img.pinned) :
    (overlayImageSlots img cnode).peekKey e.slot = some (.hash e.capHash) :=
  peekKey_fillInitial _ _ (peekKey_installPinned distinct cnode member)

/-! ## Inherited slots -/

theorem entry_inheritSlots (parent child : ResidentCNode Runtime) {key : Key}
    {value : Ssz.MissingOr (ResidentTarget Runtime)} (held : child.entry key = some value) :
    (inheritSlots parent child).entry key = some value := by
  unfold inheritSlots
  generalize parent.slots = slots
  induction slots generalizing child with
  | nil => exact held
  | cons e rest ih =>
    rw [List.foldl_cons]
    apply ih
    obtain ⟨slot, offered⟩ := e
    simp only
    -- A slot is only filled if it has no entry.
    have fills : (if (child.entry slot).isNone then child.insert slot offered else child).entry key =
        some value := by
      split
      next empty =>
        have different : key ≠ slot := by
          rintro rfl
          rw [held] at empty
          cases empty
        rw [CNodeCap.entry_insert_ne _ _ different, held]
      · exact held
    split
    · exact held
    · split
      · exact held
      · exact fills

theorem peekKey_inheritSlots (parent child : ResidentCNode Runtime) {key : Key}
    {target : ResidentTarget Runtime} (held : child.peekKey key = some target) :
    (inheritSlots parent child).peekKey key = some target := by
  have entry : child.entry key = some (.materialized target) := by
    unfold CNodeCap.peekKey at held
    split at held
    next target' same =>
      cases held
      exact same
    · cases held
  unfold CNodeCap.peekKey
  rw [entry_inheritSlots parent child entry]

/-! ## Searching pinned slots -/

theorem binarySearch_eq_true {keys : List Key} (sorted : keys.Pairwise (· < ·)) {key : Key} :
    binarySearch keys key = true ↔ key ∈ keys := by
  unfold binarySearch
  rw [Option.isSome_iff_exists, List.mem_iff_getElem?]
  exact exists_congr fun _ => BinarySearch.search_eq_some_iff sorted

/-- A slot that the guest may write is neither pinned nor pending. -/
theorem free_of_slotWriteBlocked {frame : KernelFrame Runtime} {slot : Key}
    (free : slotWriteBlocked frame slot = false) :
    (frame.pinned.Pairwise (· < ·) → slot ∉ frame.pinned) ∧ slotIsPending frame slot = false := by
  rw [slotWriteBlocked, Bool.or_eq_false_iff] at free
  refine ⟨fun sorted member => ?_, free.2⟩
  rw [(binarySearch_eq_true sorted).mpr member] at free
  cases free.1

end Jar.Kernel
