import Jar.Cap.Image
import Jar.Proofs.SszTable

/-! When a derived decoder panics. -/

namespace Jar.Ssz

open Attempt

variable {V : Type}

/-! ## What the header of a container says -/

def between (bytes : List Byte) (start stop : Nat) : List Byte :=
  (bytes.drop start).take (stop - start)

/-- The size of the fixed region, as a natural number. -/
def slotSum (fields : List (Decode V)) : Nat := (fields.map Decode.slotLen).sum

theorem slotSum_cons (field : Decode V) (fields : List (Decode V)) :
    slotSum (field :: fields) = field.slotLen + slotSum fields := rfl

/-- The variable fields with the offsets in their slots. -/
def varOffsets (bytes : List Byte) : Nat → List (Decode V) → List (Decode V × Nat)
  | _, [] => []
  | cursor, field :: rest =>
    if field.isFixed then varOffsets bytes (cursor + field.slotLen) rest
    else (field, offsetAt bytes cursor) :: varOffsets bytes (cursor + field.slotLen) rest

/-- Each variable field with the window from its offset to the next, the last to the end. -/
def windows (len : Nat) : List (Decode V × Nat) → List (Decode V × Nat × Nat)
  | [] => []
  | (field, start) :: rest => (field, start, (rest.head?.map (·.2)).getD len) :: windows len rest

def FixedFieldsDecode (bytes : List Byte) : Nat → List (Decode V) → Prop
  | _, [] => True
  | cursor, field :: rest =>
    (field.isFixed → ∃ value,
      field.decode (between bytes cursor (cursor + field.slotLen)) = pure value) ∧
      FixedFieldsDecode bytes (cursor + field.slotLen) rest

/-- The fixed region is there, its fixed fields decode, and its offsets are in order from the end
of the region on. -/
structure HeaderAccepted (fields : List (Decode V)) (bytes : List Byte) : Prop where
  room : slotSum fields ≤ bytes.length
  fixedFields : FixedFieldsDecode bytes 0 fields
  ordered : ((varOffsets bytes 0 fields).map (·.2)).IsChain (· ≤ ·)
  first : ∀ off ∈ ((varOffsets bytes 0 fields).map (·.2)).head?, off = slotSum fields

/-- Some window ends behind the bytes, while the variable fields before it decode. -/
def Overreaches (bytes : List Byte) (offsets : List (Decode V × Nat)) : Prop :=
  ∃ earlier window later, windows bytes.length offsets = earlier ++ window :: later ∧
    (∀ w ∈ earlier, ∃ value, w.1.decode (between bytes w.2.1 w.2.2) = pure value) ∧
    bytes.length < window.2.2

/-- The fixed region has a machine-word size, and no window that is reached ends behind the
bytes. -/
def ContainerSafe (fields : List (Decode V)) (bytes : List Byte) : Prop :=
  slotSum fields < 2 ^ 64 ∧
    (HeaderAccepted fields bytes → ¬Overreaches bytes (varOffsets bytes 0 fields))

def NoPanic (fields : List (Decode V)) : Prop :=
  ∀ field ∈ fields, ∀ bytes, field.decode bytes ≠ crash

/-! ## First pass -/

theorem addUsize_of_lt {a b : Nat} (fits : a + b < 2 ^ 64) : addUsize a b = pure (a + b) :=
  if_pos fits

/-- The running sum panics exactly when the whole sum does not fit. -/
theorem foldlM_addUsize (fields : List (Decode V)) {total : Nat} (small : total < 2 ^ 64) :
    fields.foldlM (fun total field => addUsize total field.slotLen) total =
      if total + slotSum fields < 2 ^ 64 then pure (total + slotSum fields) else crash := by
  induction fields generalizing total with
  | nil => exact (if_pos small).symm
  | cons field rest ih =>
    rw [List.foldlM_cons, slotSum_cons]
    by_cases fits : total + field.slotLen < 2 ^ 64
    · rw [addUsize_of_lt fits, pure_bind, ih fits, Nat.add_assoc]
    · rw [addUsize, if_neg fits, crash_bind, if_neg (by omega)]

/-- What the first pass stores, slot by slot. -/
inductive SlotsRead (bytes : List Byte) : Nat → List (Decode V) → List (Slot V) → Prop where
  | nil (cursor : Nat) : SlotsRead bytes cursor [] []
  | fixed {cursor : Nat} {field : Decode V} {fields : List (Decode V)} {slots : List (Slot V)}
      {value : V} (isFixed : field.isFixed = true)
      (decoded : field.decode (between bytes cursor (cursor + field.slotLen)) = pure value)
      (rest : SlotsRead bytes (cursor + field.slotLen) fields slots) :
      SlotsRead bytes cursor (field :: fields) (⟨some value, none⟩ :: slots)
  | offset {cursor : Nat} {field : Decode V} {fields : List (Decode V)} {slots : List (Slot V)}
      (isVar : field.isFixed = false)
      (rest : SlotsRead bytes (cursor + field.slotLen) fields slots) :
      SlotsRead bytes cursor (field :: fields) (⟨none, some (offsetAt bytes cursor)⟩ :: slots)

theorem readSlot_eq {bytes : List Byte} {cursor : Nat} {field : Decode V}
    (fits : cursor + field.slotLen < 2 ^ 64) :
    readSlot bytes cursor field =
      if bytes.length < cursor + field.slotLen then
        throw (.unexpectedEof (cursor + field.slotLen) bytes.length)
      else if field.isFixed then
        (fun value => (⟨some value, none⟩, cursor + field.slotLen)) <$>
          field.decode (between bytes cursor (cursor + field.slotLen))
      else pure (⟨none, some (offsetAt bytes cursor)⟩, cursor + field.slotLen) := by
  rw [readSlot, addUsize_of_lt fits, pure_bind]
  by_cases ends : bytes.length < cursor + field.slotLen
  · rw [if_pos ends, if_pos ends]
  · have part : slice bytes cursor (cursor + field.slotLen) =
        pure (between bytes cursor (cursor + field.slotLen)) :=
      slice_eq_pure.mpr ⟨Nat.le_add_right _ _, Nat.not_lt.mp ends, rfl⟩
    rw [if_neg ends, if_neg ends, part, pure_bind]
    by_cases fixed : field.isFixed = true
    · rw [if_pos fixed, if_pos fixed, map_eq_pure_bind]
    · have size : field.slotLen = 4 := if_neg fixed
      rw [if_neg fixed, if_neg fixed, offsetAt, between, Nat.add_sub_cancel_left, size]
      rfl

theorem readSlots_ne_crash {bytes : List Byte} {fields : List (Decode V)} (noPanic : NoPanic fields)
    {cursor : Nat} (fits : cursor + slotSum fields < 2 ^ 64) :
    readSlots bytes cursor fields ≠ crash := by
  induction fields generalizing cursor with
  | nil => exact pure_ne_crash
  | cons field rest ih =>
    rw [slotSum_cons] at fits
    intro ran
    rw [readSlots, readSlot_eq (by omega), bind_eq_crash] at ran
    rcases ran with slot | ⟨⟨slot, next⟩, read, ran⟩
    · split at slot
      · exact throw_ne_crash slot
      · split at slot
        · exact noPanic field List.mem_cons_self _ (map_eq_crash.mp slot)
        · exact pure_ne_crash slot
    · have position : next = cursor + field.slotLen := by
        obtain ⟨-, read⟩ := ite_throw_eq_pure.mp read
        split at read
        · obtain ⟨_, -, same⟩ := map_eq_pure.mp read
          exact (congrArg Prod.snd same).symm
        · exact (congrArg Prod.snd (pure_inj.mp read)).symm
      rcases bind_eq_crash.mp ran with later | ⟨_, -, ran⟩
      · subst position
        exact ih (fun f member => noPanic f (List.mem_cons_of_mem _ member)) (by omega) later
      · exact pure_ne_crash ran

theorem readSlots_eq_pure {bytes : List Byte} {fields : List (Decode V)} {cursor stop : Nat}
    {slots : List (Slot V)} (fits : cursor + slotSum fields < 2 ^ 64)
    (inside : cursor ≤ bytes.length) :
    readSlots bytes cursor fields = pure (slots, stop) ↔
      SlotsRead bytes cursor fields slots ∧ stop = cursor + slotSum fields ∧
        stop ≤ bytes.length := by
  induction fields generalizing cursor slots with
  | nil =>
    constructor
    · intro ran
      cases pure_inj.mp ran
      exact ⟨.nil _, rfl, inside⟩
    · rintro ⟨⟨⟩, rfl, -⟩
      rfl
  | cons field rest ih =>
    rw [slotSum_cons] at fits ⊢
    rw [readSlots, readSlot_eq (by omega), bind_eq_pure]
    constructor
    · rintro ⟨⟨slot, next⟩, read, ran⟩
      obtain ⟨⟨others, stop'⟩, later, ran⟩ := bind_eq_pure.mp ran
      cases pure_inj.mp ran
      obtain ⟨room, read⟩ := ite_throw_eq_pure.mp read
      by_cases fixed : field.isFixed = true
      · rw [if_pos fixed] at read
        obtain ⟨value, decoded, same⟩ := map_eq_pure.mp read
        cases same
        obtain ⟨slotsRead, rfl, ends⟩ := (ih (by omega) (by omega)).mp later
        exact ⟨.fixed fixed decoded slotsRead, by omega, ends⟩
      · rw [if_neg fixed] at read
        cases pure_inj.mp read
        obtain ⟨slotsRead, rfl, ends⟩ := (ih (by omega) (by omega)).mp later
        exact ⟨.offset (Bool.not_eq_true _ ▸ fixed) slotsRead, by omega, ends⟩
    · rintro ⟨slotsRead, rfl, ends⟩
      have room : ¬bytes.length < cursor + field.slotLen := by omega
      have later {others : List (Slot V)}
          (slotsRead : SlotsRead bytes (cursor + field.slotLen) rest others) :
          readSlots bytes (cursor + field.slotLen) rest =
            pure (others, cursor + (field.slotLen + slotSum rest)) :=
        (ih (by omega) (by omega)).mpr ⟨slotsRead, by omega, by omega⟩
      cases slotsRead with
      | fixed isFixed decoded others =>
        refine ⟨(⟨some _, none⟩, cursor + field.slotLen), ?_,
          bind_eq_pure.mpr ⟨(_, _), later others, rfl⟩⟩
        rw [if_neg room, if_pos isFixed, decoded]
        rfl
      | offset isVar others =>
        refine ⟨(⟨none, some _⟩, cursor + field.slotLen), ?_,
          bind_eq_pure.mpr ⟨(_, _), later others, rfl⟩⟩
        rw [if_neg room, isVar, if_neg Bool.false_ne_true]

/-- The first pass gets through exactly when the fixed fields decode. -/
theorem exists_slotsRead {bytes : List Byte} {fields : List (Decode V)} {cursor : Nat} :
    (∃ slots, SlotsRead bytes cursor fields slots) ↔ FixedFieldsDecode bytes cursor fields := by
  induction fields generalizing cursor with
  | nil => exact iff_of_true ⟨[], .nil cursor⟩ trivial
  | cons field rest ih =>
    rw [FixedFieldsDecode, ← ih]
    constructor
    · rintro ⟨_, slotsRead⟩
      cases slotsRead with
      | fixed isFixed decoded others => exact ⟨fun _ => ⟨_, decoded⟩, _, others⟩
      | offset isVar others =>
        exact ⟨fun fixed => absurd fixed (isVar ▸ Bool.false_ne_true), _, others⟩
    · rintro ⟨decodes, slots, others⟩
      cases fixed : field.isFixed with
      | true =>
        obtain ⟨value, decoded⟩ := decodes fixed
        exact ⟨_, .fixed fixed decoded others⟩
      | false => exact ⟨_, .offset fixed others⟩

/-! ## Second pass -/

/-- The offsets of the variable fields with the indices of the fields. -/
def positionsFrom (bytes : List Byte) : Nat → Nat → List (Decode V) → List (Nat × Nat)
  | _, _, [] => []
  | i, cursor, field :: rest =>
    if field.isFixed then positionsFrom bytes (i + 1) (cursor + field.slotLen) rest
    else (i, offsetAt bytes cursor) :: positionsFrom bytes (i + 1) (cursor + field.slotLen) rest

theorem map_snd_positionsFrom (bytes : List Byte) (i cursor : Nat) (fields : List (Decode V)) :
    (positionsFrom bytes i cursor fields).map (·.2) = (varOffsets bytes cursor fields).map (·.2) := by
  induction fields generalizing i cursor with
  | nil => rfl
  | cons field rest ih =>
    unfold positionsFrom varOffsets
    split
    · exact ih _ _
    · rw [List.map_cons, List.map_cons, ih]

theorem varPositions_of_slotsRead {bytes : List Byte} {cursor : Nat} {fields : List (Decode V)}
    {slots : List (Slot V)} (slotsRead : SlotsRead bytes cursor fields slots) (i : Nat) :
    varPositions i (fields.zip slots) = pure (positionsFrom bytes i cursor fields) := by
  induction slotsRead generalizing i with
  | nil => rfl
  | fixed isFixed _ _ ih =>
    rw [List.zip_cons_cons, varPositions, if_pos isFixed, ih, positionsFrom, if_pos isFixed]
  | offset isVar _ ih =>
    rw [List.zip_cons_cons, varPositions, positionsFrom, isVar, if_neg Bool.false_ne_true,
      if_neg Bool.false_ne_true, ih]
    rfl

theorem windowEnd_of_split {len i off : Nat} {before after : List (Nat × Nat)}
    (smaller : ∀ position ∈ before, position.1 < i) :
    windowEnd len (before ++ (i, off) :: after) i = pure ((after.head?.map (·.2)).getD len) := by
  have found : (before ++ (i, off) :: after).findIdx? (fun position => position.1 = i) =
      some before.length := by
    rw [List.findIdx?_append, List.findIdx?_eq_none_iff.mpr, List.findIdx?_cons]
    · simp
    · intro position member
      simpa using Nat.ne_of_lt (smaller position member)
  rw [windowEnd, found]
  change (if before.length + 1 < _ then _ else _) = _
  cases after with
  | nil =>
    rw [if_neg (by simp)]
    rfl
  | cons next later =>
    have inside : (before ++ (i, off) :: next :: later)[before.length + 1]? = some next := by
      rw [List.getElem?_append_right (by omega), Nat.add_sub_cancel_left]
      rfl
    rw [if_pos (by simp), inside]
    rfl

/-- The windows of the variable fields behind a field overreach, or its own window does; a window
that ends inside the bytes has to decode first. -/
theorem overreaches_cons {bytes : List Byte} {field : Decode V} {start : Nat}
    {rest : List (Decode V × Nat)} :
    Overreaches bytes ((field, start) :: rest) ↔
      bytes.length < (rest.head?.map (·.2)).getD bytes.length ∨
        (∃ value, field.decode (between bytes start ((rest.head?.map (·.2)).getD bytes.length)) =
          pure value) ∧ Overreaches bytes rest := by
  constructor
  · rintro ⟨earlier, window, later, split, decode, behind⟩
    rw [windows] at split
    cases earlier with
    | nil =>
      cases split
      exact .inl behind
    | cons first earlier =>
      rw [List.cons_append] at split
      obtain ⟨rfl, rest⟩ := List.cons.inj split
      exact .inr ⟨decode _ List.mem_cons_self, earlier, window, later, rest,
        fun w member => decode w (List.mem_cons_of_mem _ member), behind⟩
  · rintro (behind | ⟨decoded, earlier, window, later, split, decode, behind⟩)
    · exact ⟨[], _, _, rfl, fun _ member => (nomatch member), behind⟩
    · refine ⟨_ :: earlier, window, later, congrArg (_ :: ·) split, ?_, behind⟩
      exact List.forall_mem_cons.mpr ⟨decoded, decode⟩

theorem not_overreaches_nil {bytes : List Byte} : ¬Overreaches bytes ([] : List (Decode V × Nat)) := by
  rintro ⟨earlier, _, _, split, -⟩
  exact absurd split (by simp [windows])

/-- The second pass panics exactly when some window overreaches. -/
theorem readWindows_eq_crash {bytes : List Byte} {cursor : Nat} {fields : List (Decode V)}
    {slots : List (Slot V)} (slotsRead : SlotsRead bytes cursor fields slots)
    (noPanic : NoPanic fields) {i : Nat} {before : List (Nat × Nat)}
    (smaller : ∀ position ∈ before, position.1 < i)
    (ordered : ((varOffsets bytes cursor fields).map (·.2)).IsChain (· ≤ ·)) :
    readWindows bytes (before ++ positionsFrom bytes i cursor fields) i (fields.zip slots) = crash ↔
      Overreaches bytes (varOffsets bytes cursor fields) := by
  induction slotsRead generalizing i before with
  | nil => exact iff_of_false pure_ne_crash not_overreaches_nil
  | @fixed cursor field fields slots value isFixed decoded rest ih =>
    have later := fun f member => noPanic f (List.mem_cons_of_mem field member)
    rw [varOffsets, if_pos isFixed] at ordered ⊢
    rw [positionsFrom, if_pos isFixed, List.zip_cons_cons, readWindows, if_pos isFixed,
      map_eq_crash]
    exact ih later (fun position member => Nat.lt_succ_of_lt (smaller position member)) ordered
  | @offset cursor field fields slots isVar rest ih =>
    have later := fun f member => noPanic f (List.mem_cons_of_mem field member)
    rw [varOffsets, isVar, if_neg Bool.false_ne_true] at ordered ⊢
    have next : ((positionsFrom bytes (i + 1) (cursor + field.slotLen) fields).head?.map (·.2)) =
        ((varOffsets bytes (cursor + field.slotLen) fields).head?.map (·.2)) := by
      rw [← List.head?_map, ← List.head?_map, map_snd_positionsFrom]
    rw [positionsFrom, isVar, if_neg Bool.false_ne_true, List.zip_cons_cons, readWindows, isVar,
      if_neg Bool.false_ne_true, overreaches_cons]
    change (windowEnd _ _ i >>= _) = _ ↔ _
    rw [windowEnd_of_split smaller, pure_bind, next]
    by_cases early :
        ((varOffsets bytes (cursor + field.slotLen) fields).head?.map (·.2)).getD bytes.length <
          offsetAt bytes cursor
    · -- The offsets are in order, so this is the last window, and it ends with the bytes.
      rw [if_pos early]
      cases behind : varOffsets bytes (cursor + field.slotLen) fields with
      | nil =>
        refine iff_of_false throw_ne_crash ?_
        rintro (longer | ⟨-, beyond⟩)
        · exact Nat.lt_irrefl _ longer
        · exact not_overreaches_nil beyond
      | cons following rest =>
        rw [behind] at ordered early
        have inOrder := (List.isChain_cons_cons.mp ordered).1
        exact absurd early (Nat.not_lt.mpr inOrder)
    · rw [if_neg early]
      by_cases inside :
          ((varOffsets bytes (cursor + field.slotLen) fields).head?.map (·.2)).getD bytes.length ≤
            bytes.length
      · have part : slice bytes (offsetAt bytes cursor)
            (((varOffsets bytes (cursor + field.slotLen) fields).head?.map (·.2)).getD
              bytes.length) = pure (between bytes (offsetAt bytes cursor) _) :=
          slice_eq_pure.mpr ⟨Nat.not_lt.mp early, inside, rfl⟩
        have indices : ∀ position ∈ before ++ [(i, offsetAt bytes cursor)], position.1 < i + 1 := by
          intro position member
          rcases List.mem_append.mp member with earlier | this
          · exact Nat.lt_succ_of_lt (smaller position earlier)
          · rw [List.mem_singleton.mp this]
            exact Nat.lt_succ_self i
        have tail := ih later indices ordered.of_cons
        rw [List.append_assoc, List.singleton_append] at tail
        rw [part, pure_bind, bind_eq_crash, or_iff_right (Nat.not_lt.mpr inside)]
        have quiet := noPanic field List.mem_cons_self
        constructor
        · rintro (ran | ⟨value, decoded, ran⟩)
          · exact absurd ran (quiet _)
          · rcases bind_eq_crash.mp ran with ran | ⟨_, -, ran⟩
            · exact ⟨⟨value, decoded⟩, tail.mp ran⟩
            · exact absurd ran pure_ne_crash
        · rintro ⟨⟨value, decoded⟩, beyond⟩
          exact .inr ⟨value, decoded, bind_eq_crash.mpr (.inl (tail.mpr beyond))⟩
      · have part : slice bytes (offsetAt bytes cursor)
            (((varOffsets bytes (cursor + field.slotLen) fields).head?.map (·.2)).getD
              bytes.length) = crash := if_neg fun range => inside range.2
        rw [part, crash_bind, crash_bind]
        exact iff_of_true rfl (.inl (Nat.not_le.mp inside))

theorem isSome_of_readWindows {bytes : List Byte} {cursor : Nat} {fields : List (Decode V)}
    {slots : List (Slot V)} (slotsRead : SlotsRead bytes cursor fields slots)
    {positions : List (Nat × Nat)} {i : Nat} {values : List (Option V)}
    (ran : readWindows bytes positions i (fields.zip slots) = pure values) :
    ∀ value ∈ values, value.isSome := by
  induction slotsRead generalizing i values with
  | nil =>
    cases pure_inj.mp ran
    exact fun _ member => nomatch member
  | fixed isFixed decoded rest ih =>
    rw [List.zip_cons_cons, readWindows, if_pos isFixed] at ran
    obtain ⟨others, later, rfl⟩ := map_eq_pure.mp ran
    exact List.forall_mem_cons.mpr ⟨rfl, ih later⟩
  | offset isVar rest ih =>
    rw [List.zip_cons_cons, readWindows, isVar, if_neg Bool.false_ne_true] at ran
    obtain ⟨_, -, ran⟩ := bind_eq_pure.mp ran
    obtain ⟨_, -, ran⟩ := bind_eq_pure.mp ran
    obtain ⟨-, ran⟩ := ite_throw_eq_pure.mp ran
    obtain ⟨_, -, ran⟩ := bind_eq_pure.mp ran
    obtain ⟨others, later, ran⟩ := bind_eq_pure.mp ran
    rw [← pure_inj.mp ran]
    exact List.forall_mem_cons.mpr ⟨rfl, ih later⟩

theorem mapM_expect_ne_crash {values : List (Option V)} (all : ∀ value ∈ values, value.isSome) :
    values.mapM expect ≠ (crash : Decoder (List V)) := by
  have found : values.mapM expect = (pure (values.filterMap id) : Decoder (List V)) := by
    refine mapM_eq_pure.mpr ?_
    induction values with
    | nil => exact .nil
    | cons value rest ih =>
      obtain ⟨here, later⟩ := List.forall_mem_cons.mp all
      obtain ⟨v, rfl⟩ := Option.isSome_iff_exists.mp here
      exact .cons rfl (ih later)
  rw [found]
  exact pure_ne_crash

/-! ## Whole containers -/

theorem decreasing_eq_none {positions : List (Nat × Nat)} :
    decreasing positions = none ↔ (positions.map (·.2)).IsChain (· ≤ ·) := by
  induction positions with
  | nil => exact iff_of_true rfl .nil
  | cons first rest ih =>
    cases rest with
    | nil => exact iff_of_true rfl (.singleton _)
    | cons next rest =>
      rw [decreasing, List.map_cons, List.map_cons, List.isChain_cons_cons, ← List.map_cons, ← ih]
      split
      · next before => exact iff_of_false nofun fun both => absurd before (Nat.not_lt.mpr both.1)
      · next inOrder => exact (and_iff_right (Nat.not_lt.mp inOrder)).symm

theorem failIf_bind_eq_crash {A : Type} {e : Option DecodeError} {p : Unit → Decoder A} :
    failIf e >>= p = crash ↔ e = none ∧ p () = crash := by
  cases e with
  | none => exact (and_iff_right rfl).symm
  | some e => exact iff_of_false throw_ne_crash fun both => nomatch both.1

/-- Behind the first pass only an overreaching window panics. -/
theorem decodePayloads_eq_crash {bytes : List Byte} {fields : List (Decode V)}
    {slots : List (Slot V)} (slotsRead : SlotsRead bytes 0 fields slots)
    (noPanic : NoPanic fields) (size : Nat) :
    decodePayloads bytes size (fields.zip slots) = crash ↔
      ((varOffsets bytes 0 fields).map (·.2)).IsChain (· ≤ ·) ∧
        (∀ off ∈ ((varOffsets bytes 0 fields).map (·.2)).head?, off = size) ∧
        Overreaches bytes (varOffsets bytes 0 fields) := by
  rw [decodePayloads, varPositions_of_slotsRead slotsRead, pure_bind, failIf_bind_eq_crash,
    failIf_bind_eq_crash, decreasing_eq_none, ← map_snd_positionsFrom bytes 0 0 fields]
  refine and_congr_right fun ordered => ?_
  have windowsCrash : readWindows bytes ([] ++ positionsFrom bytes 0 0 fields) 0
      (fields.zip slots) = crash ↔ Overreaches bytes (varOffsets bytes 0 fields) :=
    readWindows_eq_crash slotsRead noPanic (fun _ member => (nomatch member))
      (map_snd_positionsFrom bytes 0 0 fields ▸ ordered)
  rw [List.nil_append] at windowsCrash
  have rest : (readWindows bytes (positionsFrom bytes 0 0 fields) 0 (fields.zip slots) >>=
      fun values => values.mapM expect) = crash ↔
        Overreaches bytes (varOffsets bytes 0 fields) := by
    rw [bind_eq_crash, ← windowsCrash]
    exact or_iff_left fun ⟨values, ran, ends⟩ =>
      mapM_expect_ne_crash (isSome_of_readWindows slotsRead ran) ends
  rw [rest]
  cases found : positionsFrom bytes 0 0 fields with
  | nil =>
    -- Without offsets there is no window.
    have none : varOffsets bytes 0 fields = [] := by
      have same := map_snd_positionsFrom bytes 0 0 fields
      rw [found] at same
      exact List.map_eq_nil_iff.mp same.symm
    rw [none]
    exact iff_of_false (fun both => not_overreaches_nil both.2)
      fun both => not_overreaches_nil both.2
  | cons first later =>
    refine and_congr_left fun _ => ?_
    rw [checkFixedSize, List.map_cons, List.head?_cons]
    simp

theorem containerDecodeBody_ne_crash_iff {fields : List (Decode V)} (noPanic : NoPanic fields)
    (bytes : List Byte) :
    containerDecodeBody fields bytes ≠ crash ↔ ContainerSafe fields bytes := by
  have size : fixedSize fields =
      if slotSum fields < 2 ^ 64 then pure (slotSum fields) else crash := by
    have folded := foldlM_addUsize fields (show 0 < 2 ^ 64 by decide)
    rwa [Nat.zero_add] at folded
  unfold containerDecodeBody ContainerSafe
  rw [size]
  by_cases fits : slotSum fields < 2 ^ 64
  · have room : 0 + slotSum fields < 2 ^ 64 := by omega
    rw [if_pos fits, pure_bind, and_iff_right fits, ← not_and, ne_eq, not_iff_not, bind_eq_crash,
      or_iff_right (readSlots_ne_crash noPanic room)]
    constructor
    · rintro ⟨⟨slots, cursor⟩, read, ran⟩
      obtain ⟨slotsRead, rfl, ends⟩ := (readSlots_eq_pure room (Nat.zero_le _)).mp read
      rw [Nat.zero_add] at ran ends
      change (if slotSum fields ≠ slotSum fields then _ else _) = _ at ran
      rw [if_neg (fun different => different rfl), decodePayloads_eq_crash slotsRead noPanic] at ran
      exact ⟨⟨ends, exists_slotsRead.mp ⟨slots, slotsRead⟩, ran.1, ran.2.1⟩, ran.2.2⟩
    · rintro ⟨header, beyond⟩
      obtain ⟨slots, slotsRead⟩ := exists_slotsRead.mpr header.fixedFields
      refine ⟨(slots, slotSum fields), (readSlots_eq_pure room (Nat.zero_le _)).mpr
        ⟨slotsRead, (Nat.zero_add _).symm, header.room⟩, ?_⟩
      change (if slotSum fields ≠ slotSum fields then _ else _) = _
      rw [if_neg (fun different => different rfl), decodePayloads_eq_crash slotsRead noPanic]
      exact ⟨header.ordered, header.first, beyond⟩
  · rw [if_neg fits, crash_bind]
    exact iff_of_false (fun ran => ran rfl) fun both => fits both.1

/-! ## Structs and enums -/

def Variant.NoPanic : Variant V → Prop
  | .unit => True
  | .newtype field => ∀ bytes, field.decode bytes ≠ crash
  | .named fields => Ssz.NoPanic fields

/-- The selected variant, if it is a container, is a safe one. -/
def EnumSafe (variants : List (Byte × Variant V)) : List Byte → Prop
  | [] => True
  | selector :: payload =>
    match variants.find? fun variant => variant.1 = selector with
    | some (_, .named (field :: fields)) => ContainerSafe (field :: fields) payload
    | _ => True

theorem uint_ne_crash (size : Nat) (bytes : List Byte) : (uint size).decode bytes ≠ crash := by
  change (if bytes.length ≠ size then throw _ else pure _) ≠ crash
  split
  · exact throw_ne_crash
  · exact pure_ne_crash

/-- Vectors of fixed-length elements are cut inside the bytes. -/
theorem decodeVec_ne_crash {T : Type} {c : Decode T} (fixed : c.isFixed = true)
    (quiet : ∀ bytes, c.decode bytes ≠ crash) (bytes : List Byte) :
    (decodeVec c).decode bytes ≠ crash := by
  simp only [decodeVec, decodeSequence, decodeFixed, fixed, if_true]
  split
  · exact throw_ne_crash
  split
  · exact throw_ne_crash
  split
  · exact throw_ne_crash
  refine mapM_ne_crash fun i member ran => ?_
  have below := List.mem_range.mp member
  have inside : i * c.fixedLen + c.fixedLen ≤ bytes.length := by
    rw [← Nat.succ_mul]
    exact Nat.le_trans (Nat.mul_le_mul_right _ below) (Nat.div_mul_le_self _ _)
  rcases bind_eq_crash.mp ran with ran | ⟨_, -, ran⟩
  · rw [slice, if_pos ⟨Nat.le_add_right _ _, inside⟩] at ran
    exact pure_ne_crash ran
  · exact quiet _ ran

/-- For fields that do not panic, the derived decoders of structs and enums do not panic exactly on
the inputs of which no reached window ends behind the bytes. -/
theorem derivedDecode_ne_crash_iff {fields : List (Decode V)} (quiet : NoPanic fields)
    {variants : List (Byte × Variant V)} (quietVariants : ∀ variant ∈ variants, variant.2.NoPanic)
    (bytes : List Byte) :
    ((decodeStruct fields).decode bytes ≠ crash ↔ fields = [] ∨ ContainerSafe fields bytes) ∧
      ((decodeEnum variants).decode bytes ≠ crash ↔ EnumSafe variants bytes) := by
  constructor
  · by_cases none : fields = []
    · subst none
      exact iff_of_true pure_ne_crash (.inl rfl)
    · rw [or_iff_right none, ← containerDecodeBody_ne_crash_iff quiet]
      have some : fields.isEmpty ≠ true := by simpa using none
      exact (congrArg (· ≠ crash) (if_neg some)).to_iff
  · cases bytes with
    | nil => exact iff_of_true throw_ne_crash trivial
    | cons selector payload =>
      have leftover : (if payload ≠ [] then throw (.trailingBytes 1 (payload.length + 1))
          else pure [] : Decoder (List V)) ≠ crash := by
        split
        · exact throw_ne_crash
        · exact pure_ne_crash
      simp only [decodeEnum, EnumSafe]
      cases found : variants.find? fun variant => variant.1 = selector with
      | none => exact iff_of_true throw_ne_crash trivial
      | some variant =>
        have member := quietVariants variant (List.mem_of_find?_eq_some found)
        obtain ⟨_, shape⟩ := variant
        simp only [ne_eq, map_eq_crash]
        cases shape with
        | unit => exact iff_of_true leftover trivial
        | newtype field =>
          exact iff_of_true (fun ran => member payload (map_eq_crash.mp ran)) trivial
        | named fields =>
          cases fields with
          | nil => exact iff_of_true leftover trivial
          | cons field fields => exact containerDecodeBody_ne_crash_iff member payload

def byteAndVecs : List (Decode Cap.Value) :=
  let vec := Cap.view (fun bytes => .bytes bytes) (decodeVec (uint 1).toDecode)
  [Cap.uintField 1, vec, vec]

/-- A byte and two vectors, as a struct and as the payload of an enum. -/
theorem derivedDecode_byteAndVecs :
    let bytes : List Byte := [7, 9, 0, 0, 0, 11, 0, 0, 0, 1, 2, 3]
    NoPanic byteAndVecs ∧ (decodeStruct byteAndVecs).decode bytes ≠ crash ∧
      (decodeEnum [(0, .unit), (5, .named byteAndVecs)]).decode (5 :: bytes) ≠ crash := by
  intro bytes
  have quiet : NoPanic byteAndVecs := by
    have vec : ∀ bytes, (Cap.view (fun bytes => Cap.Value.bytes bytes)
        (decodeVec (uint 1).toDecode)).decode bytes ≠ crash :=
      fun bytes ran => decodeVec_ne_crash rfl (uint_ne_crash 1) bytes (map_eq_crash.mp ran)
    exact List.forall_mem_cons.mpr ⟨fun bytes ran => uint_ne_crash 1 bytes (map_eq_crash.mp ran),
      List.forall_mem_cons.mpr ⟨vec, List.forall_mem_singleton.mpr vec⟩⟩
  have quietVariants : ∀ variant ∈ ([(0, .unit), (5, .named byteAndVecs)] :
      List (Byte × Variant Cap.Value)), variant.2.NoPanic :=
    List.forall_mem_cons.mpr ⟨trivial, List.forall_mem_singleton.mpr quiet⟩
  have safe : ContainerSafe byteAndVecs bytes := by
    refine ⟨by decide, fun _ beyond => ?_⟩
    rcases overreaches_cons.mp beyond with behind | ⟨-, beyond⟩
    · exact absurd behind (by decide)
    rcases overreaches_cons.mp beyond with behind | ⟨-, beyond⟩
    · exact absurd behind (by decide)
    · exact not_overreaches_nil beyond
  exact ⟨quiet, (derivedDecode_ne_crash_iff quiet quietVariants _).1.mpr (.inr safe),
    (derivedDecode_ne_crash_iff quiet quietVariants (5 :: bytes)).2.mpr safe⟩

/-- An image of 40 bytes, the size of its fixed region, with an offset of 41 for its second
variable field: the slice for the endpoints ends behind the bytes. -/
def overreachingImage : List Byte :=
  List.replicate 8 0 ++ [40, 0, 0, 0] ++ (List.replicate 7 [41, 0, 0, 0]).flatten

theorem derivedDecode_image_panics : Cap.image.decode overreachingImage = crash := rfl

end Jar.Ssz
